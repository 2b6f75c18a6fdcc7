import Stepwise.Proofs.Instructions
import Stepwise.Proofs.Operators

/-!
# Texts whose operators were tightened

A text that was read from an image loses the blanks around an operator between two digits and around
every equals sign. `Tightened s t` says so of two texts place by place, and `tightened_tighten` that
the two replacements do just that, which is seen by going through the text with them
(`tighten_induction`).

Results: what does not change, namely plain texts (`Tightened.plain_eq`), the want of keywords
(`Tightened.keyless`), squeezed and trimmed texts (`Tightened.squeezed`, `Tightened.trim`); and
`Tightened.exists_sameFront`, the words at the front stay, but for a blank in front of an equals sign.
-/

namespace Stepwise.Phrase

open Text Pattern

variable {c d e op : Char} {m r s t u v w w' x y : Text}

/-- There is nothing but blanks in the text. -/
def AllBlanks (w : Text) : Prop := ∀ b ∈ w, isBlank b = true

theorem allBlanks_nil : AllBlanks [] := fun _ h => absurd h List.not_mem_nil

/-- The second text is the first one without the blanks around operators between digits and around
equals signs. -/
inductive Tightened : Text → Text → Prop
  | nil : Tightened [] []
  /-- No equals sign comes here, not even after blanks. -/
  | keep {c : Char} {s t : Text} (hc : ∀ w x, AllBlanks w → c :: s ≠ w ++ '=' :: x)
      (h : Tightened s t) : Tightened (c :: s) (c :: t)
  | operation {d op e : Char} {w w' s t : Text} (hd : isDigit d = true)
      (hop : op ∈ "+-*/^".toList) (he : isDigit e = true) (hw : AllBlanks w) (hw' : AllBlanks w')
      (h : Tightened s t) :
      Tightened (d :: (w ++ op :: (w' ++ e :: s))) (d :: op :: e :: t)
  | equality {w w' s t : Text} (hw : AllBlanks w) (hw' : AllBlanks w') (h : Tightened s t) :
      Tightened (w ++ '=' :: (w' ++ s)) ('=' :: t)

/-! ## The two replacements -/

theorem replaceAll_of_reading {p : Pattern Text} {new : Text} (hu : u ≠ [])
    (h : p.best? (u ++ r) = some (new, r)) :
    replaceAll (fun _ => p) (u ++ r) = new ++ replaceAll (fun _ => p) r := by
  obtain ⟨last, hfront⟩ := @replaceFrom_of_best? r u (fun _ => p) none new hu h
  exact hfront.trans (congrArg (new ++ ·) (replaceFrom_congr (p := fun _ => p) rfl r))

theorem replaceAll_of_no_reading {p : Pattern Text} (h : p.best? (c :: s) = none) :
    replaceAll (fun _ => p) (c :: s) = c :: replaceAll (fun _ => p) s := by
  rw [replaceAll, replaceFrom, h]
  exact congrArg (c :: ·) (replaceFrom_congr (p := fun _ => p) rfl s)

theorem mem_looseOperation {new : Text} : (new, r) ∈ looseOperation t ↔
    ∃ d op e w w', new = [d, op, e] ∧ t = d :: (w ++ op :: (w' ++ e :: r)) ∧ isDigit d = true ∧
      op ∈ "+-*/^".toList ∧ isDigit e = true ∧ AllBlanks w ∧ AllBlanks w' := by
  simp only [looseOperation, mem_bind, mem_pure, mem_one, mem_blanks_iff, List.contains_iff_mem,
    allBlank, List.all_eq_true]
  constructor
  · rintro ⟨d, _, ⟨rfl, hd⟩, w, _, ⟨rfl, hw⟩, op, _, ⟨rfl, hop⟩, w', _, ⟨rfl, hw'⟩, e, _, ⟨rfl, he⟩,
      rfl, rfl⟩
    exact ⟨d, op, e, w, w', rfl, rfl, hd, hop, he, hw, hw'⟩
  · rintro ⟨d, op, e, w, w', rfl, rfl, hd, hop, he, hw, hw'⟩
    exact ⟨d, _, ⟨rfl, hd⟩, w, _, ⟨rfl, hw⟩, op, _, ⟨rfl, hop⟩, w', _, ⟨rfl, hw'⟩, e, _, ⟨rfl, he⟩,
      rfl, rfl⟩

theorem mem_looseEquality {new : Text} : (new, r) ∈ looseEquality t ↔
    ∃ w w', new = ['='] ∧ t = w ++ '=' :: (w' ++ r) ∧ AllBlanks w ∧ AllBlanks w' := by
  simp only [looseEquality, mem_bind, mem_pure, mem_literal, mem_blanks_iff, allBlank,
    List.all_eq_true]
  constructor
  · rintro ⟨w, _, ⟨rfl, hw⟩, _, _, rfl, w', _, ⟨rfl, hw'⟩, rfl, rfl⟩
    exact ⟨w, w', rfl, rfl, hw, hw'⟩
  · rintro ⟨w, w', rfl, rfl, hw, hw'⟩
    exact ⟨w, _, ⟨rfl, hw⟩, (), _, rfl, w', _, ⟨rfl, hw'⟩, rfl, rfl⟩

/-- An operation is read with all its blanks. -/
theorem best?_looseOperation (hd : isDigit d = true) (hop : op ∈ "+-*/^".toList)
    (he : isDigit e = true) (hw : AllBlanks w) (hw' : AllBlanks w') (r : Text) :
    looseOperation.best? (d :: (w ++ op :: (w' ++ e :: r))) = some ([d, op, e], r) := by
  have hsign : isBlank op = false :=
    forall_mem_of_all (p := fun op => isBlank op = false) (by decide) op hop
  have left := best?_many (t := op :: (w' ++ e :: r)) (fun c hc => Option.some.inj hc ▸ hsign) hw
  have right := best?_many (t := e :: r)
    (fun c hc => Option.some.inj hc ▸ (plain_digit he).2.1) hw'
  refine best?_bind (best?_of_eq (one_cons hd _)) (best?_bind left ?_)
  refine best?_bind (best?_of_eq (one_cons (List.contains_iff_mem.mpr hop) _)) (best?_bind right ?_)
  exact best?_bind (best?_of_eq (one_cons he r)) rfl

/-- An equals sign is read with all its blanks. -/
theorem best?_looseEquality (hw : AllBlanks w) (t : Text) :
    looseEquality.best? (w ++ '=' :: t) = some (['='], t.dropWhile isBlank) := by
  have left := best?_many (t := '=' :: t)
    (fun c hc => Option.some.inj hc ▸ (by decide : isBlank '=' = false)) hw
  have right := best?_many (t := t.dropWhile isBlank) (head_of_dropWhile t)
    (w := t.takeWhile isBlank) (List.all_eq_true.mp List.all_takeWhile)
  rw [List.takeWhile_append_dropWhile] at right
  exact best?_bind left (best?_bind (best?_of_eq (literal_append ['='] t)) (best?_bind right rfl))

/-- The text with its operations between digits tightened. -/
def tightOperations (t : Text) : Text := replaceAll (fun _ => looseOperation) t

/-- The text with its equals signs tightened. -/
def tightEqualities (t : Text) : Text := replaceAll (fun _ => looseEquality) t

theorem tidy_eq (t : Text) : tidy t =
    trim ((tightEqualities (tightOperations (squeeze t))).map roundBracket) := rfl

theorem looseOperation_of_not_digit (hc : isDigit c = false) (s : Text) :
    looseOperation.best? (c :: s) = none := by
  cases h : looseOperation.best? (c :: s) with
  | none => rfl
  | some x =>
    obtain ⟨d, _, _, _, _, -, he, hd, -⟩ := mem_looseOperation.mp (mem_of_best? h)
    rw [(List.cons.inj he).1, hd] at hc
    exact Bool.noConfusion hc

/-- What is no digit is passed over. -/
theorem tightOperations_append (hv : ∀ c ∈ v, isDigit c = false) (s : Text) :
    tightOperations (v ++ s) = v ++ tightOperations s := by
  induction v with
  | nil => rfl
  | cons c v ih =>
    obtain ⟨hc, hv⟩ := List.forall_mem_cons.mp hv
    exact (replaceAll_of_no_reading (looseOperation_of_not_digit hc _)).trans
      (congrArg (c :: ·) (ih hv))

/-- What is no digit was there before. -/
theorem eq_append_of_tightOperations (hv : ∀ c ∈ v, isDigit c = false) :
    ∀ {s y : Text}, tightOperations s = v ++ y → ∃ x, s = v ++ x ∧ y = tightOperations x := by
  induction v with
  | nil => exact fun {s y} h => ⟨s, rfl, h.symm⟩
  | cons c v ih =>
    obtain ⟨hc, hv⟩ := List.forall_mem_cons.mp hv
    intro s y h
    cases s with
    | nil => exact absurd h (List.cons_ne_nil _ _).symm
    | cons a s =>
      cases hb : looseOperation.best? (a :: s) with
      | none =>
        rw [tightOperations, replaceAll_of_no_reading hb] at h
        obtain ⟨hac, h⟩ := List.cons.inj h
        obtain ⟨x, hx, hy⟩ := ih hv h
        exact ⟨x, by rw [hac, hx]; rfl, hy⟩
      | some z =>
        obtain ⟨d, op, e, w, w', hnew, he, hd, -⟩ := mem_looseOperation.mp (mem_of_best? hb)
        have hs : a :: s = (d :: (w ++ op :: (w' ++ [e]))) ++ z.2 := by simpa using he
        rw [hs] at hb h
        rw [tightOperations, replaceAll_of_reading (List.cons_ne_nil _ _) hb, hnew] at h
        rw [← (List.cons.inj h).1, hd] at hc
        exact Bool.noConfusion hc

theorem looseEquality_eq_none : looseEquality.best? t = none ↔
    ∀ w x, AllBlanks w → t ≠ w ++ '=' :: x := by
  constructor
  · rintro h w x hw rfl
    have hm : (['='], x) ∈ looseEquality (w ++ '=' :: x) :=
      mem_looseEquality.mpr ⟨w, [], rfl, rfl, hw, allBlanks_nil⟩
    exact absurd h (best?_ne_none.mpr ⟨_, _, hm⟩)
  · intro h
    cases hb : looseEquality.best? t with
    | none => rfl
    | some z =>
      obtain ⟨w, w', -, he, hw, -⟩ := mem_looseEquality.mp (mem_of_best? hb)
      exact absurd he (h w _ hw)

/-- What is no blank and no equals sign is passed over. -/
theorem tightEqualities_cons (hb : isBlank c = false) (hc : c ≠ '=') (s : Text) :
    tightEqualities (c :: s) = c :: tightEqualities s := by
  refine replaceAll_of_no_reading (looseEquality_eq_none.mpr fun w x hw he => ?_)
  cases w with
  | nil => exact hc (List.cons.inj he).1
  | cons b w =>
    have := hw b List.mem_cons_self
    rw [← (List.cons.inj he).1, hb] at this
    exact Bool.noConfusion this

theorem tightEqualities_append (hv : ∀ c ∈ v, isBlank c = false ∧ c ≠ '=') (s : Text) :
    tightEqualities (v ++ s) = v ++ tightEqualities s := by
  induction v with
  | nil => rfl
  | cons c v ih =>
    obtain ⟨⟨hb, hc⟩, hv⟩ := List.forall_mem_cons.mp hv
    exact (tightEqualities_cons hb hc _).trans (congrArg (c :: ·) (ih hv))

theorem not_isDigit_of_allBlanks (hw : AllBlanks w) : ∀ c ∈ w, isDigit c = false :=
  fun c hc => isDigit_of_isBlank (hw c hc)

theorem tight_digit (hd : isDigit d = true) (s : Text) :
    tightEqualities (d :: s) = d :: tightEqualities s := by
  refine tightEqualities_cons (plain_digit hd).2.1 ?_ s
  rintro rfl
  exact absurd hd (by decide)

theorem head?_tightOperations (s : Text) : (tightOperations s).head? = s.head? := by
  cases s with
  | nil => rfl
  | cons c s =>
    cases hb : looseOperation.best? (c :: s) with
    | none => rw [tightOperations, replaceAll_of_no_reading hb, List.head?_cons, List.head?_cons]
    | some z =>
      obtain ⟨d, op, e, w, w', hnew, he, -⟩ := mem_looseOperation.mp (mem_of_best? hb)
      have hs : c :: s = (d :: (w ++ op :: (w' ++ [e]))) ++ z.2 := by simpa using he
      rw [hs] at hb ⊢
      rw [tightOperations, replaceAll_of_reading (List.cons_ne_nil _ _) hb, hnew]
      rfl

/-- The text with its operators tightened. -/
def tighten (t : Text) : Text := tightEqualities (tightOperations t)

/-- **What the replacements do at the front of a text.** They pass over one character, or tighten an
operation or an equals sign with all the blanks behind it; and so they go on. -/
theorem tighten_induction {motive : Text → Text → Prop} (nil : motive [] [])
    (keep : ∀ {c s}, looseOperation.best? (c :: s) = none → looseEquality.best? (c :: s) = none →
      motive s (tighten s) → motive (c :: s) (c :: tighten s))
    (operation : ∀ {d op e w w' s}, isDigit d = true → op ∈ "+-*/^".toList → isDigit e = true →
      AllBlanks w → AllBlanks w' → motive s (tighten s) →
        motive (d :: (w ++ op :: (w' ++ e :: s))) (d :: op :: e :: tighten s))
    (equality : ∀ {w w' s}, AllBlanks w → AllBlanks w' →
      (∀ c, s.head? = some c → isBlank c = false) → motive s (tighten s) →
        motive (w ++ '=' :: (w' ++ s)) ('=' :: tighten s)) (s : Text) :
    motive s (tighten s) := by
  -- The induction is on the length, as what is left is no tail of the text but an end piece.
  induction hn : s.length using Nat.strong_induction_on generalizing s with
  | _ n ih =>
  subst hn
  cases s with
  | nil => exact nil
  | cons c s =>
    cases hb : looseOperation.best? (c :: s) with
    | some z =>
      obtain ⟨new, r⟩ := z
      obtain ⟨d, op, e, w, w', rfl, he, hd, hop, he', hw, hw'⟩ :=
        mem_looseOperation.mp (mem_of_best? hb)
      have hs : c :: s = (d :: (w ++ op :: (w' ++ [e]))) ++ r := by simpa using he
      have hlen : r.length < (c :: s).length := by
        rw [hs, List.length_append, List.length_cons]
        omega
      have hfirst : tightOperations (c :: s) = d :: op :: e :: tightOperations r := by
        rw [hs] at hb ⊢
        exact replaceAll_of_reading (List.cons_ne_nil _ _) hb
      have hsign : isBlank op = false ∧ op ≠ '=' :=
        forall_mem_of_all (p := fun op => isBlank op = false ∧ op ≠ '=') (by decide) op hop
      rw [tighten, hfirst, tight_digit hd, tightEqualities_cons hsign.1 hsign.2, tight_digit he', he]
      exact operation hd hop he' hw hw' (ih _ hlen r rfl)
    | none =>
      have hfirst : tightOperations (c :: s) = c :: tightOperations s := replaceAll_of_no_reading hb
      cases hq : looseEquality.best? (tightOperations (c :: s)) with
      | none =>
        have hlast : tighten (c :: s) = c :: tighten s := by
          rw [hfirst] at hq
          rw [tighten, hfirst]
          exact replaceAll_of_no_reading hq
        rw [hlast]
        refine keep hb (looseEquality_eq_none.mpr fun w x hw he => ?_) (ih _ (Nat.lt_succ_self _) s rfl)
        have hpass := tightOperations_append (v := w ++ ['='])
          (List.forall_mem_append.mpr ⟨not_isDigit_of_allBlanks hw,
            List.forall_mem_singleton.mpr (by decide)⟩) x
        rw [List.append_assoc, List.singleton_append, ← he, List.append_assoc] at hpass
        exact looseEquality_eq_none.mp hq w _ hw hpass
      | some z =>
        obtain ⟨w, y, hw, hy⟩ : ∃ w y, AllBlanks w ∧ tightOperations (c :: s) = w ++ '=' :: y := by
          obtain ⟨w, w', -, he, hw, -⟩ := mem_looseEquality.mp (mem_of_best? hq)
          exact ⟨w, _, hw, he⟩
        have hw' : AllBlanks (y.takeWhile isBlank) := List.all_eq_true.mp List.all_takeWhile
        have hnone : ∀ c ∈ w ++ '=' :: y.takeWhile isBlank, isDigit c = false :=
          List.forall_mem_append.mpr ⟨not_isDigit_of_allBlanks hw,
            List.forall_mem_cons.mpr ⟨by decide, not_isDigit_of_allBlanks hw'⟩⟩
        have hr : tightOperations (c :: s) =
            (w ++ '=' :: y.takeWhile isBlank) ++ y.dropWhile isBlank := by
          rw [hy, List.append_assoc, List.cons_append, List.takeWhile_append_dropWhile]
        obtain ⟨x, hx, hxr⟩ := eq_append_of_tightOperations hnone hr
        have hlen : x.length < (c :: s).length := by
          rw [hx, List.length_append, List.length_append, List.length_cons]
          omega
        have hhead : ∀ c, x.head? = some c → isBlank c = false := by
          intro c hc
          rw [← head?_tightOperations, ← hxr] at hc
          exact head_of_dropWhile y c hc
        have hlast : tighten (c :: s) = '=' :: tighten x := by
          have hbest := best?_looseEquality hw y
          rw [← hy, hr] at hbest
          rw [tighten, hr, tightEqualities, replaceAll_of_reading (by simp) hbest, hxr]
          rfl
        rw [hlast, hx, List.append_assoc]
        exact equality hw hw' hhead (ih _ hlen x rfl)

/-- **The replacements tighten a text.** -/
theorem tightened_tighten (s : Text) : Tightened s (tighten s) :=
  tighten_induction .nil (fun _ hq h => .keep (looseEquality_eq_none.mp hq) h) .operation
    (fun hw hw' _ h => .equality hw hw' h) s

/-! ## What does not change -/

/-- What comes at the end of a squeezed text is squeezed. -/
theorem squeeze_of_suffix (h : squeeze t = t) (hs : s <:+ t) : squeeze s = s := by
  rw [← h] at hs
  obtain ⟨r, -, rfl⟩ := suffix_squeeze t hs
  exact squeeze_squeeze r

theorem isKeywordChar_of_isDigit (hd : isDigit d = true) : isKeywordChar d = false := by
  rw [isKeywordChar, isAnyCaseLetter_of_isDigit hd, (plain_digit hd).2.1, Bool.false_or,
    Bool.or_false, beq_eq_false_iff_ne]
  rintro rfl
  exact absurd hd (by decide)

namespace Tightened

/-- **A tightened text is as plain.** -/
theorem plain_eq (h : Tightened s t) : ∀ a, plain (a ++ t) = plain (a ++ s) := by
  induction h with
  | nil => exact fun _ => rfl
  | @keep c s t _ _ ih =>
    intro a
    simpa using ih (a ++ [c])
  | @operation d op e w w' s t hd hop he hw hw' _ ih =>
    intro a
    rw [plain_operation hop hd he hw hw']
    simpa using ih (a ++ [d, op, e])
  | @equality w w' s t hw hw' _ ih =>
    intro a
    rw [plain_equality hw hw']
    simpa using ih (a ++ ['='])

/-- **No keyword comes into being when a text is tightened.** -/
theorem keyless (h : Tightened s t) : ∀ a, Keyless (a ++ s) → Keyless (a ++ t) := by
  induction h with
  | nil => exact fun _ h => h
  | @keep c s t _ _ ih =>
    intro a ha
    have := ih (a ++ [c])
    rw [List.append_assoc, List.append_assoc] at this
    exact this ha
  | @operation d op e w w' s t hd hop he hw hw' _ ih =>
    intro a ha
    -- No keyword goes over a digit.
    have hop' : Keyless [op] := forall_mem_of_all (p := fun op => Keyless [op]) (by decide) op hop
    have hleft : Keyless (a ++ [d]) :=
      ha.within (l := []) (r := w ++ op :: (w' ++ e :: s)) (by simp)
    have hright : Keyless (e :: t) :=
      ih [e] (ha.within (l := a ++ d :: (w ++ op :: w')) (r := []) (by simp))
    have hjoin : Keyless ([op] ++ e :: t) :=
      hop'.append hright (.inr ⟨[], e, t, rfl, allBlanks_nil, isKeywordChar_of_isDigit he⟩)
    have := hleft.append hjoin (.inl ⟨a, d, rfl, isKeywordChar_of_isDigit hd⟩)
    simpa using this
  | @equality w w' s t hw hw' _ ih =>
    intro a ha
    have hleft : Keyless a := ha.within (l := []) (r := w ++ '=' :: (w' ++ s)) (by simp)
    have hright : Keyless ('=' :: t) := by
      have hs : Keyless s := ha.within (l := a ++ (w ++ '=' :: w')) (r := []) (by simp)
      exact (ih [] hs).cons (by decide) (by decide)
    exact hleft.append hright (.inr ⟨[], '=', t, rfl, allBlanks_nil, by decide⟩)

/-- What comes first in a tightened text came first before, unless blanks stood in front. -/
theorem head (h : Tightened s (c :: t)) (hc : isBlank c = true) : ∃ x, s = c :: x := by
  cases h with
  | keep _ _ => exact ⟨_, rfl⟩
  | operation hd _ _ _ _ _ => exact absurd hc (by rw [(plain_digit hd).2.1]; decide)
  | equality _ _ _ => exact absurd hc (by decide)

theorem nil_iff (h : Tightened s t) : s = [] ↔ t = [] := by
  cases h <;> simp

/-- **A tightened text is squeezed if the text is.** -/
theorem squeezed (h : Tightened s t) : squeeze s = s → squeeze t = t := by
  induction h with
  | nil => exact fun h => h
  | @keep c s t _ h ih =>
    intro hs
    have ht := ih (squeeze_of_suffix hs (List.suffix_cons c s))
    by_cases hc : isBlank c = true
    · rw [squeeze_cons_of_blank hc] at hs ⊢
      obtain ⟨hcs, hs⟩ := List.cons.inj hs
      rw [← hcs]
      refine congrArg (' ' :: ·) ?_
      cases t with
      | nil => rfl
      | cons e t =>
        by_cases he : isBlank e = true
        · -- Then a blank stood behind the blank before.
          obtain ⟨x, rfl⟩ := h.head he
          rcases dropWhile_blank_cases (e :: x) with hd | ⟨a, as, hd, ha⟩
          · rw [hd] at hs
            exact absurd hs (List.cons_ne_nil _ _).symm
          · rw [hd, squeeze_cons_of_not_blank ha] at hs
            rw [(List.cons.inj hs).1] at ha
            exact absurd he ha
        · rw [List.dropWhile_cons_of_neg he, ht]
    · rw [squeeze_cons_of_not_blank hc, ht]
  | @operation d op e w w' s t hd hop he hw hw' _ ih =>
    intro hs
    have ht := ih (squeeze_of_suffix hs ⟨d :: (w ++ op :: (w' ++ [e])), by simp⟩)
    have hsign : isBlank op = false :=
      forall_mem_of_all (p := fun op => isBlank op = false) (by decide) op hop
    rw [squeeze_cons_of_not_blank (by simp [(plain_digit hd).2.1]),
      squeeze_cons_of_not_blank (by simp [hsign]),
      squeeze_cons_of_not_blank (by simp [(plain_digit he).2.1]), ht]
  | @equality w w' s t hw hw' _ ih =>
    intro hs
    have ht := ih (squeeze_of_suffix hs ⟨w ++ '=' :: w', by simp⟩)
    rw [squeeze_cons_of_not_blank (by decide), ht]

theorem dropWhile (h : Tightened s t) :
    Tightened (s.dropWhile isBlank) (t.dropWhile isBlank) := by
  induction h with
  | nil => exact .nil
  | @keep c s t hc h ih =>
    by_cases hb : isBlank c = true
    · rwa [List.dropWhile_cons_of_pos hb, List.dropWhile_cons_of_pos hb]
    · rw [List.dropWhile_cons_of_neg hb, List.dropWhile_cons_of_neg hb]
      exact .keep hc h
  | @operation d op e w w' s t hd hop he hw hw' h _ =>
    have hb : ¬isBlank d = true := by simp [(plain_digit hd).2.1]
    rw [List.dropWhile_cons_of_neg hb, List.dropWhile_cons_of_neg hb]
    exact .operation hd hop he hw hw' h
  | @equality w w' s t hw hw' h _ =>
    rw [List.dropWhile_append_of_pos hw, List.dropWhile_cons_of_neg (by decide),
      List.dropWhile_cons_of_neg (by decide)]
    exact .equality allBlanks_nil hw' h

end Tightened

theorem dropEndWhile_cons {p : Char → Bool} (c : Char) (s : Text) : dropEndWhile p (c :: s) =
    if dropEndWhile p s = [] ∧ p c = true then [] else c :: dropEndWhile p s := by
  rw [dropEndWhile]
  cases dropEndWhile p s with
  | nil => simp
  | cons d ds => simp

theorem dropEndWhile_append_cons {p : Char → Bool} (hd : p d = false) (v s : Text) :
    dropEndWhile p (v ++ d :: s) = v ++ d :: dropEndWhile p s := by
  induction v with
  | nil => rw [List.nil_append, List.nil_append, dropEndWhile_cons, if_neg (by simp [hd])]
  | cons c v ih => rw [List.cons_append, dropEndWhile_cons, ih, if_neg (by simp)]; rfl

theorem dropEndWhile_append_of_ne_nil {p : Char → Bool} (h : dropEndWhile p s ≠ []) (v : Text) :
    dropEndWhile p (v ++ s) = v ++ dropEndWhile p s := by
  induction v with
  | nil => rfl
  | cons c v ih =>
    rw [List.cons_append, dropEndWhile_cons, ih, if_neg fun hn => h (List.append_eq_nil_iff.mp hn.1).2]
    rfl

theorem dropEndWhile_append_of_nil {p : Char → Bool} (h : dropEndWhile p s = [])
    (hv : ∀ c ∈ v, p c = true) : dropEndWhile p (v ++ s) = [] := by
  induction v with
  | nil => exact h
  | cons c v ih =>
    obtain ⟨hc, hv⟩ := List.forall_mem_cons.mp hv
    rw [List.cons_append, dropEndWhile_cons, if_pos ⟨ih hv, hc⟩]

namespace Tightened

theorem dropEndWhile (h : Tightened s t) :
    Tightened (dropEndWhile isBlank s) (dropEndWhile isBlank t) := by
  induction h with
  | nil => exact .nil
  | @keep c s t hc _ ih =>
    have hkeep : ∀ w x, AllBlanks w → c :: Text.dropEndWhile isBlank s ≠ w ++ '=' :: x := by
      intro w x hw he
      obtain ⟨r, hr, -⟩ := dropEndWhile_append isBlank s
      refine hc w (x ++ r) hw ?_
      rw [hr, ← List.cons_append, he, List.append_assoc]
      rfl
    rw [dropEndWhile_cons, dropEndWhile_cons]
    by_cases hnil : Text.dropEndWhile isBlank s = [] ∧ isBlank c = true
    · rw [if_pos hnil, if_pos ⟨ih.nil_iff.mp hnil.1, hnil.2⟩]
      exact .nil
    · rw [if_neg hnil, if_neg fun h => hnil ⟨ih.nil_iff.mpr h.1, h.2⟩]
      exact .keep hkeep ih
  | @operation d op e w w' s t hd hop he hw hw' _ ih =>
    have hs := dropEndWhile_append_cons (p := isBlank) (plain_digit he).2.1
      (d :: (w ++ op :: w')) s
    have ht := dropEndWhile_append_cons (p := isBlank) (plain_digit he).2.1 [d, op] t
    simp only [List.cons_append, List.append_assoc, List.nil_append] at hs ht
    rw [hs, ht]
    exact .operation hd hop he hw hw' ih
  | @equality w w' s t hw hw' _ ih =>
    have ht := dropEndWhile_append_cons (p := isBlank) (d := '=') (by decide) [] t
    rw [List.nil_append] at ht
    rw [dropEndWhile_append_cons (by decide), ht, List.nil_append]
    by_cases hnil : Text.dropEndWhile isBlank s = []
    · rw [dropEndWhile_append_of_nil hnil hw', ih.nil_iff.mp hnil]
      exact @Tightened.equality w [] [] _ hw allBlanks_nil .nil
    · rw [dropEndWhile_append_of_ne_nil hnil]
      exact .equality hw hw' ih

/-- **A tightened text can be trimmed.** -/
theorem trim (h : Tightened s t) : Tightened (trim s) (trim t) := h.dropWhile.dropEndWhile

end Tightened

/-! ## The words in front -/

/-- The words `m` are in front of both texts. In the first one, the blanks `w` may stand between them
and an equals sign. -/
structure SameFront (s t m w x y : Text) : Prop where
  left : s = m ++ (w ++ x)
  right : t = m ++ y
  words : ∀ c ∈ m, isWording c = true
  blanks : AllBlanks w
  rest : Tightened x y
  head : x.head? = y.head?
  stop : ∀ c, x.head? = some c → isWording c = false
  last : x.head? = some '=' → NoBlankEnd m
  sign : w ≠ [] → x.head? = some '='

/-- There are no words in front. -/
theorem sameFront_nil (h : Tightened (c :: s) (c :: t)) (hc : isWording c = false) :
    SameFront (c :: s) (c :: t) [] [] (c :: s) (c :: t) where
  left := rfl
  right := rfl
  words _ hm := absurd hm List.not_mem_nil
  blanks := allBlanks_nil
  rest := h
  head := rfl
  stop d hd := by rwa [← Option.some.inj hd]
  last _ _ hd := absurd hd (Option.some_ne_none _).symm
  sign hn := absurd rfl hn

/-- **The words at the front of a text stay, but for blanks in front of an equals sign.** -/
theorem Tightened.exists_sameFront (h : Tightened s t) : ∃ m w x y, SameFront s t m w x y := by
  induction h with
  | nil =>
    exact ⟨[], [], [], [], rfl, rfl, fun _ hm => absurd hm List.not_mem_nil, allBlanks_nil, .nil, rfl,
      fun _ hc => absurd hc (Option.some_ne_none _).symm, fun h => absurd h (Option.some_ne_none _).symm,
      fun h => absurd rfl h⟩
  | @keep c s t hc h ih =>
    by_cases hl : isWording c = true
    · obtain ⟨m, w, x, y, f⟩ := ih
      refine ⟨c :: m, w, x, y, congrArg (c :: ·) f.left, congrArg (c :: ·) f.right,
        List.forall_mem_cons.mpr ⟨hl, f.words⟩, f.blanks, f.rest, f.head, f.stop, fun he d hd => ?_,
        f.sign⟩
      cases m with
      | nil =>
        -- A blank here would be one in front of the equals sign.
        obtain rfl : c = d := Option.some.inj hd
        obtain ⟨r, rfl⟩ := List.head?_eq_some_iff.mp he
        refine Bool.eq_false_iff.mpr fun hb => hc (c :: w) r ?_ (congrArg (c :: ·) f.left)
        exact List.forall_mem_cons.mpr ⟨hb, f.blanks⟩
      | cons e m => exact f.last he d (by rwa [List.getLast?_cons_cons] at hd)
    · exact ⟨[], [], _, _, sameFront_nil (.keep hc h) (Bool.eq_false_iff.mpr hl)⟩
  | @operation d op e w w' s t hd hop he hw hw' h _ =>
    refine ⟨[], [], _, _, sameFront_nil (.operation hd hop he hw hw' h) ?_⟩
    rw [isWording, isAnyCaseLetter_of_isDigit hd, (plain_digit hd).2.1, Bool.false_or]
  | @equality w w' s t hw hw' h _ =>
    have f := sameFront_nil (.equality allBlanks_nil hw' h) (by decide)
    exact ⟨[], w, '=' :: (w' ++ s), '=' :: t, rfl, rfl, f.words, hw, f.rest, f.head, f.stop, f.last,
      fun _ => rfl⟩

end Stepwise.Phrase
