import Stepwise.Proofs.Character
import Stepwise.Proofs.Outcome
import Stepwise.Tree.Token

/-!
# Cutting a text into tokens

`Cuts t tokens` says that the pieces of `t`, each the one that `lexeme?` finds, hold the given
tokens. It is what `Token.scan` computes, without its positions and its fuel (`scan_eq_ok`).

A number or a name is found again in front of whatever does not go on with it: `numberPart_append`
and `namePart_append`. So a token that was once found (`WellSpelled`) can be put elsewhere.
-/

namespace Stepwise.Token

open Text

/-! ## Pieces -/

/-- The pieces of a text hold the tokens. -/
inductive Cuts : Text → List Token → Prop
  | nil : Cuts [] []
  | cons {t : Text} {l : Lexeme} {tokens : List Token} (h : lexeme? t = some l)
      (hr : Cuts (t.drop l.written.length) tokens) : Cuts t (l.token.toList ++ tokens)

theorem length_drop_lt {t : Text} {l : Lexeme} (h : lexeme? t = some l) :
    (t.drop l.written.length).length < t.length := by
  have hw := List.length_pos_iff.mpr (lexeme?_ne_nil h)
  have ht := congrArg List.length (lexeme?_append h)
  rw [List.length_append] at ht
  omega

theorem cuts_of_scanFrom : ∀ {fuel position : Nat} {t : Text} {tokens : List Token},
    scanFrom fuel position t = .ok tokens → Cuts t tokens
  | _, _, [], _, h => by
    unfold scanFrom at h
    obtain rfl := Except.ok.inj h
    exact .nil
  | 0, _, _ :: _, _, h => absurd h (by simp [scanFrom])
  | fuel + 1, position, c :: cs, tokens, h => by
    unfold scanFrom at h
    split at h
    · exact absurd h (by simp)
    next l hl =>
      obtain ⟨rest, hr, h⟩ := bind_eq_ok.mp h
      obtain rfl := Except.ok.inj h
      exact .cons hl (cuts_of_scanFrom hr)

theorem scanFrom_of_cuts {t : Text} {tokens : List Token} (h : Cuts t tokens) :
    ∀ fuel position, t.length ≤ fuel → scanFrom fuel position t = .ok tokens := by
  induction h with
  | nil =>
    intro fuel position _
    unfold scanFrom
    rfl
  | @cons t l tokens hl _ ih =>
    intro fuel position hf
    have hlt := length_drop_lt hl
    cases t with
    | nil => exact absurd hlt (by simp)
    | cons c cs =>
      obtain ⟨fuel, rfl⟩ := Nat.exists_eq_succ_of_ne_zero (by simp at hf; omega : fuel ≠ 0)
      unfold scanFrom
      rw [hl]
      dsimp only
      rw [ih fuel _ (by omega), ok_bind]
      rfl

/-- **The scanner cuts the text into its pieces.** -/
theorem scan_eq_ok {t : Text} {tokens : List Token} : scan t = .ok tokens ↔ Cuts t tokens :=
  ⟨cuts_of_scanFrom, fun h => scanFrom_of_cuts h _ 0 (Nat.le_refl _)⟩

theorem Cuts.append {w r : Text} {tok : Option Token} {tokens : List Token}
    (h : lexeme? (w ++ r) = some ⟨w, tok⟩) (hr : Cuts r tokens) :
    Cuts (w ++ r) (tok.toList ++ tokens) :=
  .cons h (by rwa [List.drop_left])

/-! ## Runs of characters -/

theorem takeWhile_append_stop {p : Char → Bool} {w r : Text} (hw : ∀ c ∈ w, p c = true)
    (hr : ∀ c, r.head? = some c → p c = false) : (w ++ r).takeWhile p = w := by
  rw [List.takeWhile_append_of_pos hw]
  cases r with
  | nil => exact List.append_nil w
  | cons c cs => rw [List.takeWhile_cons, hr c rfl, if_neg Bool.false_ne_true, List.append_nil]

theorem dropWhile_append_stop {p : Char → Bool} {w r : Text} (hw : ∀ c ∈ w, p c = true)
    (hr : ∀ c, r.head? = some c → p c = false) : (w ++ r).dropWhile p = r := by
  rw [List.dropWhile_append_of_pos hw]
  cases r with
  | nil => rfl
  | cons c cs => rw [List.dropWhile_cons, hr c rfl, if_neg Bool.false_ne_true]

theorem of_mem_takeWhile {p : Char → Bool} {t : Text} {c : Char} (h : c ∈ t.takeWhile p) :
    p c = true := List.all_eq_true.mp List.all_takeWhile c h

/-! ## Numbers -/

/-- Does a number end before this text? -/
def endsNumber : Text → Bool
  | [] => true
  | c :: _ => !isDigit c && c != '.' && c != 'e' && c != 'E'

theorem endsNumber_head {r : Text} (h : endsNumber r = true) {c : Char} (hc : r.head? = some c) :
    isDigit c = false ∧ c ≠ '.' ∧ c ≠ 'e' ∧ c ≠ 'E' := by
  obtain ⟨cs, rfl⟩ := List.head?_eq_some_iff.mp hc
  simpa [endsNumber, and_assoc] using h

/-- Digits, from which the parts of a number are made. -/
def AllDigits (w : Text) : Prop := ∀ c ∈ w, isDigit c = true

theorem allDigits_takeWhile (t : Text) : AllDigits (t.takeWhile isDigit) :=
  fun _ => of_mem_takeWhile

theorem mantissa_digits {w x : Text} (hw : AllDigits w)
    (hx : ∀ c, x.head? = some c → isDigit c = false ∧ c ≠ '.') : mantissa (w ++ x) = w := by
  unfold mantissa
  rw [takeWhile_append_stop hw fun c hc => (hx c hc).1,
    dropWhile_append_stop hw fun c hc => (hx c hc).1]
  dsimp only
  split
  · exact absurd rfl (hx '.' rfl).2
  · rfl

theorem mantissa_point {w f x : Text} (hw : AllDigits w) (hf : AllDigits f)
    (hne : (w.isEmpty && f.isEmpty) = false) (hx : ∀ c, x.head? = some c → isDigit c = false) :
    mantissa (w ++ '.' :: (f ++ x)) = w ++ '.' :: f := by
  have hp : ∀ c, ('.' :: (f ++ x)).head? = some c → isDigit c = false := by
    intro c hc
    obtain rfl := Option.some.inj hc
    decide
  unfold mantissa
  rw [takeWhile_append_stop hw hp, dropWhile_append_stop hw hp]
  change (if (w.isEmpty && ((f ++ x).takeWhile isDigit).isEmpty) = true then []
    else w ++ '.' :: (f ++ x).takeWhile isDigit) = w ++ '.' :: f
  rw [takeWhile_append_stop hf hx, hne, if_neg Bool.false_ne_true]

/-- The two shapes of a mantissa. The first one may be empty. -/
theorem mantissa_cases (t : Text) : AllDigits (mantissa t) ∨
    ∃ w f, AllDigits w ∧ AllDigits f ∧ (w.isEmpty && f.isEmpty) = false ∧
      mantissa t = w ++ '.' :: f := by
  unfold mantissa
  dsimp only
  split
  next cs _ =>
    split
    · exact .inl fun _ h => absurd h List.not_mem_nil
    next hne =>
      refine .inr ⟨_, _, allDigits_takeWhile t, allDigits_takeWhile cs, ?_, rfl⟩
      exact Bool.eq_false_iff.mpr hne
  · exact .inl (allDigits_takeWhile t)

/-- A mantissa is found again before what is no digit and no point. -/
theorem mantissa_append (t : Text) {x : Text}
    (hx : ∀ c, x.head? = some c → isDigit c = false ∧ c ≠ '.') :
    mantissa (mantissa t ++ x) = mantissa t := by
  rcases mantissa_cases t with h | ⟨w, f, hw, hf, hne, h⟩
  · exact mantissa_digits h hx
  · rw [h, List.append_assoc, List.cons_append]
    exact mantissa_point hw hf hne fun c hc => (hx c hc).1

theorem exponentPart_of_ends {r : Text} (h : endsNumber r = true) : exponentPart r = [] := by
  cases r with
  | nil => rfl
  | cons c cs =>
    have := endsNumber_head h rfl
    unfold exponentPart
    dsimp only
    rw [if_neg (by simp [this])]

/-- The shapes of an exponent. -/
theorem exponentPart_cases (t : Text) : exponentPart t = [] ∨
    ∃ e sgn ds, (e = 'e' ∨ e = 'E') ∧ (sgn = [] ∨ sgn = ['+'] ∨ sgn = ['-']) ∧ ds ≠ [] ∧
      AllDigits ds ∧ exponentPart t = e :: sgn ++ ds := by
  unfold exponentPart
  split
  · exact .inl rfl
  next e cs =>
    split
    next he =>
      split
      · exact .inl rfl
      next s ds =>
        dsimp only
        split
        next hs =>
          split
          · exact .inl rfl
          next hne =>
            refine .inr ⟨e, [s], _, he, ?_, by simpa using hne, allDigits_takeWhile ds, rfl⟩
            rcases hs with rfl | rfl
            · exact .inr (.inl rfl)
            · exact .inr (.inr rfl)
        · split
          · exact .inl rfl
          next hne =>
            exact .inr ⟨e, [], _, he, .inl rfl, by simpa using hne, allDigits_takeWhile _, rfl⟩
    · exact .inl rfl

theorem exponentPart_signed {e s : Char} {ds x : Text} (he : e = 'e' ∨ e = 'E')
    (hs : s = '+' ∨ s = '-') (hne : ds ≠ []) (hd : AllDigits ds)
    (hx : ∀ c, x.head? = some c → isDigit c = false) :
    exponentPart (e :: s :: (ds ++ x)) = e :: s :: ds := by
  unfold exponentPart
  dsimp only
  rw [if_pos he, if_pos hs, takeWhile_append_stop hd hx, if_neg (by simpa using hne)]

theorem exponentPart_bare {e : Char} {ds x : Text} (he : e = 'e' ∨ e = 'E') (hne : ds ≠ [])
    (hd : AllDigits ds) (hx : ∀ c, x.head? = some c → isDigit c = false) :
    exponentPart (e :: (ds ++ x)) = e :: ds := by
  cases ds with
  | nil => exact absurd rfl hne
  | cons d ds =>
    have hs : ¬(d = '+' ∨ d = '-') := by
      rintro (rfl | rfl)
      · exact absurd (hd '+' List.mem_cons_self) (by decide)
      · exact absurd (hd '-' List.mem_cons_self) (by decide)
    have ht := takeWhile_append_stop hd hx
    rw [List.cons_append] at ht ⊢
    unfold exponentPart
    dsimp only
    rw [if_pos he, if_neg hs, ht, if_neg (by simp)]

/-- An exponent is found again before what does not go on with a number. -/
theorem exponentPart_append (t : Text) {r : Text} (h : endsNumber r = true) :
    exponentPart (exponentPart t ++ r) = exponentPart t := by
  have hr : ∀ c, r.head? = some c → isDigit c = false := fun c hc => (endsNumber_head h hc).1
  rcases exponentPart_cases t with ht | ⟨e, sgn, ds, he, hs, hne, hd, ht⟩
  · rw [ht, List.nil_append, exponentPart_of_ends h]
  · rw [ht]
    rcases hs with rfl | rfl | rfl
    · exact exponentPart_bare he hne hd hr
    · exact exponentPart_signed he (.inl rfl) hne hd hr
    · exact exponentPart_signed he (.inr rfl) hne hd hr

/-- What follows a mantissa, be it an exponent or the end of the number. -/
theorem head_exponentPart_append (t : Text) {r : Text} (h : endsNumber r = true) {c : Char}
    (hc : (exponentPart t ++ r).head? = some c) : isDigit c = false ∧ c ≠ '.' := by
  rcases exponentPart_cases t with ht | ⟨e, sgn, ds, he, _, _, _, ht⟩
  · rw [ht] at hc
    have := endsNumber_head h hc
    exact ⟨this.1, this.2.1⟩
  · rw [ht] at hc
    obtain rfl := Option.some.inj hc
    rcases he with rfl | rfl <;> decide

/-- **A number is found again** before what does not go on with it. -/
theorem numberPart_append (t : Text) {r : Text} (h : endsNumber r = true) :
    numberPart (numberPart t ++ r) = numberPart t := by
  have hr : ∀ c, r.head? = some c → isDigit c = false ∧ c ≠ '.' := fun c hc =>
    ⟨(endsNumber_head h hc).1, (endsNumber_head h hc).2.1⟩
  by_cases hm : mantissa t = []
  · have hn : numberPart t = [] := by simp [numberPart, hm]
    have hr' : mantissa r = [] :=
      mantissa_digits (w := []) (fun _ h => absurd h List.not_mem_nil) hr
    rw [hn, List.nil_append]
    simp [numberPart, hr']
  · have hn : ∀ x, mantissa x = mantissa t →
        numberPart x = mantissa t ++ exponentPart (x.drop (mantissa t).length) := by
      intro x hx
      unfold numberPart
      dsimp only
      rw [hx, if_neg (by simpa using hm)]
    have ha := mantissa_append t fun c => head_exponentPart_append (t.drop (mantissa t).length) h
    rw [hn t rfl, List.append_assoc, hn _ ha, List.drop_left, exponentPart_append _ h]

theorem numberPart_of_head {c : Char} {cs : Text} (hd : isDigit c = false) (hp : c ≠ '.') :
    numberPart (c :: cs) = [] := by
  have hm : mantissa (c :: cs) = [] := mantissa_digits (w := [])
    (fun _ h => absurd h List.not_mem_nil) fun d hc => by
      obtain rfl := Option.some.inj hc
      exact ⟨hd, hp⟩
  unfold numberPart
  dsimp only
  rw [hm]
  rfl

/-! ## Names -/

/-- Does a name end before this text? -/
def endsName : Text → Bool
  | [] => true
  | c :: _ => !c.isAlphanum

theorem endsName_head {r : Text} (h : endsName r = true) {c : Char} (hc : r.head? = some c) :
    c.isAlphanum = false := by
  obtain ⟨cs, rfl⟩ := List.head?_eq_some_iff.mp hc
  simpa [endsName] using h

/-- **A name is found again** before what does not go on with it. -/
theorem namePart_append (t : Text) {r : Text} (h : endsName r = true) :
    namePart (namePart t ++ r) = namePart t := by
  have hr : ∀ c, r.head? = some c → c.isAlphanum = false := fun c hc => endsName_head h hc
  have none : namePart ([] ++ r) = [] := by
    cases r with
    | nil => rfl
    | cons c cs =>
      have := hr c rfl
      rw [Char.isAlphanum, Bool.or_eq_false_iff] at this
      simp [namePart, this.1]
  cases t with
  | nil => exact none
  | cons c cs =>
    by_cases hc : c.isAlpha = true
    · have hn : ∀ x, namePart (c :: x) = c :: x.takeWhile Char.isAlphanum := fun x => by
        rw [namePart, if_pos hc]
      rw [hn, List.cons_append, hn, takeWhile_append_stop (fun _ => of_mem_takeWhile) hr]
    · have hn : namePart (c :: cs) = [] := by rw [namePart, if_neg hc]
      rw [hn]
      exact none

theorem isAlpha_head_of_namePart {c : Char} {cs : Text} (h : namePart (c :: cs) ≠ []) :
    c.isAlpha = true := by
  by_cases hc : c.isAlpha = true
  · exact hc
  · exact absurd (by rw [namePart, if_neg hc]) h

/-! ## Pieces that are known -/

/-- The token is spelled as the scanner finds it. -/
def WellSpelled : Token → Prop
  | number s => s ≠ [] ∧ numberPart s = s
  | name s => s ≠ [] ∧ namePart s = s
  | sign c => c ∈ signs

theorem lexeme?_number {s r : Text} (hs : WellSpelled (.number s)) (hr : endsNumber r = true) :
    lexeme? (s ++ r) = some ⟨s, some (.number s)⟩ := by
  have hn : numberPart (s ++ r) = s := by
    have := numberPart_append s hr
    rwa [hs.2] at this
  unfold lexeme?
  dsimp only
  rw [hn, if_pos (by simpa using hs.1)]

theorem lexeme?_name {s r : Text} (hs : WellSpelled (.name s)) (hr : endsName r = true) :
    lexeme? (s ++ r) = some ⟨s, some (.name s)⟩ := by
  have hw : namePart (s ++ r) = s := by
    have := namePart_append s hr
    rwa [hs.2] at this
  have hn : numberPart (s ++ r) = [] := by
    cases s with
    | nil => exact absurd rfl hs.1
    | cons c cs =>
      have hc := isAlpha_head_of_namePart (by rw [hs.2]; exact hs.1)
      refine numberPart_of_head (isDigit_of_isAlpha hc) ?_
      rintro rfl
      exact absurd hc (by decide)
  unfold lexeme?
  dsimp only
  rw [hn, hw, if_neg (by simp), if_pos (by simpa using hs.1)]

theorem lexeme?_sign {c : Char} {r : Text} (hc : c ∈ signs)
    (hr : c = '*' → r.head? ≠ some '*') : lexeme? (c :: r) = some ⟨[c], some (.sign c)⟩ := by
  have hd : ∀ c ∈ signs, isDigit c = false ∧ c ≠ '.' ∧ c.isAlpha = false :=
    forall_mem_of_all (by decide)
  obtain ⟨hd, hp, ha⟩ := hd c hc
  have hs : signPart (c :: r) = some ([c], c) := by
    unfold signPart
    split
    next heq =>
      obtain ⟨rfl, rfl⟩ := List.cons.inj heq
      exact absurd rfl (hr rfl)
    next heq =>
      obtain ⟨rfl, rfl⟩ := List.cons.inj heq
      rw [if_pos (by simpa using hc)]
    next heq => exact absurd heq (List.cons_ne_nil _ _)
  have hw : namePart (c :: r) = [] := by simp [namePart, ha]
  unfold lexeme?
  dsimp only
  rw [numberPart_of_head hd hp, hw, hs, if_neg (by simp), if_neg (by simp)]

/-- A token alone is cut into itself. -/
theorem cuts_spelling {tok : Token} (h : WellSpelled tok) : Cuts tok.spelling [tok] := by
  have hone : lexeme? (tok.spelling ++ []) = some ⟨tok.spelling, some tok⟩ := by
    cases tok with
    | number s => exact lexeme?_number h rfl
    | name s => exact lexeme?_name h rfl
    | sign c => exact lexeme?_sign h fun _ => by simp
  have hcuts := Cuts.append hone .nil
  rwa [List.append_nil] at hcuts

theorem lexeme?_blank {c : Char} {r : Text} (hc : isBlank c = true) :
    lexeme? (c :: r) = some ⟨c :: r.takeWhile isBlank, none⟩ := by
  have hp : c ≠ '.' := by
    rintro rfl
    exact absurd hc (by decide)
  have hw : namePart (c :: r) = [] := by simp [namePart, isAlpha_of_isBlank hc]
  have hs : signPart (c :: r) = none := by
    unfold signPart
    split
    next heq =>
      obtain ⟨rfl, rfl⟩ := List.cons.inj heq
      exact absurd hc (by decide)
    next heq =>
      obtain ⟨rfl, rfl⟩ := List.cons.inj heq
      rw [if_neg]
      exact isBlank_induction (p := fun c => ¬signs.contains c = true) (by decide) hc
    next heq => exact absurd heq (List.cons_ne_nil _ _)
  unfold lexeme?
  dsimp only
  rw [numberPart_of_head (isDigit_of_isBlank hc) hp, hw, hs, if_neg (by simp), if_neg (by simp),
    List.takeWhile_cons, hc]
  rfl

/-- A blank in front changes no token. -/
theorem Cuts.blank {c : Char} {r : Text} {tokens : List Token} (hc : isBlank c = true)
    (h : Cuts r tokens) : Cuts (c :: r) tokens := by
  have hl := lexeme?_blank (r := r) hc
  cases r with
  | nil => exact .cons hl (by simpa using h)
  | cons d ds =>
    by_cases hd : isBlank d = true
    · rw [List.takeWhile_cons, if_pos hd] at hl
      cases h with
      | cons h hr =>
        rw [lexeme?_blank hd] at h
        cases h
        have hr : Cuts ((c :: d :: ds).drop (c :: d :: ds.takeWhile isBlank).length) _ := hr
        exact Cuts.cons (l := ⟨c :: d :: ds.takeWhile isBlank, none⟩) hl hr
    · rw [List.takeWhile_cons, if_neg hd] at hl
      exact .cons hl h

theorem wellSpelled_of_lexeme? {t : Text} {l : Lexeme} {tok : Token} (h : lexeme? t = some l)
    (ht : tok ∈ l.token.toList) : WellSpelled tok := by
  unfold lexeme? at h
  dsimp only at h
  split at h
  next hn =>
    obtain rfl := Option.some.inj h
    obtain rfl := List.mem_singleton.mp ht
    refine ⟨by simpa using hn, ?_⟩
    have := numberPart_append t (r := []) rfl
    rwa [List.append_nil] at this
  · split at h
    next hw =>
      obtain rfl := Option.some.inj h
      obtain rfl := List.mem_singleton.mp ht
      refine ⟨by simpa using hw, ?_⟩
      have := namePart_append t (r := []) rfl
      rwa [List.append_nil] at this
    · split at h
      next w c hs =>
        obtain rfl := Option.some.inj h
        obtain rfl := List.mem_singleton.mp ht
        unfold signPart at hs
        split at hs
        · obtain ⟨-, rfl⟩ := Prod.mk.inj (Option.some.inj hs)
          exact (by decide : '^' ∈ signs)
        · split at hs
          next hc =>
            obtain ⟨-, rfl⟩ := Prod.mk.inj (Option.some.inj hs)
            exact List.contains_iff_mem.mp hc
          · exact absurd hs (by simp)
        · exact absurd hs (by simp)
      · split at h
        · exact absurd h (by simp)
        · obtain rfl := Option.some.inj h
          exact absurd ht List.not_mem_nil

/-- **Every token of a text is well spelled.** -/
theorem Cuts.wellSpelled {t : Text} {tokens : List Token} (h : Cuts t tokens) :
    ∀ tok ∈ tokens, WellSpelled tok := by
  induction h with
  | nil => exact fun _ h => absurd h List.not_mem_nil
  | cons h _ ih =>
    intro tok ht
    rcases List.mem_append.mp ht with ht | ht
    · exact wellSpelled_of_lexeme? h ht
    · exact ih tok ht

end Stepwise.Token
