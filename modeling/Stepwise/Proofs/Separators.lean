import Mathlib.Data.List.DropRight
import Stepwise.Proofs.Squeeze
import Stepwise.Proofs.Tally

/-!
# Separators and runs of blanks

A character that a pattern never reads separates what comes before it from what comes after it: the
pattern is replaced on both sides as if the other one was not there. And a pattern that takes blanks as
they come (`Lax`) does not care how many there are, which is seen part by part (`Squeezes`).

Results: `replaceFrom_separator`, `Lax.squeeze_replaceAll`, and `filter_replaceAll`, the characters that
a pattern neither takes nor gives stay where they are.
-/

namespace Stepwise.Pattern

open Text Phrase

variable {α β : Type} {b c d : Char} {tail t u r : Text} {p : Option Char → Pattern Text}

/-! ## A character that is not read -/

theorem steady_before_cons {ok : Char → Bool} (h : ok b = false) :
    Steady (b :: tail) (before ok) := by
  refine ⟨leavesEnd_before ok, fun t => ?_⟩
  cases t with
  | nil => simp [before, h]
  | cons c cs =>
    by_cases hc : ok c = true
    · rw [List.cons_append]
      simpa [before, hc, withTail] using leaves_append () (c :: cs)
    · simp [before, hc]

theorem steady_notBefore_cons {bad : Char → Bool} (h : bad b = false) :
    Steady (b :: tail) (notBefore bad) := by
  refine ⟨leavesEnd_notBefore bad, fun t => ?_⟩
  cases t with
  | nil => simp [notBefore, h, leaves, withTail]
  | cons c cs =>
    by_cases hc : bad c = true
    · simp [notBefore, hc]
    · rw [List.cons_append]
      simpa [notBefore, hc, withTail] using leaves_append () (c :: cs)

/-- Something is read, and no separator. -/
def Skirts (b : Char) (q : Pattern α) : Prop := Reads q fun u _ => u ≠ [] ∧ b ∉ u

theorem Skirts.eq_nil {q : Pattern α} (hq : Skirts b q) (t : Text) : q (b :: t) = [] := by
  refine List.eq_nil_iff_forall_not_mem.mpr ?_
  rintro ⟨a, r⟩ h
  obtain ⟨u, he, hn, hb⟩ := hq _ a r h
  obtain ⟨c, u, rfl⟩ := List.exists_cons_of_ne_nil hn
  exact hb (by rw [(List.cons.inj he).1]; exact List.mem_cons_self)

/-- A pattern that does not read the separator leaves it alone, with all that follows. -/
theorem Steady.unmoved_of_skirts {q : Pattern α} (hq : Steady (b :: tail) q) (hb : Skirts b q) :
    Unmoved (b :: tail) q := by
  intro t
  rw [← hq.filter_eq t, List.filter_eq_self.mpr]
  rintro ⟨a, r⟩ hr
  obtain ⟨u, he, -, hu⟩ := hb _ a r hr
  refine decide_eq_true ?_
  rcases List.append_eq_append_iff.mp he with ⟨x, rfl, hx⟩ | ⟨x, rfl, rfl⟩
  · cases x with
    | nil => exact Nat.le_of_eq (congrArg List.length hx)
    | cons d ds => exact absurd (List.cons.inj hx).1 fun h => hu (by simp [h])
  · rw [List.length_append]
    exact Nat.le_add_left _ _

/-- **A separator is passed over, and both sides are rewritten on their own.** -/
theorem replaceFrom_separator (hs : ∀ last, Steady (b :: tail) (p last))
    (hb : ∀ last, Skirts b (p last)) :
    ∀ (t : Text) (last : Option Char) (skip : Nat), skip ≤ t.length →
      replaceFrom p last skip (t ++ b :: tail) =
        replaceFrom p last skip t ++ b :: replaceFrom p (some b) 0 tail
  | [], last, skip, h => by
    obtain rfl := Nat.le_zero.mp h
    have hbest : (p last).best? (b :: tail) = none := by
      rw [best?, (hb last).eq_nil]
      rfl
    change replaceFrom p last 0 (b :: tail) = b :: replaceFrom p (some b) 0 tail
    rw [replaceFrom, hbest]
  | c :: cs, last, skip + 1, h =>
    replaceFrom_separator hs hb cs _ skip (Nat.le_of_succ_le_succ h)
  | c :: cs, last, 0, _ => by
    have hbest := ((hs last).unmoved_of_skirts (hb last)).best?_append (c :: cs)
    rw [List.cons_append] at hbest
    rw [List.cons_append, replaceFrom, replaceFrom, hbest]
    cases (p last).best? (c :: cs) with
    | none => exact congrArg (c :: ·) (replaceFrom_separator hs hb cs _ 0 (Nat.zero_le _))
    | some x =>
      have hl : (cs ++ b :: tail).length - (x.2 ++ b :: tail).length = cs.length - x.2.length := by
        rw [List.length_append, List.length_append]
        omega
      have ih := replaceFrom_separator hs hb cs (some c) _ (Nat.sub_le cs.length x.2.length)
      simp only [Option.map_some, withTail, hl, ih, List.append_assoc]

/-! ## What stays -/

/-- The characters of a kind that a pattern gives as it has read them stay as they are. -/
theorem filter_replaceFrom {q : Char → Bool}
    (hp : ∀ last, Reads (p last) fun u new => u ≠ [] ∧ new.filter q = u.filter q) :
    ∀ (t : Text) (last : Option Char) (skip : Nat),
      (replaceFrom p last skip t).filter q = (t.drop skip).filter q
  | [], _, skip => by cases skip <;> rfl
  | c :: cs, _, skip + 1 => by
    rw [replaceFrom, List.drop_succ_cons]
    exact filter_replaceFrom hp cs _ skip
  | c :: cs, last, 0 => by
    rw [List.drop_zero, replaceFrom]
    cases h : (p last).best? (c :: cs) with
    | none =>
      have ih := filter_replaceFrom hp cs (some c) 0
      rw [List.drop_zero] at ih
      simp only [List.filter_cons, ih]
    | some x =>
      obtain ⟨u, he, hu, hf⟩ := hp last _ _ _ (mem_of_best? h)
      obtain ⟨d, u, rfl⟩ := List.exists_cons_of_ne_nil hu
      obtain ⟨rfl, hcs⟩ := List.cons.inj he
      have hd : cs.drop (cs.length - x.2.length) = x.2 := by
        rw [hcs, List.append_eq, List.length_append, Nat.add_sub_cancel, List.drop_left]
      have ih := filter_replaceFrom hp cs (some c) (cs.length - x.2.length)
      rw [hd] at ih
      dsimp only
      rw [List.filter_append, ih, hf, ← List.filter_append, he]

theorem filter_replaceAll {q : Char → Bool}
    (hp : ∀ last, Reads (p last) fun u new => u ≠ [] ∧ new.filter q = u.filter q) (t : Text) :
    (replaceAll p t).filter q = t.filter q := filter_replaceFrom hp t none 0

/-- A text with more than blanks still has more when something else is put for what is read. -/
theorem allBlank_replaceFrom
    (hp : ∀ last t new r, (p last).best? t = some (new, r) → allBlank new = false) :
    ∀ {t : Text} {last : Option Char} {skip : Nat}, allBlank (t.drop skip) = false →
      allBlank (replaceFrom p last skip t) = false
  | [], _, skip, h => by cases skip <;> exact h
  | c :: cs, _, skip + 1, h => by
    rw [replaceFrom]
    exact allBlank_replaceFrom hp h
  | c :: cs, last, 0, h => by
    rw [replaceFrom]
    cases hb : (p last).best? (c :: cs) with
    | none =>
      rw [List.drop_zero, allBlank, List.all_cons, Bool.and_eq_false_iff] at h
      dsimp only
      rw [allBlank, List.all_cons, Bool.and_eq_false_iff]
      exact h.imp_right fun hcs => allBlank_replaceFrom hp hcs
    | some x =>
      dsimp only
      rw [allBlank, List.all_append, Bool.and_eq_false_iff]
      exact .inl (hp last _ _ _ hb)

/-! ## Blanks -/

/-- Blanks in front of what starts with no blank are read as a whole. -/
theorem blanks_bind {k : Pattern β} (hk : ∀ c cs, isBlank c = true → k (c :: cs) = []) :
    ∀ t, (blanks >>= fun _ => k) t = k (t.dropWhile isBlank)
  | [] => List.append_nil _
  | c :: cs => by
    by_cases hc : isBlank c = true
    · have ih := blanks_bind hk cs
      change (many isBlank cs).flatMap (fun x => k x.2) = _ at ih
      rw [List.dropWhile_cons_of_pos hc, ← ih]
      change (many isBlank (c :: cs)).flatMap (fun x => k x.2) = _
      rw [many_cons hc, List.flatMap_append, List.flatMap_map, List.flatMap_singleton, hk c cs hc,
        List.append_nil]
    · rw [List.dropWhile_cons_of_neg hc]
      change (many isBlank (c :: cs)).flatMap (fun x => k x.2) = _
      rw [many_stop hc, List.flatMap_singleton]

/-- Nothing but blanks is dropped, or what is left starts with none. -/
theorem dropWhile_blank_cases (t : Text) :
    t.dropWhile isBlank = [] ∨ ∃ c cs, t.dropWhile isBlank = c :: cs ∧ ¬isBlank c = true := by
  cases hd : t.dropWhile isBlank with
  | nil => exact .inl rfl
  | cons c cs =>
    have := List.head?_dropWhile_not isBlank t
    rw [hd] at this
    exact .inr ⟨c, cs, rfl, by simpa using this⟩

theorem dropWhile_squeeze (t : Text) :
    (squeeze t).dropWhile isBlank = squeeze (t.dropWhile isBlank) := by
  cases t with
  | nil => rfl
  | cons e es =>
    by_cases he : isBlank e = true
    · rw [squeeze_cons_of_blank he, List.dropWhile_cons_of_pos he,
        List.dropWhile_cons_of_pos (by decide)]
      rcases dropWhile_blank_cases es with hd | ⟨c, cs, hd, hc⟩
      · rw [hd]
        rfl
      · rw [hd, squeeze_cons_of_not_blank hc, List.dropWhile_cons_of_neg hc]
    · rw [List.dropWhile_cons_of_neg he, squeeze_cons_of_not_blank he,
        List.dropWhile_cons_of_neg he]

theorem exists_squeeze_cons (c : Char) (cs : Text) : ∃ d ds, squeeze (c :: cs) = d :: ds := by
  by_cases hc : isBlank c = true
  · exact ⟨_, _, squeeze_cons_of_blank hc cs⟩
  · exact ⟨_, _, squeeze_cons_of_not_blank hc cs⟩

theorem replaceFrom_skip : ∀ (u : Text) (last : Option Char),
    replaceFrom p last u.length (u ++ r) = replaceFrom p (u.getLast?.or last) 0 r
  | [], _ => rfl
  | c :: cs, last => by
    rw [List.cons_append, List.length_cons, replaceFrom, replaceFrom_skip cs (some c),
      List.getLast?_cons]
    cases cs.getLast? <;> rfl

theorem replaceFrom_congr {last last' : Option Char} (h : p last = p last') (t : Text) :
    replaceFrom p last 0 t = replaceFrom p last' 0 t := by
  cases t with
  | nil => rw [replaceFrom, replaceFrom]
  | cons c cs => rw [replaceFrom, replaceFrom, h]

/-- Of a squeezed text, the pattern reads what it reads of the text. -/
def Squeezes (q : Pattern α) : Prop :=
  ∀ t, q (squeeze t) = (q t).map fun x => (x.1, squeeze x.2)

theorem Squeezes.best?_eq {q : Pattern α} (hq : Squeezes q) (t : Text) :
    q.best? (squeeze t) = (q.best? t).map fun x => (x.1, squeeze x.2) := by
  rw [best?, best?, hq, List.head?_map]

theorem squeezes_pure (a : α) : Squeezes (pure a : Pattern α) := fun _ => rfl

theorem squeezes_guard (h : Bool) : Squeezes (Pattern.guard h) := fun _ => by cases h <;> rfl

theorem Squeezes.bind {q : Pattern α} {k : α → Pattern β} (hq : Squeezes q)
    (hk : ∀ a, Squeezes (k a)) : Squeezes (q >>= k) := by
  intro t
  change (q (squeeze t)).flatMap (fun x => k x.1 x.2) = ((q t).flatMap fun x => k x.1 x.2).map _
  rw [hq t, List.flatMap_map, List.map_flatMap]
  exact List.flatMap_congr fun x _ => hk x.1 x.2

theorem Squeezes.blanks_bind {k : Pattern β} (hk : Squeezes k)
    (hb : ∀ c cs, isBlank c = true → k (c :: cs) = []) : Squeezes (blanks >>= fun _ => k) := by
  intro t
  rw [Pattern.blanks_bind hb, Pattern.blanks_bind hb, dropWhile_squeeze, hk]

theorem one_of_isBlank {ok : Char → Bool} (h : ∀ c, isBlank c = true → ok c = false) :
    ∀ c cs, isBlank c = true → one ok (c :: cs) = [] :=
  fun c _ hc => if_neg (by rw [h c hc]; decide)

theorem before_of_isBlank {ok : Char → Bool} (h : ∀ c, isBlank c = true → ok c = false) :
    ∀ c cs, isBlank c = true → before ok (c :: cs) = [] :=
  fun c _ hc => if_neg (by rw [h c hc]; decide)

theorem squeezes_one {ok : Char → Bool} (h : ∀ c, isBlank c = true → ok c = false) :
    Squeezes (one ok)
  | [] => rfl
  | d :: ds => by
    by_cases hd : isBlank d = true
    · rw [squeeze_cons_of_blank hd, one_of_isBlank h _ _ hd, one_of_isBlank h _ _ (by decide)]
      rfl
    · rw [squeeze_cons_of_not_blank hd, one, one]
      split <;> rfl

theorem squeezes_before {ok : Char → Bool} (h : ∀ c, isBlank c = true → ok c = false) :
    Squeezes (before ok)
  | [] => rfl
  | d :: ds => by
    by_cases hd : isBlank d = true
    · rw [squeeze_cons_of_blank hd, before_of_isBlank h _ _ hd, before_of_isBlank h _ _ (by decide)]
      rfl
    · rw [squeeze_cons_of_not_blank hd, before, before]
      split
      · rw [List.map_singleton, squeeze_cons_of_not_blank hd]
      · rfl

theorem squeezes_literal : ∀ {w : Text}, (∀ c ∈ w, isBlank c = false) → Squeezes (literal w)
  | [], _ => fun _ => by rw [literal, literal]; rfl
  | c :: w, hw => by
    obtain ⟨hc, hw⟩ := List.forall_mem_cons.mp hw
    have hcons : literal (c :: w) = (one fun d => c == d) >>= fun _ => literal w := by
      funext t
      cases t with
      | nil => rfl
      | cons d ds =>
        change _ = (one (fun d => c == d) (d :: ds)).flatMap fun x => literal w x.2
        rw [one, literal, List.isPrefixOf]
        cases hd : c == d with
        | false => rfl
        | true => simp [literal]
    have hone : Squeezes (one fun d => c == d) := squeezes_one fun b hb => by
      refine beq_eq_false_iff_ne.mpr ?_
      rintro rfl
      rw [hb] at hc
      exact Bool.noConfusion hc
    rw [hcons]
    exact hone.bind fun _ => squeezes_literal hw

/-- A pattern that reads a run of blanks as it reads a space, and puts a single character for what it
reads. Nothing is read right after a blank, or after another reading. -/
structure Lax (p : Option Char → Pattern Text) : Prop where
  after_blank : ∀ {b}, isBlank b = true → p (some b) = p none
  blank : ∀ {b} t, isBlank b = true → (p none).best? (b :: t) = none
  squeeze : ∀ last t, (p last).best? (squeeze t) = ((p last).best? t).map fun x => (x.1, squeeze x.2)
  reads : ∀ {last t new r}, (p last).best? t = some (new, r) →
    (∃ d, new = [d] ∧ isBlank d = false) ∧ ∃ u, t = u ++ r ∧ u ≠ [] ∧ ∀ c ∈ u, p (some c) = p none

namespace Lax

variable {last : Option Char}

theorem replaceFrom_some (hp : Lax p) {new : Text} (h : (p last).best? (c :: t) = some (new, r)) :
    ∃ d, new = [d] ∧ isBlank d = false ∧ r.length ≤ t.length ∧
      replaceFrom p last 0 (c :: t) = d :: replaceFrom p none 0 r := by
  obtain ⟨⟨d, rfl, hd⟩, u, he, hu, hc⟩ := hp.reads h
  obtain ⟨e, u, rfl⟩ := List.exists_cons_of_ne_nil hu
  obtain ⟨rfl, rfl⟩ := List.cons.inj he
  refine ⟨d, rfl, hd, by simp, ?_⟩
  have hlen : (u ++ r).length - r.length = u.length := by simp
  rw [replaceFrom, h]
  dsimp only
  rw [List.append_eq, hlen, replaceFrom_skip]
  refine congrArg (d :: ·) (replaceFrom_congr ?_ r)
  cases hl : u.getLast? with
  | none => exact hc c List.mem_cons_self
  | some x => exact hc x (List.mem_cons_of_mem _ (List.mem_of_getLast? hl))

/-- Blanks in front of a text are left alone. -/
theorem replaceFrom_blanks (hp : Lax p) : ∀ {w : Text}, (∀ b ∈ w, isBlank b = true) → ∀ t : Text,
    replaceFrom p none 0 (w ++ t) = w ++ replaceFrom p none 0 t
  | [], _, _ => rfl
  | b :: w, hw, t => by
    obtain ⟨hb, hw⟩ := List.forall_mem_cons.mp hw
    rw [List.cons_append, replaceFrom, hp.blank _ hb]
    exact congrArg (b :: ·) ((replaceFrom_congr (hp.after_blank hb) _).trans
      (hp.replaceFrom_blanks hw t))

/-- What does not start with a blank still does not. -/
theorem head_replaceFrom (hp : Lax p) (hc : isBlank c = false) (t : Text) :
    ∃ d ds, replaceFrom p last 0 (c :: t) = d :: ds ∧ isBlank d = false := by
  cases h : (p last).best? (c :: t) with
  | none => exact ⟨c, _, by rw [replaceFrom, h], hc⟩
  | some x =>
    obtain ⟨d, -, hd, -, he⟩ := hp.replaceFrom_some h
    exact ⟨d, _, he, hd⟩

/-- The blanks of a text are squeezed in front of what has become of the rest. -/
theorem squeeze_replaceFrom_blanks (hp : Lax p) (hb : isBlank b = true) (t : Text) :
    Text.squeeze (b :: replaceFrom p (some b) 0 t) =
      ' ' :: Text.squeeze (replaceFrom p none 0 (t.dropWhile isBlank)) := by
  have hw : ∀ c ∈ t.takeWhile isBlank, isBlank c = true := fun c hc =>
    List.all_eq_true.mp List.all_takeWhile c hc
  have hsplit : replaceFrom p (some b) 0 t =
      t.takeWhile isBlank ++ replaceFrom p none 0 (t.dropWhile isBlank) := by
    rw [replaceFrom_congr (hp.after_blank hb), ← hp.replaceFrom_blanks hw,
      List.takeWhile_append_dropWhile]
  have hdrop : (replaceFrom p (some b) 0 t).dropWhile isBlank =
      replaceFrom p none 0 (t.dropWhile isBlank) := by
    rw [hsplit, List.dropWhile_append_of_pos hw]
    rcases dropWhile_blank_cases t with hd | ⟨c, cs, hd, hc⟩
    · rw [hd, replaceFrom]
      rfl
    · obtain ⟨d, ds, he, hb⟩ : ∃ d ds, replaceFrom p none 0 (c :: cs) = d :: ds ∧ isBlank d = false :=
        hp.head_replaceFrom (Bool.eq_false_iff.mpr hc) cs
      rw [hd, he, List.dropWhile_cons_of_neg (by rw [hb]; decide)]
  rw [squeeze_cons_of_blank hb, hdrop]

theorem squeeze_replaceFrom (hp : Lax p) : ∀ (n : Nat) (t : Text) (last : Option Char),
    t.length ≤ n →
      Text.squeeze (replaceFrom p last 0 (Text.squeeze t)) = Text.squeeze (replaceFrom p last 0 t)
  | _, [], _, _ => rfl
  | n + 1, c :: cs, last, hn => by
    have hle : cs.length ≤ n := Nat.le_of_succ_le_succ hn
    have hbest := hp.squeeze last (c :: cs)
    cases h : (p last).best? (c :: cs) with
    | some x =>
      -- The same is read of both texts, and the rests are shorter.
      rw [h, Option.map_some] at hbest
      obtain ⟨e, es, hs⟩ := exists_squeeze_cons c cs
      rw [hs] at hbest ⊢
      obtain ⟨d, hd, hb, hr, he⟩ := hp.replaceFrom_some h
      obtain ⟨d', hd', -, -, he'⟩ := hp.replaceFrom_some hbest
      obtain rfl : d = d' := List.singleton_inj.mp (hd.symm.trans hd')
      have ih := squeeze_replaceFrom hp n x.2 none (Nat.le_trans hr hle)
      rw [he, he', squeeze_cons_of_not_blank (by rw [hb]; decide),
        squeeze_cons_of_not_blank (by rw [hb]; decide), ih]
    | none =>
      rw [h, Option.map_none] at hbest
      cases hc : isBlank c with
      | false =>
        have hc' : ¬isBlank c = true := by rw [hc]; decide
        rw [squeeze_cons_of_not_blank hc'] at hbest ⊢
        rw [replaceFrom, hbest, replaceFrom, h]
        dsimp only
        rw [squeeze_cons_of_not_blank hc', squeeze_cons_of_not_blank hc',
          squeeze_replaceFrom hp n cs (some c) hle]
      | true =>
        rw [squeeze_cons_of_blank hc] at hbest ⊢
        have ih := squeeze_replaceFrom hp n (cs.dropWhile isBlank) none
          (Nat.le_trans (List.dropWhile_suffix _).length_le hle)
        rw [replaceFrom, hbest, replaceFrom, h]
        dsimp only
        rw [hp.squeeze_replaceFrom_blanks hc, hp.squeeze_replaceFrom_blanks (by decide),
          dropWhile_squeeze, List.dropWhile_idempotent, ← ih]

/-- **Runs of blanks make no difference to what a lax pattern is replaced by.** -/
theorem squeeze_replaceAll (hp : Lax p) (t : Text) :
    Text.squeeze (replaceAll p (Text.squeeze t)) = Text.squeeze (replaceAll p t) :=
  hp.squeeze_replaceFrom t.length t none (Nat.le_refl _)

end Lax

end Stepwise.Pattern
