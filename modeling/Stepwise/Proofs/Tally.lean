import Stepwise.Proofs.Tail

/-!
# Marks that end a sentence

The periods and question marks of a text are not lost when a phrasing in it is replaced: `Reads p Q`
relates what a pattern reads to what it gives, and `Carries m p` says that both hold the mark `m`
equally often and that what is given does not end like a sentence (`Firm`).

Results: `count_replaceAll`, a pattern that carries a mark can be replaced without losing it;
`firm_replaceAll`, a text that does not end like a sentence still does not when such a pattern was
replaced; and `firm_replaceAll_of_readsFrom`, nor does one in which a pattern was read that takes the
rest.
-/

namespace Stepwise

open Text Pattern

namespace Pattern

variable {α β : Type} {p : Pattern α} {f : α → Pattern β} {P : Text → α → Prop}
  {Q : Text → β → Prop} {m : Char}

/-- What is read and what is given for it are in the given relation. -/
def Reads (p : Pattern α) (Q : Text → α → Prop) : Prop :=
  ∀ t a r, (a, r) ∈ p t → ∃ u, t = u ++ r ∧ Q u a

/-- The mark is not read. -/
def Passes (m : Char) (p : Pattern α) : Prop := Reads p fun u _ => m ∉ u

theorem Reads.bind (hp : Reads p P) (hf : ∀ u a, P u a → Reads (f a) fun v b => Q (u ++ v) b) :
    Reads (p >>= f) Q := by
  intro t b r h
  obtain ⟨a, s, hs, hr⟩ := mem_bind.mp h
  obtain ⟨u, rfl, hu⟩ := hp t a s hs
  obtain ⟨v, rfl, hv⟩ := hf u a hu s b r hr
  exact ⟨u ++ v, (List.append_assoc u v r).symm, hv⟩

theorem Reads.mono {Q : Text → α → Prop} (hp : Reads p P) (h : ∀ u a, P u a → Q u a) :
    Reads p Q := by
  intro t a r hr
  obtain ⟨u, rfl, hu⟩ := hp t a r hr
  exact ⟨u, rfl, h u a hu⟩

theorem Reads.and {Q : Text → α → Prop} (hp : Reads p P) (hq : Reads p Q) :
    Reads p fun u a => P u a ∧ Q u a := by
  intro t a r hr
  obtain ⟨u, rfl, hu⟩ := hp t a r hr
  obtain ⟨v, hv, hv'⟩ := hq _ a r hr
  obtain rfl := List.append_cancel_right hv
  exact ⟨u, rfl, hu, hv'⟩

theorem Reads.leavesEnd (hp : Reads p P) : LeavesEnd p := by
  intro t a r h
  obtain ⟨u, rfl, -⟩ := hp t a r h
  exact List.suffix_append u r

theorem LeavesEnd.reads (hp : LeavesEnd p) : Reads p fun _ _ => True := by
  intro t a r h
  obtain ⟨u, rfl⟩ := hp t a r h
  exact ⟨u, rfl, trivial⟩

theorem reads_pure {a : α} (h : P [] a) : Reads (pure a) P := by
  intro t b r hr
  obtain ⟨rfl, rfl⟩ := mem_pure.mp hr
  exact ⟨[], rfl, h⟩

theorem reads_one (ok : Char → Bool) : Reads (one ok) fun u c => u = [c] ∧ ok c = true := by
  intro t c r h
  obtain ⟨rfl, hc⟩ := mem_one.mp h
  exact ⟨[c], rfl, rfl, hc⟩

theorem reads_literal (w : Text) : Reads (literal w) fun u _ => u = w := by
  intro t a r h
  obtain rfl := mem_literal.mp h
  exact ⟨w, rfl, rfl⟩

theorem reads_word : ∀ w : Text, Reads (word w) fun u _ =>
    u.length = w.length ∧ ∀ c ∈ u, ∃ q ∈ w, sameLetter q c = true
  | [], t, a, r, h => by
    obtain ⟨-, rfl⟩ := Prod.mk.inj (List.mem_singleton.mp h)
    exact ⟨[], rfl, rfl, fun _ h => absurd h List.not_mem_nil⟩
  | _ :: _, [], _, _, h => absurd h List.not_mem_nil
  | q :: qs, c :: cs, a, r, h => by
    unfold word at h
    dsimp only at h
    split at h
    next hc =>
      obtain ⟨u, rfl, hl, hu⟩ := reads_word qs cs a r h
      refine ⟨c :: u, rfl, congrArg (· + 1) hl, List.forall_mem_cons.mpr ⟨?_, fun d hd => ?_⟩⟩
      · exact ⟨q, List.mem_cons_self, hc⟩
      · obtain ⟨q', hq, hs⟩ := hu d hd
        exact ⟨q', List.mem_cons_of_mem _ hq, hs⟩
    next => exact absurd h List.not_mem_nil

theorem reads_many (ok : Char → Bool) :
    Reads (many ok) fun u v => u = v ∧ ∀ c ∈ v, ok c = true := by
  intro t v r h
  obtain ⟨rfl, hv⟩ := mem_many h
  exact ⟨v, rfl, rfl, hv⟩

theorem reads_many1 (ok : Char → Bool) :
    Reads (many1 ok) fun u v => u = v ∧ ∀ c ∈ v, ok c = true := by
  refine (reads_one ok).bind fun u c hc => (reads_many ok).bind fun u' v hv => reads_pure ?_
  obtain ⟨rfl, hc⟩ := hc
  obtain ⟨rfl, hv⟩ := hv
  exact ⟨by simp, List.forall_mem_cons.mpr ⟨hc, hv⟩⟩

theorem reads_few1 (ok : Char → Bool) : Reads (few1 ok) fun u v => u = v := by
  intro t v r h
  obtain ⟨rfl, -⟩ := mem_few1 h
  exact ⟨v, rfl, rfl⟩

theorem Reads.optional (hp : Reads p P) :
    Reads (optional p) fun u o => o.elim (u = []) (P u) := by
  intro t o r h
  rcases List.mem_append.mp h with h | h
  · obtain ⟨⟨a, s⟩, hs, h⟩ := List.mem_map.mp h
    obtain ⟨rfl, rfl⟩ := Prod.mk.inj h
    exact hp t a s hs
  · obtain ⟨rfl, rfl⟩ := Prod.mk.inj (List.mem_singleton.mp h)
    exact ⟨[], rfl, rfl⟩

theorem Reads.either {q : Pattern α} (hp : Reads p P) (hq : Reads q P) : Reads (either p q) P :=
  fun t a r h => (List.mem_append.mp h).elim (hp t a r) (hq t a r)

/-! ## Patterns that do not read a mark -/

theorem Passes.bind (hp : Passes m p) (hf : ∀ a, Passes m (f a)) : Passes m (p >>= f) :=
  Reads.bind hp fun _ a hu => (hf a).mono fun _ _ hv h => (List.mem_append.mp h).elim hu hv

theorem Passes.optional (hp : Passes m p) : Passes m (optional p) := by
  refine (Reads.optional hp).mono fun u o h => ?_
  cases o with
  | none =>
    obtain rfl : u = [] := h
    exact List.not_mem_nil
  | some a => exact h

theorem Passes.either {q : Pattern α} (hp : Passes m p) (hq : Passes m q) :
    Passes m (either p q) := Reads.either hp hq

theorem passes_pure (a : α) : Passes m (pure a : Pattern α) := reads_pure List.not_mem_nil

theorem passes_one {ok : Char → Bool} (h : ok m = false) : Passes m (one ok) := by
  refine (reads_one ok).mono fun u c hc hm => ?_
  obtain ⟨rfl, hc⟩ := hc
  obtain rfl := List.mem_singleton.mp hm
  exact Bool.false_ne_true (h.symm.trans hc)

theorem passes_many {ok : Char → Bool} (h : ok m = false) : Passes m (many ok) := by
  refine (reads_many ok).mono fun u v hv hm => ?_
  obtain ⟨rfl, hv⟩ := hv
  exact Bool.false_ne_true (h.symm.trans (hv m hm))

theorem passes_many1 {ok : Char → Bool} (h : ok m = false) : Passes m (many1 ok) :=
  (passes_one h).bind fun _ => (passes_many h).bind fun _ => passes_pure _

theorem passes_literal {w : Text} (h : m ∉ w) : Passes m (literal w) :=
  (reads_literal w).mono fun u _ hu => by rwa [hu]

theorem passes_word {w : Text} (h : ∀ q ∈ w, sameLetter q m = false) : Passes m (word w) := by
  refine (reads_word w).mono fun u _ hu hm => ?_
  obtain ⟨q, hq, hs⟩ := hu.2 m hm
  exact Bool.false_ne_true ((h q hq).symm.trans hs)

/-- A part that does not read the mark, in front of others. -/
theorem Passes.before {Q : Text → β → Prop} (hp : Passes m p)
    (hf : ∀ u a, m ∉ u → Reads (f a) fun v b => Q (u ++ v) b) : Reads (p >>= f) Q :=
  Reads.bind hp hf

/-! ## Conditions -/

/-- Nothing is read. -/
def Stays (p : Pattern α) : Prop := ∀ t a r, (a, r) ∈ p t → r = t

theorem stays_guard (b : Bool) : Stays (guard b) := fun _ _ _ h => (mem_guard.mp h).1

theorem stays_notBefore (bad : Char → Bool) : Stays (notBefore bad) := fun _ _ _ h => mem_notBefore h

theorem stays_before (ok : Char → Bool) : Stays (before ok) := fun _ _ _ h => (mem_before.mp h).1

theorem stays_atEnd : Stays atEnd := fun _ _ _ h => (mem_atEnd.mp h).1

theorem Stays.bind (hp : Stays p) (hf : ∀ a, Reads (f a) Q) : Reads (p >>= f) Q := by
  intro t b r h
  obtain ⟨a, s, hs, hr⟩ := mem_bind.mp h
  obtain rfl := hp t a s hs
  exact hf a s b r hr

end Pattern

namespace Phrase

/-! ## Replacing patterns that carry a mark -/

/-- The text does not end like a sentence, and it is not empty. -/
def Firm (t : Text) : Prop := ∃ c, t.getLast? = some c ∧ endsSentence c = false

/-- Something is read, and what is given holds the mark as often and does not end like a sentence. -/
def Carries (m : Char) (p : Pattern Text) : Prop :=
  Reads p fun u new => u ≠ [] ∧ new.count m = u.count m ∧ Firm new

variable {m : Char} {p : Option Char → Pattern Text} {s t : Text}

theorem Firm.ne_nil (h : Firm t) : t ≠ [] := by
  rintro rfl
  obtain ⟨c, hc, -⟩ := h
  exact absurd hc (by simp)

theorem Firm.append (h : Firm t) (s : Text) : Firm (s ++ t) := by
  obtain ⟨c, hc, he⟩ := h
  exact ⟨c, by rw [List.getLast?_append, hc]; rfl, he⟩

theorem firm_append_singleton (s : Text) {c : Char} (h : endsSentence c = false) :
    Firm (s ++ [c]) := ⟨c, List.getLast?_concat, h⟩

theorem Firm.of_suffix (h : Firm t) (hs : s <:+ t) (hn : s ≠ []) : Firm s := by
  obtain ⟨w, rfl⟩ := hs
  obtain ⟨c, hc, he⟩ := h
  refine ⟨c, ?_, he⟩
  rw [List.getLast?_append] at hc
  cases hl : s.getLast? with
  | none => exact absurd (List.getLast?_eq_none_iff.mp hl) hn
  | some d => rwa [hl] at hc

theorem replaceFrom_of_length_le : ∀ {t : Text} {last : Option Char} {skip : Nat},
    t.length ≤ skip → replaceFrom p last skip t = []
  | [], _, skip, _ => by cases skip <;> rfl
  | c :: cs, _, skip + 1, h => by
    rw [replaceFrom]
    exact replaceFrom_of_length_le (Nat.le_of_succ_le_succ h)

/-- What comes of a reading: its replacement, and the text after it. -/
theorem Carries.replaceFrom_eq {last : Option Char} (hp : Carries m (p last)) {c : Char}
    {cs new rest : Text} (h : (p last).best? (c :: cs) = some (new, rest)) :
    ∃ skip u, replaceFrom p last 0 (c :: cs) = new ++ replaceFrom p (some c) skip cs ∧
      c :: cs = u ++ cs.drop skip ∧ new.count m = u.count m ∧ Firm new := by
  obtain ⟨u, he, hu, hc, hf⟩ := hp _ _ _ (mem_of_best? h)
  obtain ⟨d, u, rfl⟩ := List.exists_cons_of_ne_nil hu
  obtain ⟨rfl, hcs⟩ := List.cons.inj he
  have hd : cs.drop (cs.length - rest.length) = rest := by
    rw [hcs, List.append_eq, List.length_append, Nat.add_sub_cancel, List.drop_left]
  exact ⟨_, c :: u, by rw [replaceFrom, h], by rw [hd]; exact he, hc, hf⟩

theorem count_replaceFrom (hp : ∀ last, Carries m (p last)) : ∀ (t : Text) (last : Option Char)
    (skip : Nat), (replaceFrom p last skip t).count m = (t.drop skip).count m
  | [], _, skip => by cases skip <;> rfl
  | c :: cs, _, skip + 1 => by
    rw [replaceFrom, List.drop_succ_cons]
    exact count_replaceFrom hp cs _ skip
  | c :: cs, last, 0 => by
    cases h : (p last).best? (c :: cs) with
    | none => rw [replaceFrom, h, List.drop_zero, List.count_cons, List.count_cons,
        count_replaceFrom hp cs _ 0, List.drop_zero]
    | some x =>
      obtain ⟨skip, u, he, hc, hn, -⟩ := (hp last).replaceFrom_eq h
      rw [he, List.drop_zero, hc, List.count_append, List.count_append, hn,
        count_replaceFrom hp cs _ skip]

/-- **No mark is lost when a pattern that carries it is replaced.** -/
theorem count_replaceAll (hp : ∀ last, Carries m (p last)) (t : Text) :
    (replaceAll p t).count m = t.count m := count_replaceFrom hp t none 0

theorem firm_replaceFrom (hp : ∀ last, Carries m (p last)) : ∀ {t : Text} {last : Option Char}
    {skip : Nat}, Firm (t.drop skip) → Firm (replaceFrom p last skip t)
  | [], _, skip, h => absurd (List.drop_nil) h.ne_nil
  | c :: cs, _, skip + 1, h => by
    rw [replaceFrom]
    exact firm_replaceFrom hp h
  | c :: cs, last, 0, h => by
    cases hb : (p last).best? (c :: cs) with
    | none =>
      rw [replaceFrom, hb]
      cases cs with
      | nil => exact h
      | cons d ds =>
        have hcs : Firm ((d :: ds).drop 0) := h.of_suffix (List.suffix_cons c _) (List.cons_ne_nil _ _)
        exact (firm_replaceFrom hp hcs).append [c]
    | some x =>
      obtain ⟨skip, u, he, hc, -, hf⟩ := (hp last).replaceFrom_eq hb
      rw [he]
      by_cases hs : cs.drop skip = []
      · rw [replaceFrom_of_length_le (List.drop_eq_nil_iff.mp hs), List.append_nil]
        exact hf
      · have hcs : Firm (cs.drop skip) := h.of_suffix ⟨u, hc.symm⟩ hs
        exact (firm_replaceFrom hp hcs).append x.1

/-- What does not end like a sentence still does not when a pattern was replaced in it. -/
theorem firm_replaceAll (hp : ∀ last, Carries m (p last)) (h : Firm t) : Firm (replaceAll p t) :=
  firm_replaceFrom hp h

/-- A pattern that takes the rest puts a text in its place that does not end like a sentence. -/
theorem firm_replaceFrom_of_readsFrom (hp : ∀ last, Carries m (p last)) : ∀ {t : Text}
    {last : Option Char}, (∀ l s new r, s <:+ t → (new, r) ∈ p l s → r = []) →
      ReadsFrom p last t → Firm (replaceFrom p last 0 t)
  | c :: cs, last, hr, h => by
    cases hb : (p last).best? (c :: cs) with
    | none =>
      rw [replaceFrom, hb]
      exact (firm_replaceFrom_of_readsFrom hp
        (fun l s new r hs => hr l s new r (hs.trans (List.suffix_cons _ _)))
        (h.resolve_left (absurd hb))).append [c]
    | some x =>
      obtain ⟨u, -, -, -, hf⟩ := hp last _ _ _ (mem_of_best? hb)
      have hnil : x.2 = [] := hr last _ _ _ (List.suffix_refl _) (mem_of_best? hb)
      rw [replaceFrom, hb]
      dsimp only
      have hskip : cs.length ≤ cs.length - x.2.length := by
        rw [hnil]
        exact Nat.le_refl _
      rw [replaceFrom_of_length_le hskip, List.append_nil]
      exact hf

theorem firm_replaceAll_of_readsFrom (hp : ∀ last, Carries m (p last))
    (hr : ∀ l s new r, s <:+ t → (new, r) ∈ p l s → r = []) (h : ReadsFrom p none t) :
    Firm (replaceAll p t) := firm_replaceFrom_of_readsFrom hp hr h

end Phrase

end Stepwise
