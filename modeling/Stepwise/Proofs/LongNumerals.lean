import Stepwise.Proofs.Evaluation
import Stepwise.Proofs.Spelling

/-!
# Numerals that are too long

A text that has no tree is unreadable, with one exception: an integer numeral of more than 4300 digits
has no value, and the reader stops at it with a fault of its own. It comes to the numeral exactly if
nothing is wrong before, which is to say that the tokens in front of it are the front of an expression
that goes on with a number (`Viable`).

What is read of a stretch of tokens does not depend on the tokens behind it, as long as they begin
alike (`Additive.stretch` and its siblings). So a numeral that is too long can be put for one that is
not, with whatever comes after it, and the reader gets to the same place: `sum_eq_error` and its
siblings, along a derivation. The other way round, where the reader has stopped the parentheses that
are open can be closed: `stopsAt`, along its recursion.

Results: `ofTokens?_eq_numeralTooLong`, exactly when a list of tokens is read up to such a numeral;
and `failure_modes`, how the reader and a trace can fail.
-/

namespace Stepwise

/-- An integer numeral with more digits than are ever read. -/
def TooLong (s : Text) : Prop :=
  s.any (".eE".toList.contains ·) = false ∧ Fault.digitLimit < s.length

theorem Numeral.ofSpelling_of_tooLong {s : Text} (h : TooLong s) :
    ofSpelling s = .error (.numeralTooLong s.length) := by
  rw [ofSpelling, h.1, if_neg Bool.false_ne_true, if_pos h.2]

namespace Grammar

open Stepwise.Tree

variable {α β : Type} {F : List Text} {ts us vs : List Token}

/-! ## Stretches -/

/-- The tokens begin alike, as far as what stands in front of them matters. -/
structure Alike (us vs : List Token) : Prop where
  opens : vs.head? = some (.sign '(') → us.head? = some (.sign '(')
  starts : startsOperand vs = startsOperand us

theorem startsOperand_sign (c : Char) (us : List Token) :
    startsOperand (.sign c :: us) = decide (c = '(') := by
  unfold startsOperand
  split
  next h => exact absurd (List.cons.inj h).1 (by simp)
  next h => exact absurd (List.cons.inj h).1 (by simp)
  next h =>
    obtain rfl := Token.sign.inj (List.cons.inj h).1
    rfl
  next h => exact (decide_eq_false fun hc => h us (by rw [hc])).symm

theorem Alike.cons (tok : Token) (us vs : List Token) : Alike (tok :: us) (tok :: vs) where
  opens h := h
  starts := by
    cases tok with
    | number => rfl
    | name => rfl
    | sign c => rw [startsOperand_sign, startsOperand_sign]

theorem Alike.append {d : List Token} (hd : d ≠ []) (us vs : List Token) :
    Alike (d ++ us) (d ++ vs) := by
  obtain ⟨tok, d, rfl⟩ := List.exists_cons_of_ne_nil hd
  exact .cons tok _ _

/-- One numeral begins like another one, and so do tokens in front of them. -/
theorem alike_of_number {front rest : List Token} {z : Text} (h : us = front ++ .number z :: rest)
    (s : Text) (back : List Token) : Alike us (front ++ .number s :: back) := by
  rw [h]
  cases front with
  | nil => exact ⟨fun h => absurd h (by simp), rfl⟩
  | cons tok front => exact .cons tok _ _

/-- The tokens in front of `us` are read as they are in front of all tokens that begin alike. -/
def Stretch (X : List Token → List Token → α → Prop) (ts us : List Token) (a : α) : Prop :=
  ∃ d, d ≠ [] ∧ ts = d ++ us ∧ ∀ vs, Alike us vs → X (d ++ vs) vs a

mutual

theorem Additive.stretch : ∀ {ts us : List Token} {t : Tree}, Additive F ts us t →
    Stretch (Additive F) ts us t
  | _, _, _, .one h => by
    obtain ⟨d, hd, rfl, hX⟩ := h.stretch
    exact ⟨d, hd, rfl, fun vs hv => .one (hX vs hv)⟩
  | _, _, _, @Additive.more _ op _ _ _ _ _ hop hl hr => by
    obtain ⟨d, hd, rfl, hX⟩ := hl.stretch
    obtain ⟨e, -, rfl, hY⟩ := hr.stretch
    refine ⟨d ++ .sign op.sign :: e, by simp, by simp, fun vs hv => ?_⟩
    rw [List.append_assoc]
    exact .more hop (hX (.sign op.sign :: (e ++ vs)) (.cons _ _ _)) (hY vs hv)

theorem Multiplicative.stretch : ∀ {ts us : List Token} {t : Tree}, Multiplicative F ts us t →
    Stretch (Multiplicative F) ts us t
  | _, _, _, .one h => by
    obtain ⟨d, hd, rfl, hX⟩ := h.stretch
    exact ⟨d, hd, rfl, fun vs hv => .one (hX vs hv)⟩
  | _, _, _, @Multiplicative.more _ op _ _ _ _ _ hop hl hr => by
    obtain ⟨d, hd, rfl, hX⟩ := hl.stretch
    obtain ⟨e, -, rfl, hY⟩ := hr.stretch
    refine ⟨d ++ .sign op.sign :: e, by simp, by simp, fun vs hv => ?_⟩
    rw [List.append_assoc]
    exact .more hop (hX (.sign op.sign :: (e ++ vs)) (.cons _ _ _)) (hY vs hv)
  | _, us, _, .implied hl hs hr => by
    obtain ⟨d, hd, rfl, hX⟩ := hl.stretch
    obtain ⟨e, he, rfl, hY⟩ := hr.stretch
    refine ⟨d ++ e, by simp [hd], by simp, fun vs hv => ?_⟩
    have halike := Alike.append he us vs
    rw [List.append_assoc]
    exact .implied (hX (e ++ vs) halike) (halike.starts.trans hs) (hY vs hv)

theorem Signed.stretch : ∀ {ts us : List Token} {t : Tree}, Signed F ts us t →
    Stretch (Signed F) ts us t
  | _, _, _, .minus h => by
    obtain ⟨d, -, rfl, hX⟩ := h.stretch
    exact ⟨.sign '-' :: d, by simp, rfl, fun vs hv => .minus (hX vs hv)⟩
  | _, _, _, .bare h => by
    obtain ⟨d, hd, rfl, hX⟩ := h.stretch
    exact ⟨d, hd, rfl, fun vs hv => .bare (hX vs hv)⟩

theorem Power.stretch : ∀ {ts us : List Token} {t : Tree}, Power F ts us t →
    Stretch (Power F) ts us t
  | _, _, _, .bare h => by
    obtain ⟨d, hd, rfl, hX⟩ := h.stretch
    exact ⟨d, hd, rfl, fun vs hv => .bare (hX vs hv)⟩
  | _, _, _, .raised hb he => by
    obtain ⟨d, hd, rfl, hX⟩ := hb.stretch
    obtain ⟨e, -, rfl, hY⟩ := he.stretch
    refine ⟨d ++ .sign '^' :: e, by simp, by simp, fun vs hv => ?_⟩
    rw [List.append_assoc]
    exact .raised (hX (.sign '^' :: (e ++ vs)) (.cons _ _ _)) (hY vs hv)

theorem Primary.stretch : ∀ {ts us : List Token} {t : Tree}, Primary F ts us t →
    Stretch (Primary F) ts us t
  | _, _, _, .number (s := s) h => ⟨[.number s], by simp, rfl, fun _ _ => .number h⟩
  | _, _, _, .name (s := s) h =>
    ⟨[.name s], by simp, rfl, fun _ hv => .name fun ⟨hF, ho⟩ => h ⟨hF, hv.opens ho⟩⟩
  | _, _, _, .call (s := s) hs h => by
    obtain ⟨d, -, rfl, hX⟩ := h.stretch
    refine ⟨.name s :: .sign '(' :: (d ++ [.sign ')']), by simp, by simp, fun vs _ => ?_⟩
    have := hX (.sign ')' :: vs) (.cons _ _ _)
    simpa using Primary.call hs this
  | _, _, _, .parenthesis h => by
    obtain ⟨d, -, rfl, hX⟩ := h.stretch
    refine ⟨.sign '(' :: (d ++ [.sign ')']), by simp, by simp, fun vs _ => ?_⟩
    have := hX (.sign ')' :: vs) (.cons _ _ _)
    simpa using Primary.parenthesis this

theorem Arguments.stretch : ∀ {ts us : List Token} {args : List Tree}, Arguments F ts us args →
    Stretch (Arguments F) ts us args
  | _, _, _, .last h => by
    obtain ⟨d, hd, rfl, hX⟩ := h.stretch
    exact ⟨d, hd, rfl, fun vs hv => .last (hX vs hv)⟩
  | _, _, _, .more h hs => by
    obtain ⟨d, hd, rfl, hX⟩ := h.stretch
    obtain ⟨e, -, rfl, hY⟩ := hs.stretch
    refine ⟨d ++ .sign ',' :: e, by simp, by simp, fun vs hv => ?_⟩
    rw [List.append_assoc]
    exact .more (hX (.sign ',' :: (e ++ vs)) (.cons _ _ _)) (hY vs hv)

end

/-- The tokens are the front of an expression that goes on with a number. -/
def Viable (F : List Text) (front : List Token) : Prop :=
  ∃ rest t, Derives F (front ++ .number ['0'] :: rest) t

/-- The tokens go on to a numeral of `n` digits, which is too long, and up to there nothing is wrong:
with a short numeral and some tokens behind it they are read as an `X`, whatever comes then. -/
def Reaches (X : List Token → List Token → α → Prop) (ts : List Token) (n : Nat) : Prop :=
  ∃ front s back rest, ts = front ++ .number s :: back ∧ TooLong s ∧ s.length = n ∧
    ∀ us, ∃ a, X (front ++ .number ['0'] :: (rest ++ us)) us a

/-- What is reached inside is reached from outside, where tokens come before and some may have to be
closed. -/
theorem Reaches.lift {X : List Token → List Token → α → Prop}
    {Y : List Token → List Token → β → Prop}
    {n : Nat} (h : Reaches X ts n) (before close : List Token)
    (hY : ∀ vs us a, Alike ts vs → X vs (close ++ us) a → ∃ b, Y (before ++ vs) us b) :
    Reaches Y (before ++ ts) n := by
  obtain ⟨front, s, back, rest, rfl, hs, hn, hX⟩ := h
  refine ⟨before ++ front, s, back, rest ++ close, by simp, hs, hn, fun us => ?_⟩
  obtain ⟨a, ha⟩ := hX (close ++ us)
  obtain ⟨b, hb⟩ := hY _ us a (alike_of_number rfl _ _) ha
  exact ⟨b, by simpa using hb⟩

end Grammar

namespace Tree

open Grammar

variable {F : List Text} {n k : Nat} {ts : List Token}

/-! ## Where the reader stops -/

/-- Where a function of the reader with fuel `n` stops at a numeral of `k` digits that is too long, it
has reached it. The tails of sums and products are given what was derived before them. -/
structure StopsAt (F : List Text) (n : Nat) : Prop where
  sum : ∀ {ts k}, Tree.sum F n ts = .error (.numeralTooLong k) → Reaches (Additive F) ts k
  sumTail : ∀ {ts₀ ts k l}, Additive F ts₀ ts l →
    Tree.sumTail F n l ts = .error (.numeralTooLong k) → Reaches (Additive F) ts₀ k
  product : ∀ {ts k}, Tree.product F n ts = .error (.numeralTooLong k) →
    Reaches (Multiplicative F) ts k
  productTail : ∀ {ts₀ ts k l}, Multiplicative F ts₀ ts l →
    Tree.productTail F n l ts = .error (.numeralTooLong k) → Reaches (Multiplicative F) ts₀ k
  signed : ∀ {ts k}, Tree.signed F n ts = .error (.numeralTooLong k) → Reaches (Signed F) ts k
  power : ∀ {ts k}, Tree.power F n ts = .error (.numeralTooLong k) → Reaches (Power F) ts k
  primary : ∀ {ts k}, Tree.primary F n ts = .error (.numeralTooLong k) → Reaches (Primary F) ts k
  arguments : ∀ {ts k}, Tree.arguments F n ts = .error (.numeralTooLong k) →
    Reaches (Arguments F) ts k

theorem expectClose_ne_numeralTooLong : expectClose ts ≠ .error (.numeralTooLong k) := by
  unfold expectClose
  split <;> simp

/-- Behind a sign of a sum. -/
theorem reaches_sum {op : Operator} (hop : op = .plus ∨ op = .minus) {ts₀ ts : List Token} {l : Tree}
    (hl : Additive F ts₀ (.sign op.sign :: ts) l) (h : Reaches (Multiplicative F) ts k) :
    Reaches (Additive F) ts₀ k := by
  obtain ⟨d, -, rfl, hX⟩ := hl.stretch
  have := h.lift (Y := Additive F) (d ++ [.sign op.sign]) [] fun vs us r _ hr => by
    rw [List.append_assoc]
    exact ⟨_, .more hop (hX (.sign op.sign :: vs) (.cons _ _ _)) hr⟩
  rwa [List.append_assoc] at this

/-- Behind a sign of a product. -/
theorem reaches_product {op : Operator} (hop : op = .times ∨ op = .dividedBy) {ts₀ ts : List Token}
    {l : Tree} (hl : Multiplicative F ts₀ (.sign op.sign :: ts) l) (h : Reaches (Signed F) ts k) :
    Reaches (Multiplicative F) ts₀ k := by
  obtain ⟨d, -, rfl, hX⟩ := hl.stretch
  have := h.lift (Y := Multiplicative F) (d ++ [.sign op.sign]) [] fun vs us r _ hr => by
    rw [List.append_assoc]
    exact ⟨_, .more hop (hX (.sign op.sign :: vs) (.cons _ _ _)) hr⟩
  rwa [List.append_assoc] at this

theorem sumTail_stops (ih : StopsAt F n) {ts₀ ts : List Token} {l : Tree} (hl : Additive F ts₀ ts l)
    (h : Tree.sumTail F (n + 1) l ts = .error (.numeralTooLong k)) : Reaches (Additive F) ts₀ k := by
  have plus : Operator.plus = .plus ∨ Operator.plus = .minus := .inl rfl
  have minus : Operator.minus = .plus ∨ Operator.minus = .minus := .inr rfl
  unfold Tree.sumTail at h
  split at h
  · rcases bind_eq_error.mp h with h | ⟨⟨r, us⟩, hr, h⟩
    · exact reaches_sum plus hl (ih.product h)
    · exact ih.sumTail (.more plus hl ((soundAt F n).product hr)) h
  · rcases bind_eq_error.mp h with h | ⟨⟨r, us⟩, hr, h⟩
    · exact reaches_sum minus hl (ih.product h)
    · exact ih.sumTail (.more minus hl ((soundAt F n).product hr)) h
  · exact absurd h (by simp)

theorem productTail_stops (ih : StopsAt F n) {ts₀ ts : List Token} {l : Tree}
    (hl : Multiplicative F ts₀ ts l)
    (h : Tree.productTail F (n + 1) l ts = .error (.numeralTooLong k)) :
    Reaches (Multiplicative F) ts₀ k := by
  have times : Operator.times = .times ∨ Operator.times = .dividedBy := .inl rfl
  have dividedBy : Operator.dividedBy = .times ∨ Operator.dividedBy = .dividedBy := .inr rfl
  unfold Tree.productTail at h
  split at h
  · rcases bind_eq_error.mp h with h | ⟨⟨r, us⟩, hr, h⟩
    · exact reaches_product times hl (ih.signed h)
    · exact ih.productTail (.more times hl ((soundAt F n).signed hr)) h
  · rcases bind_eq_error.mp h with h | ⟨⟨r, us⟩, hr, h⟩
    · exact reaches_product dividedBy hl (ih.signed h)
    · exact ih.productTail (.more dividedBy hl ((soundAt F n).signed hr)) h
  · split at h
    next hs =>
      rcases bind_eq_error.mp h with h | ⟨⟨r, us⟩, hr, h⟩
      · obtain ⟨d, -, rfl, hX⟩ := hl.stretch
        refine (ih.signed h).lift d [] fun vs us r hv hr => ?_
        exact ⟨_, .implied (hX vs hv) (hv.starts.trans hs) hr⟩
      · exact ih.productTail (.implied hl hs ((soundAt F n).signed hr)) h
    next => exact absurd h (by simp)

theorem signed_stops (ih : StopsAt F n)
    (h : Tree.signed F (n + 1) ts = .error (.numeralTooLong k)) : Reaches (Signed F) ts k := by
  unfold Tree.signed at h
  split at h
  · rcases bind_eq_error.mp h with h | ⟨_, _, h⟩
    · exact (ih.signed h).lift [.sign '-'] [] fun vs us t _ ht => ⟨_, .minus ht⟩
    · exact absurd h (by simp [pure, Except.pure])
  · exact (ih.power h).lift [] [] fun vs us t _ ht => ⟨t, .bare ht⟩

theorem power_stops (ih : StopsAt F n)
    (h : Tree.power F (n + 1) ts = .error (.numeralTooLong k)) : Reaches (Power F) ts k := by
  unfold Tree.power at h
  rcases bind_eq_error.mp h with h | ⟨⟨b, us⟩, hb, hpower⟩
  · exact (ih.primary h).lift [] [] fun vs us t _ ht => ⟨t, .bare ht⟩
  dsimp only at hpower
  split at hpower
  · rcases bind_eq_error.mp hpower with hexponent | ⟨_, _, h⟩
    · obtain ⟨d, -, rfl, hX⟩ := ((soundAt F n).primary hb).stretch
      have := (ih.signed hexponent).lift (Y := Power F) (d ++ [.sign '^']) [] fun vs us e _ he => by
        rw [List.append_assoc]
        exact ⟨_, .raised (hX (.sign '^' :: vs) (.cons _ _ _)) he⟩
      rwa [List.append_assoc] at this
    · exact absurd h (by simp [pure, Except.pure])
  · exact absurd hpower (by simp [pure, Except.pure])

theorem primary_stops (ih : StopsAt F n)
    (h : Tree.primary F (n + 1) ts = .error (.numeralTooLong k)) : Reaches (Primary F) ts k := by
  unfold Tree.primary at h
  split at h
  · exact absurd h (by simp)
  next s us =>
    -- Here is the numeral; a short one in its place is read.
    rcases bind_eq_error.mp h with h | ⟨v, _, h⟩
    · obtain ⟨plain, long, he⟩ := Numeral.ofSpelling_eq_error h
      refine ⟨[], s, us, [], rfl, ⟨plain, long⟩, (Fault.numeralTooLong.inj he).symm, fun vs => ?_⟩
      exact ⟨_, .number rfl⟩
    · exact absurd h (by simp [pure, Except.pure])
  next s us =>
    split at h
    next hs =>
      rcases bind_eq_error.mp h with h | ⟨⟨args, vs⟩, _, h⟩
      · refine (ih.arguments h).lift [.name s, .sign '('] [.sign ')'] fun vs us args _ ha => ?_
        exact ⟨_, .call (by simpa using hs) ha⟩
      · rcases bind_eq_error.mp h with h | ⟨_, _, h⟩
        · exact absurd h expectClose_ne_numeralTooLong
        · exact absurd h (by simp [pure, Except.pure])
    next => exact absurd h (by simp [pure, Except.pure])
  · exact absurd h (by simp [pure, Except.pure])
  · rcases bind_eq_error.mp h with h | ⟨⟨t, vs⟩, _, h⟩
    · exact (ih.sum h).lift [.sign '('] [.sign ')'] fun vs us t _ ht => ⟨_, .parenthesis ht⟩
    · rcases bind_eq_error.mp h with h | ⟨_, _, h⟩
      · exact absurd h expectClose_ne_numeralTooLong
      · exact absurd h (by simp [pure, Except.pure])
  · exact absurd h (by simp)

theorem arguments_stops (ih : StopsAt F n)
    (h : Tree.arguments F (n + 1) ts = .error (.numeralTooLong k)) : Reaches (Arguments F) ts k := by
  unfold Tree.arguments at h
  rcases bind_eq_error.mp h with h | ⟨⟨t, us⟩, ht, hmore⟩
  · exact (ih.sum h).lift [] [] fun vs us t _ ht => ⟨[t], .last ht⟩
  dsimp only at hmore
  split at hmore
  · rcases bind_eq_error.mp hmore with hnext | ⟨_, _, h⟩
    · obtain ⟨d, -, rfl, hX⟩ := ((soundAt F n).sum ht).stretch
      have := (ih.arguments hnext).lift (Y := Arguments F) (d ++ [.sign ',']) [] fun vs us args _ ha => by
        rw [List.append_assoc]
        exact ⟨_, .more (hX (.sign ',' :: vs) (.cons _ _ _)) ha⟩
      rwa [List.append_assoc] at this
    · exact absurd h (by simp [pure, Except.pure])
  · exact absurd hmore (by simp [pure, Except.pure])

/-- Without fuel the tokens end too early. -/
theorem stopsAt_zero : StopsAt F 0 where
  sum h := absurd h (by simp [Tree.sum])
  sumTail _ h := absurd h (by simp [Tree.sumTail])
  product h := absurd h (by simp [Tree.product])
  productTail _ h := absurd h (by simp [Tree.productTail])
  signed h := absurd h (by simp [Tree.signed])
  power h := absurd h (by simp [Tree.power])
  primary h := absurd h (by simp [Tree.primary])
  arguments h := absurd h (by simp [Tree.arguments])

/-- **The reader stops only at a numeral that it has reached**, with any fuel. -/
theorem stopsAt (F : List Text) : ∀ n, StopsAt F n
  | 0 => stopsAt_zero
  | n + 1 => by
    have ih := stopsAt F n
    refine ⟨?_, sumTail_stops ih, ?_, productTail_stops ih, signed_stops ih, power_stops ih,
      primary_stops ih, arguments_stops ih⟩
    · intro ts k h
      unfold Tree.sum at h
      rcases bind_eq_error.mp h with h | ⟨⟨l, us⟩, hl, h⟩
      · exact (ih.product h).lift [] [] fun vs us t _ ht => ⟨t, .one ht⟩
      · exact ih.sumTail (.one ((soundAt F n).product hl)) h
    · intro ts k h
      unfold Tree.product at h
      rcases bind_eq_error.mp h with h | ⟨⟨l, us⟩, hl, h⟩
      · exact (ih.signed h).lift [] [] fun vs us t _ ht => ⟨t, .one ht⟩
      · exact ih.productTail (.one ((soundAt F n).signed hl)) h

/-! ## What is reached is not passed

The numeral stands somewhere in the stretch of tokens that a derivation is about. Of the parts of the
derivation those in front of the numeral are read as before, and the one that holds it is taken apart
further. -/

/-- A numeral is in the first part of a list or in the second. -/
theorem number_position {front rest d us : List Token} {z : Text}
    (h : front ++ .number z :: rest = d ++ us) :
    (∃ x, d = front ++ .number z :: x ∧ rest = x ++ us) ∨
      ∃ x, front = d ++ x ∧ us = x ++ .number z :: rest := by
  rcases List.append_eq_append_iff.mp h with ⟨x, hd, hx⟩ | ⟨x, hf, hu⟩
  · cases x with
    | nil => exact .inr ⟨[], by rw [hd, List.append_nil, List.append_nil], hx.symm⟩
    | cons tok x =>
      obtain ⟨rfl, rfl⟩ := List.cons.inj hx
      exact .inl ⟨x, hd, rfl⟩
  · exact .inr ⟨x, hf, hu⟩

/-- A numeral is in front of a sign or behind it. -/
theorem number_position_sign {front rest d us : List Token} {z : Text} {c : Char}
    (h : front ++ .number z :: rest = d ++ .sign c :: us) :
    .sign c :: us <:+ rest ∧ (∃ x, d = front ++ .number z :: x) ∨
      ∃ x, front = d ++ .sign c :: x ∧ us = x ++ .number z :: rest := by
  rcases number_position h with ⟨x, hd, rfl⟩ | ⟨x, hf, hu⟩
  · exact .inl ⟨List.suffix_append x _, x, hd⟩
  · cases x with
    | nil => exact absurd (List.cons.inj hu).1 (by simp)
    | cons tok x =>
      obtain ⟨rfl, rfl⟩ := List.cons.inj hu
      exact .inr ⟨x, hf, rfl⟩

theorem not_suffix_of_number {front rest us : List Token} {tok : Token}
    (hu : us = front ++ tok :: rest) (h : us <:+ rest) : False := by
  have := h.length_le
  rw [hu, List.length_append, List.length_cons] at this
  omega

/-- A sign behind which the tokens end is behind the numeral, too. -/
theorem sign_suffix {front rest ts us : List Token} {z : Text} {c : Char}
    (hn : ts = front ++ .number z :: rest) (hs : .sign c :: us <:+ ts) (hu : us <:+ rest) :
    .sign c :: us <:+ rest := by
  obtain ⟨d, rfl⟩ := hs
  rcases number_position_sign hn.symm with ⟨h, -⟩ | ⟨x, -, hx⟩
  · exact h
  · exact (not_suffix_of_number hx hu).elim

mutual

theorem sum_eq_error {s : Text} (hs : TooLong s) : ∀ {ts us : List Token} {t : Tree},
    Additive F ts us t →
    ∀ {front rest : List Token} {z : Text}, ts = front ++ .number z :: rest → us <:+ rest →
    ∀ (back : List Token) (n : Nat), 8 * (front ++ .number s :: back).length + 5 ≤ n →
      Tree.sum F n (front ++ .number s :: back) = .error (.numeralTooLong s.length)
  | _, _, _, .one h, _, _, _, hts, hu, back, n + 1, hn => by
    rw [Tree.sum, product_eq_error hs h hts hu back n (by omega)]
    rfl
  | _, _, _, @Additive.more _ op _ _ _ _ _ hop hl hr, front, rest, z, hts, hu, back, n, hn => by
    obtain ⟨d, -, hd, hX⟩ := hl.stretch
    rcases number_position_sign (hts.symm.trans hd) with ⟨hsign, -⟩ | ⟨x, rfl, hx⟩
    · exact sum_eq_error hs hl hts hsign back n hn
    · have hl' := hX (.sign op.sign :: (x ++ .number s :: back)) (.cons _ _ _)
      rw [List.append_assoc, List.cons_append] at hn ⊢
      refine sum_eq hl' (by rcases hop with rfl | rfl <;> rfl) (fun m hm => ?_) n hn
      obtain ⟨m, rfl⟩ := Nat.exists_eq_succ_of_ne_zero (by omega : m ≠ 0)
      rw [List.length_cons] at hm
      have hp := product_eq_error hs hr hx hu back m (by omega)
      rcases hop with rfl | rfl
      · rw [Operator.sign, Tree.sumTail, hp]
        rfl
      · rw [Operator.sign, Tree.sumTail, hp]
        rfl

theorem product_eq_error {s : Text} (hs : TooLong s) : ∀ {ts us : List Token} {t : Tree},
    Multiplicative F ts us t →
    ∀ {front rest : List Token} {z : Text}, ts = front ++ .number z :: rest → us <:+ rest →
    ∀ (back : List Token) (n : Nat), 8 * (front ++ .number s :: back).length + 4 ≤ n →
      Tree.product F n (front ++ .number s :: back) = .error (.numeralTooLong s.length)
  | _, _, _, .one h, _, _, _, hts, hu, back, n + 1, hn => by
    rw [Tree.product, signed_eq_error hs h hts hu back n (by omega)]
    rfl
  | _, _, _, @Multiplicative.more _ op _ _ _ _ _ hop hl hr, front, rest, z, hts, hu, back, n,
    hn => by
    obtain ⟨d, -, hd, hX⟩ := hl.stretch
    rcases number_position_sign (hts.symm.trans hd) with ⟨hsign, -⟩ | ⟨x, rfl, hx⟩
    · exact product_eq_error hs hl hts hsign back n hn
    · have hl' := hX (.sign op.sign :: (x ++ .number s :: back)) (.cons _ _ _)
      rw [List.append_assoc, List.cons_append] at hn ⊢
      refine product_eq hl' (by rcases hop with rfl | rfl <;> rfl) (fun m hm => ?_) n hn
      obtain ⟨m, rfl⟩ := Nat.exists_eq_succ_of_ne_zero (by omega : m ≠ 0)
      rw [List.length_cons] at hm
      have hr' := signed_eq_error hs hr hx hu back m (by omega)
      rcases hop with rfl | rfl
      · rw [Operator.sign, Tree.productTail, hr']
        rfl
      · rw [Operator.sign, Tree.productTail, hr']
        rfl
  | _, _, _, .implied hl hstart hr, front, rest, z, hts, hu, back, n, hn => by
    obtain ⟨d, -, hd, hX⟩ := hl.stretch
    rcases number_position (hts.symm.trans hd) with ⟨x, -, hx⟩ | ⟨x, rfl, hx⟩
    · exact product_eq_error hs hl hts ⟨x, hx.symm⟩ back n hn
    · have halike := alike_of_number hx s back
      rw [List.append_assoc] at hn ⊢
      refine product_eq (hX _ halike)
        (endsPower_of_startsOperand (halike.starts.trans hstart)) (fun m hm => ?_) n hn
      obtain ⟨m, rfl⟩ := Nat.exists_eq_succ_of_ne_zero (by omega : m ≠ 0)
      rw [productTail_of_startsOperand (halike.starts.trans hstart),
        signed_eq_error hs hr hx hu back m (by omega)]
      rfl

theorem signed_eq_error {s : Text} (hs : TooLong s) : ∀ {ts us : List Token} {t : Tree},
    Signed F ts us t →
    ∀ {front rest : List Token} {z : Text}, ts = front ++ .number z :: rest → us <:+ rest →
    ∀ (back : List Token) (n : Nat), 8 * (front ++ .number s :: back).length + 3 ≤ n →
      Tree.signed F n (front ++ .number s :: back) = .error (.numeralTooLong s.length)
  | _, _, _, .minus h, [], _, _, hts, _, _, _, _ => absurd (List.cons.inj hts).1 (by simp)
  | _, _, _, .minus h, tok :: front, _, _, hts, hu, back, n + 1, hn => by
    obtain ⟨rfl, hrest⟩ := List.cons.inj hts
    rw [List.cons_append, List.length_cons] at hn
    rw [List.cons_append, Tree.signed, signed_eq_error hs h hrest hu back n (by omega)]
    rfl
  | _, _, _, .bare h, front, _, _, hts, hu, back, n + 1, hn => by
    have hstart := (alike_of_number hts s back).starts.trans (startsOperand_of_power h)
    rw [signed_of_startsOperand hstart]
    exact power_eq_error hs h hts hu back n (by omega)

theorem power_eq_error {s : Text} (hs : TooLong s) : ∀ {ts us : List Token} {t : Tree},
    Power F ts us t →
    ∀ {front rest : List Token} {z : Text}, ts = front ++ .number z :: rest → us <:+ rest →
    ∀ (back : List Token) (n : Nat), 8 * (front ++ .number s :: back).length + 2 ≤ n →
      Tree.power F n (front ++ .number s :: back) = .error (.numeralTooLong s.length)
  | _, _, _, .bare h, _, _, _, hts, hu, back, n + 1, hn => by
    rw [Tree.power, primary_eq_error hs h hts hu back n (by omega)]
    rfl
  | _, _, _, .raised hb he, front, rest, z, hts, hu, back, n + 1, hn => by
    obtain ⟨d, -, hd, hX⟩ := hb.stretch
    rcases number_position_sign (hts.symm.trans hd) with ⟨hsign, -⟩ | ⟨x, rfl, hx⟩
    · rw [Tree.power, primary_eq_error hs hb hts hsign back n (by omega)]
      rfl
    · have hb' := hX (.sign '^' :: (x ++ .number s :: back)) (.cons _ _ _)
      rw [List.append_assoc, List.cons_append] at hn ⊢
      have hprimary := primary_eq hb' n (by omega)
      rw [List.length_append, List.length_cons] at hn
      rw [power_of_caret hprimary, signed_eq_error hs he hx hu back n (by omega)]
      rfl

theorem primary_eq_error {s : Text} (hs : TooLong s) : ∀ {ts us : List Token} {t : Tree},
    Primary F ts us t →
    ∀ {front rest : List Token} {z : Text}, ts = front ++ .number z :: rest → us <:+ rest →
    ∀ (back : List Token) (n : Nat), 8 * (front ++ .number s :: back).length + 1 ≤ n →
      Tree.primary F n (front ++ .number s :: back) = .error (.numeralTooLong s.length)
  | _, _, _, .number h, [], _, _, _, _, back, n + 1, _ => by
    rw [List.nil_append, Tree.primary, Numeral.ofSpelling_of_tooLong hs]
    rfl
  | _, _, _, .number h, tok :: front, _, _, hts, hu, _, _, _ =>
    (not_suffix_of_number (List.cons.inj hts).2 hu).elim
  | _, _, _, .name h, [], _, _, hts, _, _, _, _ => absurd (List.cons.inj hts).1 (by simp)
  | _, _, _, .name h, tok :: front, _, _, hts, hu, _, _, _ =>
    (not_suffix_of_number (List.cons.inj hts).2 hu).elim
  | _, _, _, .call hF h, [], _, _, hts, _, _, _, _ => absurd (List.cons.inj hts).1 (by simp)
  | _, _, _, .call hF h, [_], _, _, hts, _, _, _, _ =>
    absurd (List.cons.inj (List.cons.inj hts).2).1 (by simp)
  | _, _, _, .call hF h, tok :: tok' :: front, _, _, hts, hu, back, n + 1, hn => by
    obtain ⟨rfl, hopen⟩ := List.cons.inj hts
    obtain ⟨rfl, hrest⟩ := List.cons.inj hopen
    have hclose := sign_suffix hrest h.after.suffix hu
    rw [List.cons_append, List.cons_append, List.length_cons, List.length_cons] at hn
    rw [List.cons_append, List.cons_append, Tree.primary, if_pos (by simpa using hF),
      arguments_eq_error hs h hrest hclose back n (by omega)]
    rfl
  | _, _, _, .parenthesis h, [], _, _, hts, _, _, _, _ => absurd (List.cons.inj hts).1 (by simp)
  | _, _, _, .parenthesis h, tok :: front, _, _, hts, hu, back, n + 1, hn => by
    obtain ⟨rfl, hrest⟩ := List.cons.inj hts
    have hclose := sign_suffix hrest h.after.suffix hu
    rw [List.cons_append, List.length_cons] at hn
    rw [List.cons_append, Tree.primary, sum_eq_error hs h hrest hclose back n (by omega)]
    rfl

theorem arguments_eq_error {s : Text} (hs : TooLong s) : ∀ {ts us : List Token} {args : List Tree},
    Arguments F ts us args →
    ∀ {front rest : List Token} {z : Text}, ts = front ++ .number z :: rest → us <:+ rest →
    ∀ (back : List Token) (n : Nat), 8 * (front ++ .number s :: back).length + 6 ≤ n →
      Tree.arguments F n (front ++ .number s :: back) = .error (.numeralTooLong s.length)
  | _, _, _, .last h, _, _, _, hts, hu, back, n + 1, hn => by
    rw [Tree.arguments, sum_eq_error hs h hts hu back n (by omega)]
    rfl
  | _, _, _, .more h hm, front, rest, z, hts, hu, back, n + 1, hn => by
    obtain ⟨d, -, hd, hX⟩ := h.stretch
    rcases number_position_sign (hts.symm.trans hd) with ⟨hsign, -⟩ | ⟨x, rfl, hx⟩
    · rw [Tree.arguments, sum_eq_error hs h hts hsign back n (by omega)]
      rfl
    · have h' := hX (.sign ',' :: (x ++ .number s :: back)) (.cons _ _ _)
      rw [List.append_assoc, List.cons_append] at hn ⊢
      have hsum := sum_eq h' (endsProduct_of_endsSum rfl) (fun _ hk => sumTail_of_ends rfl hk _) n
        (by omega)
      rw [List.length_append, List.length_cons] at hn
      rw [arguments_of_comma hsum, arguments_eq_error hs hm hx hu back n (by omega)]
      rfl

end

/-! ## Failures -/

/-- **A list of tokens is read up to a numeral that is too long exactly if the tokens in front of it
are the front of an expression that goes on with a number.** -/
theorem ofTokens?_eq_numeralTooLong {tokens : List Token} :
    ofTokens? F tokens = .error (.numeralTooLong k) ↔
      ∃ front s back, tokens = front ++ .number s :: back ∧ TooLong s ∧ s.length = k ∧
        Viable F front := by
  constructor
  · intro h
    cases tokens with
    | nil => exact absurd h (by simp [ofTokens?])
    | cons tok tokens =>
      rcases bind_eq_error.mp h with h | ⟨⟨t, us⟩, -, h⟩
      · obtain ⟨front, s, back, rest, hts, hs, hk, hX⟩ := (stopsAt F _).sum h
        exact ⟨front, s, back, hts, hs, hk, rest ++ [], hX []⟩
      · cases us <;> exact absurd h (by simp [pure, Except.pure])
  · rintro ⟨front, s, back, rfl, hs, rfl, rest, t, ht⟩
    have hsum := sum_eq_error hs ht rfl List.nil_suffix back
      (8 * (front ++ .number s :: back).length + 8) (by omega)
    rw [ofTokens?, hsum]
    · rfl
    · simp

/-- The numeral `s` is too long, and nothing is wrong with the text in front of it. -/
def Meets (F : List Text) (text s : Text) : Prop :=
  TooLong s ∧ ∃ front back, Token.scan text = .ok (front ++ .number s :: back) ∧ Viable F front

theorem read_eq_numeralTooLong {text : Text} :
    read F text = .error (.numeralTooLong k) ↔ ∃ s, Meets F text s ∧ s.length = k := by
  constructor
  · intro h
    rcases bind_eq_error.mp h with h | ⟨tokens, htokens, h⟩
    · exact absurd (Token.kind_of_scanFrom h) (by simp [Fault.kind])
    · obtain ⟨front, s, back, rfl, hs, hk, hviable⟩ := ofTokens?_eq_numeralTooLong.mp h
      exact ⟨s, ⟨hs, front, back, htokens, hviable⟩, hk⟩
  · rintro ⟨s, ⟨hs, front, back, hscan, hviable⟩, hk⟩
    rw [read, hscan, ok_bind]
    exact ofTokens?_eq_numeralTooLong.mpr ⟨front, s, back, rfl, hs, hk, hviable⟩

/-- **How a text can fail to be read, and what a trace makes of it.** Either the text is unreadable,
and then the trace of it is one step that says so; or the reader has met a numeral that is too long,
which it does exactly if nothing is wrong before, and then the trace fails with it. In neither case is
the engine asked for anything. -/
theorem failure_modes (F : List Text) (text : Text) :
    (∀ fault, read F text = .error fault → fault.kind = .unreadable ∨
        ∃ s, Meets F text s ∧ fault = .numeralTooLong s.length) ∧
      (∀ s, Meets F text s → read F text = .error (.numeralTooLong s.length)) ∧
      ∀ (engine : Engine) (config : Config) (session : Session),
        engine.read config.functions = read F → ∀ fault, read F text = .error fault →
          Trace.trace engine config text session =
            if fault.kind = .unreadable then (.ok [Trace.unreadable text], session)
            else (.error fault, session) := by
  refine ⟨fun fault h => ?_, fun s hs => ?_, fun engine config session hread fault h => ?_⟩
  · refine (read_eq_error h).imp_right ?_
    rintro ⟨n, -, rfl⟩
    obtain ⟨s, hs, rfl⟩ := read_eq_numeralTooLong.mp h
    exact ⟨s, hs, rfl⟩
  · exact read_eq_numeralTooLong.mpr ⟨s, hs, rfl⟩
  · rw [← hread] at h
    split
    next hk => exact Trace.trace_unreadable engine config h hk session
    next hk =>
      unfold Trace.trace
      rw [h]
      dsimp only
      rw [if_neg hk]
      rfl

theorem scan_digits {w : Text} (hw : Token.AllDigits w) (hne : w ≠ []) :
    Token.scan w = .ok [.number w] :=
  Token.scan_eq_ok.mpr (Token.cuts_spelling (wellSpelled_digits hw hne))

/-- A text of many digits. -/
def nines : Text := List.replicate 4301 '9'

theorem meets_nines (F : List Text) : Meets F nines nines := by
  have hmem : ∀ c ∈ nines, c = '9' := fun _ hc => List.eq_of_mem_replicate hc
  have hlength : nines.length = 4301 := List.length_replicate
  have hdigits : Token.AllDigits nines := fun c hc => by rw [hmem c hc]; decide
  have hne : nines ≠ [] := List.ne_nil_of_length_pos (by omega)
  have hwhole : nines.any (".eE".toList.contains ·) = false :=
    List.any_eq_false.mpr fun c hc => by rw [hmem c hc]; decide
  have hlong : Fault.digitLimit < nines.length := by rw [hlength]; decide
  exact ⟨⟨hwhole, hlong⟩, [], [], scan_digits hdigits hne, [], _,
    .one (.one (.bare (.bare (.number rfl))))⟩

/-- Two signs in a row are one step of a trace, and a numeral that is too long is none. -/
theorem failure_modes_nines :
    Trace.trace (.ofReplies []) .default "2++3".toList .start =
        (.ok [Trace.unreadable "2++3".toList], .start) ∧
      Trace.trace (.ofReplies []) .default nines .start = (.error (.numeralTooLong 4301), .start) := by
  have hplus : read Config.default.functions "2++3".toList = .error (.unexpectedToken ['+']) := by rfl
  have hlength : nines.length = 4301 := List.length_replicate
  have hnines := (failure_modes Config.default.functions nines).2.1 nines (meets_nines _)
  rw [hlength] at hnines
  constructor
  · exact (failure_modes _ _).2.2 (.ofReplies []) .default .start rfl _ hplus
  · exact (failure_modes _ _).2.2 (.ofReplies []) .default .start rfl _ hnines

/-- Not every text has a tree or is unreadable. -/
theorem read_nines :
    ¬((∃ t, read defaultFunctions nines = .ok t) ∨
      ∃ fault, read defaultFunctions nines = .error fault ∧ fault.kind = .unreadable) := by
  have hread := read_eq_numeralTooLong.mpr ⟨nines, meets_nines defaultFunctions, rfl⟩
  rintro (⟨t, ht⟩ | ⟨fault, hf, hk⟩)
  · exact absurd (ht.symm.trans hread) (by simp)
  · obtain rfl := Except.error.inj (hf.symm.trans hread)
    exact absurd hk (by simp [Fault.kind])

end Tree

end Stepwise
