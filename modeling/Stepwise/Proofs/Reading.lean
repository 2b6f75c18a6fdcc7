import Stepwise.Proofs.Grammar
import Stepwise.Proofs.Outcome

/-!
# The reader accepts exactly its grammar

Results: `soundAt`, what a function of the reader reads with any fuel is derived;
`ofTokens?_eq_ok`, what is derived is read; `blamesAt`, a list that cannot be read is called
unreadable, unless a numeral of it is at fault; and from these `read_iff_derives`.
-/

namespace Stepwise.Tree

open Grammar

variable {F : List Text}

/-! ## Soundness -/

/-- What the functions of the reader read with fuel `n` is derived. The tails of sums and products
are given what was derived before them. -/
structure SoundAt (F : List Text) (n : Nat) : Prop where
  sum : ∀ {ts us t}, Tree.sum F n ts = .ok (t, us) → Additive F ts us t
  sumTail : ∀ {ts₀ ts us l t}, Additive F ts₀ ts l → Tree.sumTail F n l ts = .ok (t, us) →
    Additive F ts₀ us t
  product : ∀ {ts us t}, Tree.product F n ts = .ok (t, us) → Multiplicative F ts us t
  productTail : ∀ {ts₀ ts us l t}, Multiplicative F ts₀ ts l →
    Tree.productTail F n l ts = .ok (t, us) → Multiplicative F ts₀ us t
  signed : ∀ {ts us t}, Tree.signed F n ts = .ok (t, us) → Signed F ts us t
  power : ∀ {ts us t}, Tree.power F n ts = .ok (t, us) → Power F ts us t
  primary : ∀ {ts us t}, Tree.primary F n ts = .ok (t, us) → Primary F ts us t
  arguments : ∀ {ts us args}, Tree.arguments F n ts = .ok (args, us) → Arguments F ts us args

theorem expectClose_eq_ok {ts us : List Token} :
    expectClose ts = .ok us ↔ ts = .sign ')' :: us := by
  constructor
  · intro h
    unfold expectClose at h
    split at h
    · obtain rfl := Except.ok.inj h
      rfl
    · exact absurd h (by simp)
    · exact absurd h (by simp)
  · rintro rfl
    rfl

theorem sumTail_sound {n : Nat} (ih : SoundAt F n) {ts₀ ts us : List Token} {l t : Tree}
    (hl : Additive F ts₀ ts l) (h : Tree.sumTail F (n + 1) l ts = .ok (t, us)) :
    Additive F ts₀ us t := by
  unfold Tree.sumTail at h
  split at h
  · obtain ⟨⟨r, vs⟩, hr, h⟩ := bind_eq_ok.mp h
    exact ih.sumTail (.more (.inl rfl) hl (ih.product hr)) h
  · obtain ⟨⟨r, vs⟩, hr, h⟩ := bind_eq_ok.mp h
    exact ih.sumTail (.more (.inr rfl) hl (ih.product hr)) h
  · obtain ⟨rfl, rfl⟩ := Prod.mk.inj (Except.ok.inj h)
    exact hl

theorem productTail_sound {n : Nat} (ih : SoundAt F n) {ts₀ ts us : List Token} {l t : Tree}
    (hl : Multiplicative F ts₀ ts l) (h : Tree.productTail F (n + 1) l ts = .ok (t, us)) :
    Multiplicative F ts₀ us t := by
  unfold Tree.productTail at h
  split at h
  · obtain ⟨⟨r, vs⟩, hr, h⟩ := bind_eq_ok.mp h
    exact ih.productTail (.more (.inl rfl) hl (ih.signed hr)) h
  · obtain ⟨⟨r, vs⟩, hr, h⟩ := bind_eq_ok.mp h
    exact ih.productTail (.more (.inr rfl) hl (ih.signed hr)) h
  · split at h
    next hs =>
      obtain ⟨⟨r, vs⟩, hr, h⟩ := bind_eq_ok.mp h
      exact ih.productTail (.implied hl hs (ih.signed hr)) h
    next =>
      obtain ⟨rfl, rfl⟩ := Prod.mk.inj (Except.ok.inj h)
      exact hl

theorem signed_sound {n : Nat} (ih : SoundAt F n) {ts us : List Token} {t : Tree}
    (h : Tree.signed F (n + 1) ts = .ok (t, us)) : Signed F ts us t := by
  unfold Tree.signed at h
  split at h
  · obtain ⟨⟨u, vs⟩, hu, h⟩ := bind_eq_ok.mp h
    obtain ⟨rfl, rfl⟩ := Prod.mk.inj (Except.ok.inj h)
    exact .minus (ih.signed hu)
  · exact .bare (ih.power h)

theorem power_sound {n : Nat} (ih : SoundAt F n) {ts us : List Token} {t : Tree}
    (h : Tree.power F (n + 1) ts = .ok (t, us)) : Power F ts us t := by
  unfold Tree.power at h
  obtain ⟨⟨b, vs⟩, hb, h⟩ := bind_eq_ok.mp h
  dsimp only at h
  split at h
  · obtain ⟨⟨e, ws⟩, he, h⟩ := bind_eq_ok.mp h
    obtain ⟨rfl, rfl⟩ := Prod.mk.inj (Except.ok.inj h)
    exact .raised (ih.primary hb) (ih.signed he)
  · obtain ⟨rfl, rfl⟩ := Prod.mk.inj (Except.ok.inj h)
    exact .bare (ih.primary hb)

theorem primary_sound {n : Nat} (ih : SoundAt F n) {ts us : List Token} {t : Tree}
    (h : Tree.primary F (n + 1) ts = .ok (t, us)) : Primary F ts us t := by
  unfold Tree.primary at h
  split at h
  · exact absurd h (by simp)
  · obtain ⟨v, hv, h⟩ := bind_eq_ok.mp h
    obtain ⟨rfl, rfl⟩ := Prod.mk.inj (Except.ok.inj h)
    exact .number hv
  · split at h
    next hs =>
      obtain ⟨⟨args, vs⟩, ha, h⟩ := bind_eq_ok.mp h
      obtain ⟨ws, hc, h⟩ := bind_eq_ok.mp h
      obtain ⟨rfl, rfl⟩ := Prod.mk.inj (Except.ok.inj h)
      obtain rfl := expectClose_eq_ok.mp hc
      exact .call (by simpa using hs) (ih.arguments ha)
    next hs =>
      obtain ⟨rfl, rfl⟩ := Prod.mk.inj (Except.ok.inj h)
      exact .name fun ⟨hF, _⟩ => hs (by simpa using hF)
  next hne =>
    obtain ⟨rfl, rfl⟩ := Prod.mk.inj (Except.ok.inj h)
    refine .name fun ⟨_, hc⟩ => ?_
    obtain ⟨vs, rfl⟩ := List.head?_eq_some_iff.mp hc
    exact hne _ rfl
  · obtain ⟨⟨c, vs⟩, hc, h⟩ := bind_eq_ok.mp h
    obtain ⟨ws, he, h⟩ := bind_eq_ok.mp h
    obtain ⟨rfl, rfl⟩ := Prod.mk.inj (Except.ok.inj h)
    obtain rfl := expectClose_eq_ok.mp he
    exact .parenthesis (ih.sum hc)
  · exact absurd h (by simp)

theorem arguments_sound {n : Nat} (ih : SoundAt F n) {ts us : List Token} {args : List Tree}
    (h : Tree.arguments F (n + 1) ts = .ok (args, us)) : Arguments F ts us args := by
  unfold Tree.arguments at h
  obtain ⟨⟨t, vs⟩, ht, h⟩ := bind_eq_ok.mp h
  dsimp only at h
  split at h
  · obtain ⟨⟨more, ws⟩, hm, h⟩ := bind_eq_ok.mp h
    obtain ⟨rfl, rfl⟩ := Prod.mk.inj (Except.ok.inj h)
    exact .more (ih.sum ht) (ih.arguments hm)
  · obtain ⟨rfl, rfl⟩ := Prod.mk.inj (Except.ok.inj h)
    exact .last (ih.sum ht)

/-- Nothing is read without fuel. -/
theorem soundAt_zero : SoundAt F 0 where
  sum h := absurd h (by simp [Tree.sum])
  sumTail _ h := absurd h (by simp [Tree.sumTail])
  product h := absurd h (by simp [Tree.product])
  productTail _ h := absurd h (by simp [Tree.productTail])
  signed h := absurd h (by simp [Tree.signed])
  power h := absurd h (by simp [Tree.power])
  primary h := absurd h (by simp [Tree.primary])
  arguments h := absurd h (by simp [Tree.arguments])

/-- **What is read is derived**, with any fuel. -/
theorem soundAt (F : List Text) : ∀ n, SoundAt F n
  | 0 => soundAt_zero
  | n + 1 => by
    have ih := soundAt F n
    refine ⟨?_, sumTail_sound ih, ?_, productTail_sound ih, signed_sound ih, power_sound ih,
      primary_sound ih, arguments_sound ih⟩
    · intro ts us t h
      unfold Tree.sum at h
      obtain ⟨⟨l, vs⟩, hl, h⟩ := bind_eq_ok.mp h
      exact ih.sumTail (.one (ih.product hl)) h
    · intro ts us t h
      unfold Tree.product at h
      obtain ⟨⟨l, vs⟩, hl, h⟩ := bind_eq_ok.mp h
      exact ih.productTail (.one (ih.signed hl)) h

/-! ## Completeness

The reader never looks back: a power ends where no `^` follows, a product where no factor follows,
and a sum before the end, a comma or a closing parenthesis. Where a stretch may go on, what is read
of it is stated for every way `R` in which the tail goes on. A list of `k` tokens takes fuel
`8 * k` and a little more, the more the looser the level: every token read frees eight units, and
no level is more than five above the tightest. -/

/-- Can a power end before these tokens? -/
def endsPower : List Token → Bool
  | .sign '^' :: _ => false
  | _ => true

/-- Can a product end before these tokens? -/
def endsProduct : List Token → Bool
  | [] => true
  | .sign c :: _ => c != '^' && c != '*' && c != '/' && c != '('
  | _ => false

/-- Can a sum end before these tokens? -/
def endsSum : List Token → Bool
  | [] => true
  | .sign c :: _ => c == ')' || c == ','
  | _ => false

theorem endsPower_of_endsProduct {us : List Token} (h : endsProduct us = true) :
    endsPower us = true := by
  unfold endsPower
  split
  · exact absurd h (by simp [endsProduct])
  · rfl

theorem endsProduct_of_endsSum {us : List Token} (h : endsSum us = true) :
    endsProduct us = true := by
  unfold endsSum at h
  split at h
  · rfl
  · rcases Bool.or_eq_true_iff.mp h with h | h
    · obtain rfl := eq_of_beq h
      rfl
    · obtain rfl := eq_of_beq h
      rfl
  · exact absurd h (by simp)

theorem endsSum_of_close {us : List Token} (h : us.head? = some (.sign ')')) :
    endsSum us = true := by
  obtain ⟨vs, rfl⟩ := List.head?_eq_some_iff.mp h
  rfl

theorem endsPower_of_startsOperand {us : List Token} (h : startsOperand us = true) :
    endsPower us = true := by
  unfold endsPower
  split
  · exact absurd h (by simp [startsOperand])
  · rfl

theorem sumTail_of_ends {us : List Token} (h : endsSum us = true) {k n : Nat} (hn : k + 1 ≤ n)
    (l : Tree) : Tree.sumTail F n l us = .ok (l, us) := by
  obtain ⟨n, rfl⟩ := Nat.exists_eq_add_of_lt hn
  unfold Tree.sumTail
  split
  · exact absurd h (by simp [endsSum])
  · exact absurd h (by simp [endsSum])
  · rfl

theorem productTail_of_ends {us : List Token} (h : endsProduct us = true) {k n : Nat}
    (hn : k + 1 ≤ n) (l : Tree) : Tree.productTail F n l us = .ok (l, us) := by
  obtain ⟨n, rfl⟩ := Nat.exists_eq_add_of_lt hn
  unfold Tree.productTail
  split
  · exact absurd h (by simp [endsProduct])
  · exact absurd h (by simp [endsProduct])
  · rw [if_neg]
    unfold startsOperand
    split
    · exact absurd h (by simp [endsProduct])
    · exact absurd h (by simp [endsProduct])
    · exact absurd h (by simp [endsProduct])
    · exact Bool.false_ne_true

theorem productTail_of_startsOperand {us : List Token} (h : startsOperand us = true) (n : Nat)
    (l : Tree) : Tree.productTail F (n + 1) l us = (do
      let (r, us) ← Tree.signed F n us
      Tree.productTail F n (.operation .times l r) us) := by
  rw [Tree.productTail, if_pos h]
  · rintro vs rfl
    exact absurd h (by simp [startsOperand])
  · rintro vs rfl
    exact absurd h (by simp [startsOperand])

theorem signed_of_startsOperand {ts : List Token} (h : startsOperand ts = true) (n : Nat) :
    Tree.signed F (n + 1) ts = Tree.power F n ts := by
  rw [Tree.signed]
  rintro vs rfl
  exact absurd h (by simp [startsOperand])

theorem startsOperand_of_primary {ts us : List Token} {t : Tree} (h : Primary F ts us t) :
    startsOperand ts = true := by
  cases h <;> rfl

theorem startsOperand_of_power {ts us : List Token} {t : Tree} (h : Power F ts us t) :
    startsOperand ts = true := by
  cases h with
  | bare h => exact startsOperand_of_primary h
  | raised h _ => exact startsOperand_of_primary h

theorem power_of_caret {ts us : List Token} {b : Tree} {n : Nat}
    (h : Tree.primary F n ts = .ok (b, .sign '^' :: us)) : Tree.power F (n + 1) ts = (do
      let (e, us) ← Tree.signed F n us
      return (.operation .power b e, us)) := by
  rw [Tree.power, h]
  rfl

theorem primary_of_name {us : List Token} {s : Text}
    (h : ¬(s ∈ F ∧ us.head? = some (.sign '('))) (n : Nat) :
    Tree.primary F (n + 1) (.name s :: us) = .ok (.name s, us) := by
  by_cases hc : us.head? = some (.sign '(')
  · obtain ⟨vs, rfl⟩ := List.head?_eq_some_iff.mp hc
    rw [Tree.primary, if_neg fun hF => h ⟨by simpa using hF, hc⟩]
    rfl
  · rw [Tree.primary]
    · rfl
    · rintro vs rfl
      exact hc rfl

theorem arguments_of_comma {ts us : List Token} {t : Tree} {n : Nat}
    (h : Tree.sum F n ts = .ok (t, .sign ',' :: us)) : Tree.arguments F (n + 1) ts = (do
      let (more, us) ← Tree.arguments F n us
      return (t :: more, us)) := by
  rw [Tree.arguments, h]
  rfl

mutual

theorem sum_eq {R : Reading} : ∀ {ts us : List Token} {t : Tree}, Additive F ts us t →
    endsProduct us = true → (∀ n, 8 * us.length + 1 ≤ n → Tree.sumTail F n t us = R) →
    ∀ n, 8 * ts.length + 5 ≤ n → Tree.sum F n ts = R
  | _, _, _, .one h, hu, hR, n + 1, hn => by
    have := h.after.length_lt
    have hp := product_eq h (endsPower_of_endsProduct hu)
      (fun _ hm => productTail_of_ends hu hm _) n (by omega)
    rw [Tree.sum, hp, ok_bind]
    exact hR n (by omega)
  | _, _, _, .more hop hl hr, hu, hR, n, hn => by
    refine sum_eq hl (by rcases hop with rfl | rfl <;> rfl) (fun m hm => ?_) n hn
    obtain ⟨m, rfl⟩ := Nat.exists_eq_succ_of_ne_zero (by omega : m ≠ 0)
    have := hr.after.length_lt
    rw [List.length_cons] at hm
    have hp := product_eq hr (endsPower_of_endsProduct hu)
      (fun _ hk => productTail_of_ends hu hk _) m (by omega)
    rcases hop with rfl | rfl
    · rw [Operator.sign, Tree.sumTail, hp, ok_bind]
      exact hR m (by omega)
    · rw [Operator.sign, Tree.sumTail, hp, ok_bind]
      exact hR m (by omega)

theorem product_eq {R : Reading} : ∀ {ts us : List Token} {t : Tree}, Multiplicative F ts us t →
    endsPower us = true → (∀ n, 8 * us.length + 4 ≤ n → Tree.productTail F n t us = R) →
    ∀ n, 8 * ts.length + 4 ≤ n → Tree.product F n ts = R
  | _, _, _, .one h, hu, hR, n + 1, hn => by
    have := h.after.length_lt
    rw [Tree.product, signed_eq h hu n (by omega), ok_bind]
    exact hR n (by omega)
  | _, _, _, .more hop hl hr, hu, hR, n, hn => by
    refine product_eq hl (by rcases hop with rfl | rfl <;> rfl) (fun m hm => ?_) n hn
    obtain ⟨m, rfl⟩ := Nat.exists_eq_succ_of_ne_zero (by omega : m ≠ 0)
    have := hr.after.length_lt
    rw [List.length_cons] at hm
    have hs := signed_eq hr hu m (by omega)
    rcases hop with rfl | rfl
    · rw [Operator.sign, Tree.productTail, hs, ok_bind]
      exact hR m (by omega)
    · rw [Operator.sign, Tree.productTail, hs, ok_bind]
      exact hR m (by omega)
  | _, _, _, .implied hl hs hr, hu, hR, n, hn => by
    refine product_eq hl (endsPower_of_startsOperand hs) (fun m hm => ?_) n hn
    obtain ⟨m, rfl⟩ := Nat.exists_eq_succ_of_ne_zero (by omega : m ≠ 0)
    have := hr.after.length_lt
    rw [productTail_of_startsOperand hs, signed_eq hr hu m (by omega), ok_bind]
    exact hR m (by omega)

theorem signed_eq : ∀ {ts us : List Token} {t : Tree}, Signed F ts us t → endsPower us = true →
    ∀ n, 8 * ts.length + 3 ≤ n → Tree.signed F n ts = .ok (t, us)
  | _, _, _, .minus h, hu, n + 1, hn => by
    rw [List.length_cons] at hn
    rw [Tree.signed, signed_eq h hu n (by omega), ok_bind]
    rfl
  | _, _, _, .bare h, hu, n + 1, hn => by
    rw [signed_of_startsOperand (startsOperand_of_power h)]
    exact power_eq h hu n (by omega)

theorem power_eq : ∀ {ts us : List Token} {t : Tree}, Power F ts us t → endsPower us = true →
    ∀ n, 8 * ts.length + 2 ≤ n → Tree.power F n ts = .ok (t, us)
  | _, _, _, .bare h, hu, n + 1, hn => by
    rw [Tree.power, primary_eq h n (by omega), ok_bind]
    dsimp only
    split
    · exact absurd hu (by simp [endsPower])
    · rfl
  | _, _, _, .raised hb he, hu, n + 1, hn => by
    have := hb.after.length_lt
    rw [List.length_cons] at this
    rw [power_of_caret (primary_eq hb n (by omega)), signed_eq he hu n (by omega), ok_bind]
    rfl

theorem primary_eq : ∀ {ts us : List Token} {t : Tree}, Primary F ts us t →
    ∀ n, 8 * ts.length + 1 ≤ n → Tree.primary F n ts = .ok (t, us)
  | _, _, _, .number h, n + 1, _ => by
    rw [Tree.primary, h, ok_bind]
    rfl
  | _, _, _, .name h, n + 1, _ => primary_of_name h n
  | _, _, _, .call hs h, n + 1, hn => by
    rw [List.length_cons, List.length_cons] at hn
    rw [Tree.primary, if_pos (by simpa using hs), arguments_eq h rfl n (by omega), ok_bind]
    rfl
  | _, _, _, .parenthesis h, n + 1, hn => by
    rw [List.length_cons] at hn
    have hc := sum_eq h (endsProduct_of_endsSum rfl) (fun _ hm => sumTail_of_ends rfl hm _) n
      (by omega)
    rw [Tree.primary, hc, ok_bind]
    rfl

theorem arguments_eq : ∀ {ts us : List Token} {args : List Tree}, Arguments F ts us args →
    us.head? = some (.sign ')') → ∀ n, 8 * ts.length + 6 ≤ n →
    Tree.arguments F n ts = .ok (args, us)
  | _, _, _, .last h, hu, n + 1, hn => by
    have hend := endsSum_of_close hu
    rw [Tree.arguments, sum_eq h (endsProduct_of_endsSum hend)
      (fun _ hm => sumTail_of_ends hend hm _) n (by omega), ok_bind]
    dsimp only
    split
    · exact absurd hu (by simp)
    · rfl
  | _, _, _, .more h hs, hu, n + 1, hn => by
    have := h.after.length_lt
    rw [List.length_cons] at this
    have hc := sum_eq h (endsProduct_of_endsSum rfl) (fun _ hm => sumTail_of_ends rfl hm _) n
      (by omega)
    rw [arguments_of_comma hc, arguments_eq hs hu n (by omega), ok_bind]
    rfl

end

/-- **The reader of token lists decides the grammar**, and so no list derives two trees. -/
theorem ofTokens?_eq_ok {tokens : List Token} {t : Tree} :
    ofTokens? F tokens = .ok t ↔ Derives F tokens t := by
  cases tokens with
  | nil =>
    refine ⟨fun h => absurd h (by simp [ofTokens?]), fun h => ?_⟩
    exact absurd h.after.length_lt (Nat.lt_irrefl 0)
  | cons tok tokens =>
    constructor
    · intro h
      obtain ⟨⟨t', us⟩, hs, h⟩ := bind_eq_ok.mp h
      cases us with
      | nil =>
        obtain rfl := Except.ok.inj h
        exact (soundAt F _).sum hs
      | cons u us => exact absurd h (by simp)
    · intro h
      have hs := sum_eq h rfl (fun _ hm => sumTail_of_ends rfl hm _)
        (8 * (tok :: tokens).length + 8) (by omega)
      rw [ofTokens?, hs]
      · rfl
      · exact List.cons_ne_nil _ _

/-! ## Faults -/

/-- The fault says that the tokens cannot be read, or else it is that of a numeral among them. -/
def Blames (ts : List Token) (e : Fault) : Prop :=
  e.kind = .unreadable ∨ ∃ s, Token.number s ∈ ts ∧ Numeral.ofSpelling s = .error e

theorem Blames.mono {ts us : List Token} {e : Fault} (h : Blames us e) (hs : us <:+ ts) :
    Blames ts e :=
  h.imp_right fun ⟨s, hm, he⟩ => ⟨s, hs.subset hm, he⟩

theorem Blames.cons {ts : List Token} {e : Fault} (tok : Token) (h : Blames ts e) :
    Blames (tok :: ts) e := h.mono (List.suffix_cons tok ts)

/-- Every fault of the functions of the reader with fuel `n` blames the tokens they are given. -/
structure BlamesAt (F : List Text) (n : Nat) : Prop where
  sum : ∀ {ts e}, Tree.sum F n ts = .error e → Blames ts e
  sumTail : ∀ {l ts e}, Tree.sumTail F n l ts = .error e → Blames ts e
  product : ∀ {ts e}, Tree.product F n ts = .error e → Blames ts e
  productTail : ∀ {l ts e}, Tree.productTail F n l ts = .error e → Blames ts e
  signed : ∀ {ts e}, Tree.signed F n ts = .error e → Blames ts e
  power : ∀ {ts e}, Tree.power F n ts = .error e → Blames ts e
  primary : ∀ {ts e}, Tree.primary F n ts = .error e → Blames ts e
  arguments : ∀ {ts e}, Tree.arguments F n ts = .error e → Blames ts e

theorem blames_unexpectedEnd {α : Type} {ts : List Token} {e : Fault}
    (h : (.error .unexpectedEnd : Except Fault α) = .error e) : Blames ts e := by
  obtain rfl := Except.error.inj h
  exact .inl rfl

theorem expectClose_blames {ts : List Token} {e : Fault} (h : expectClose ts = .error e) :
    Blames ts e := by
  unfold expectClose at h
  split at h
  · exact absurd h (by simp)
  · obtain rfl := Except.error.inj h
    exact .inl rfl
  · obtain rfl := Except.error.inj h
    exact .inl rfl

/-- A bind blames the tokens if its first part does, or the second part the tokens left over. -/
theorem blames_bind {α β : Type} {x : Except Fault (α × List Token)}
    {f : α × List Token → Except Fault β} {ts : List Token} {e : Fault}
    (h : (x >>= f) = .error e) (hx : x = .error e → Blames ts e)
    (hf : ∀ a us, x = .ok (a, us) → f (a, us) = .error e → Blames us e ∧ us <:+ ts) :
    Blames ts e := by
  rcases bind_eq_error.mp h with h | ⟨⟨a, us⟩, ha, h⟩
  · exact hx h
  · have ⟨hb, hs⟩ := hf a us ha h
    exact hb.mono hs

theorem sumTail_blames {n : Nat} (ih : BlamesAt F n) {l : Tree} {ts : List Token} {e : Fault}
    (h : Tree.sumTail F (n + 1) l ts = .error e) : Blames ts e := by
  unfold Tree.sumTail at h
  split at h
  · refine (blames_bind h ih.product fun r us hr h => ?_).cons _
    exact ⟨ih.sumTail h, ((soundAt F n).product hr).after.suffix⟩
  · refine (blames_bind h ih.product fun r us hr h => ?_).cons _
    exact ⟨ih.sumTail h, ((soundAt F n).product hr).after.suffix⟩
  · exact absurd h (by simp)

theorem productTail_blames {n : Nat} (ih : BlamesAt F n) {l : Tree} {ts : List Token} {e : Fault}
    (h : Tree.productTail F (n + 1) l ts = .error e) : Blames ts e := by
  unfold Tree.productTail at h
  split at h
  · refine (blames_bind h ih.signed fun r us hr h => ?_).cons _
    exact ⟨ih.productTail h, ((soundAt F n).signed hr).after.suffix⟩
  · refine (blames_bind h ih.signed fun r us hr h => ?_).cons _
    exact ⟨ih.productTail h, ((soundAt F n).signed hr).after.suffix⟩
  · split at h
    · refine blames_bind h ih.signed fun r us hr h => ?_
      exact ⟨ih.productTail h, ((soundAt F n).signed hr).after.suffix⟩
    · exact absurd h (by simp)

theorem signed_blames {n : Nat} (ih : BlamesAt F n) {ts : List Token} {e : Fault}
    (h : Tree.signed F (n + 1) ts = .error e) : Blames ts e := by
  unfold Tree.signed at h
  split at h
  · exact (blames_bind h ih.signed fun _ _ _ h => absurd h (by simp [pure, Except.pure])).cons _
  · exact ih.power h

theorem power_blames {n : Nat} (ih : BlamesAt F n) {ts : List Token} {e : Fault}
    (h : Tree.power F (n + 1) ts = .error e) : Blames ts e := by
  unfold Tree.power at h
  refine blames_bind h ih.primary fun b us hb h => ⟨?_, ((soundAt F n).primary hb).after.suffix⟩
  dsimp only at h
  split at h
  · exact (blames_bind h ih.signed fun _ _ _ h => absurd h (by simp [pure, Except.pure])).cons _
  · exact absurd h (by simp [pure, Except.pure])

theorem primary_blames {n : Nat} (ih : BlamesAt F n) {ts : List Token} {e : Fault}
    (h : Tree.primary F (n + 1) ts = .error e) : Blames ts e := by
  unfold Tree.primary at h
  split at h
  · obtain rfl := Except.error.inj h
    exact .inl rfl
  · rcases bind_eq_error.mp h with h | ⟨v, _, h⟩
    · exact .inr ⟨_, List.mem_cons_self, h⟩
    · exact absurd h (by simp [pure, Except.pure])
  · split at h
    · refine ((blames_bind h ih.arguments fun args us ha h => ?_).cons _).cons _
      refine ⟨?_, ((soundAt F n).arguments ha).after.suffix⟩
      rcases bind_eq_error.mp h with h | ⟨vs, _, h⟩
      · exact expectClose_blames h
      · exact absurd h (by simp [pure, Except.pure])
    · exact absurd h (by simp [pure, Except.pure])
  · exact absurd h (by simp [pure, Except.pure])
  · refine (blames_bind h ih.sum fun c us hc h => ?_).cons _
    refine ⟨?_, ((soundAt F n).sum hc).after.suffix⟩
    rcases bind_eq_error.mp h with h | ⟨vs, _, h⟩
    · exact expectClose_blames h
    · exact absurd h (by simp [pure, Except.pure])
  · obtain rfl := Except.error.inj h
    exact .inl rfl

theorem arguments_blames {n : Nat} (ih : BlamesAt F n) {ts : List Token} {e : Fault}
    (h : Tree.arguments F (n + 1) ts = .error e) : Blames ts e := by
  unfold Tree.arguments at h
  refine blames_bind h ih.sum fun t us ht h => ⟨?_, ((soundAt F n).sum ht).after.suffix⟩
  dsimp only at h
  split at h
  · exact (blames_bind h ih.arguments fun _ _ _ h => absurd h (by simp [pure, Except.pure])).cons _
  · exact absurd h (by simp [pure, Except.pure])

/-- Without fuel the tokens end too early. -/
theorem blamesAt_zero : BlamesAt F 0 where
  sum := blames_unexpectedEnd
  sumTail := blames_unexpectedEnd
  product := blames_unexpectedEnd
  productTail := blames_unexpectedEnd
  signed := blames_unexpectedEnd
  power := blames_unexpectedEnd
  primary := blames_unexpectedEnd
  arguments := blames_unexpectedEnd

/-- **Every fault blames the tokens**, with any fuel. -/
theorem blamesAt (F : List Text) : ∀ n, BlamesAt F n
  | 0 => blamesAt_zero
  | n + 1 => by
    have ih := blamesAt F n
    refine ⟨?_, sumTail_blames ih, ?_, productTail_blames ih, signed_blames ih, power_blames ih,
      primary_blames ih, arguments_blames ih⟩
    · intro ts e h
      unfold Tree.sum at h
      exact blames_bind h ih.product fun l us hl h =>
        ⟨ih.sumTail h, ((soundAt F n).product hl).after.suffix⟩
    · intro ts e h
      unfold Tree.product at h
      exact blames_bind h ih.signed fun l us hl h =>
        ⟨ih.productTail h, ((soundAt F n).signed hl).after.suffix⟩

theorem ofTokens?_blames {tokens : List Token} {e : Fault} (h : ofTokens? F tokens = .error e) :
    Blames tokens e := by
  cases tokens with
  | nil =>
    obtain rfl := Except.error.inj h
    exact .inl rfl
  | cons tok tokens =>
    refine blames_bind h (blamesAt F _).sum fun t us ht h => ?_
    refine ⟨?_, ((soundAt F _).sum ht).after.suffix⟩
    cases us with
    | nil => exact absurd h (by simp [pure, Except.pure])
    | cons u us =>
      obtain rfl := Except.error.inj h
      exact .inl rfl

/-! ## The reader and the grammar -/

/-- An integer numeral of at most 4300 digits has a value, and so has every other numeral. -/
theorem ofSpelling_isOk {s : Text}
    (h : s.any (".eE".toList.contains ·) = false → s.length ≤ Fault.digitLimit) :
    ∃ n, Numeral.ofSpelling s = .ok n := by
  unfold Numeral.ofSpelling
  cases hp : s.any (".eE".toList.contains ·) with
  | true => exact ⟨_, if_pos rfl⟩
  | false =>
    refine ⟨_, (if_neg Bool.false_ne_true).trans (if_neg ?_)⟩
    exact Nat.not_lt.mpr (h hp)

/-- **The reader accepts exactly its grammar.** On a text that can be cut into tokens, of which
the integers have at most 4300 digits, a tree is read if and only if the tokens derive it; they
derive at most one tree; and if they derive none, the text is unreadable. -/
theorem read_iff_derives {text : Text} {tokens : List Token} (hs : Token.scan text = .ok tokens)
    (hd : ∀ s, Token.number s ∈ tokens → s.any (".eE".toList.contains ·) = false →
      s.length ≤ Fault.digitLimit) :
    (∀ t, read F text = .ok t ↔ Derives F tokens t) ∧
      (∀ t u, Derives F tokens t → Derives F tokens u → t = u) ∧
      ((∀ t, ¬ Derives F tokens t) → ∃ e, read F text = .error e ∧ e.kind = .unreadable) := by
  have hr : read F text = ofTokens? F tokens := by rw [read, hs, ok_bind]
  refine ⟨fun t => by rw [hr, ofTokens?_eq_ok], fun t u ht hu => ?_, fun hn => ?_⟩
  · have := (ofTokens?_eq_ok.mpr ht).symm.trans (ofTokens?_eq_ok.mpr hu)
    exact Except.ok.inj this
  · rw [hr]
    cases ho : ofTokens? F tokens with
    | ok t => exact absurd (ofTokens?_eq_ok.mp ho) (hn t)
    | error e =>
      refine ⟨e, rfl, (ofTokens?_blames ho).resolve_right ?_⟩
      rintro ⟨s, hm, he⟩
      obtain ⟨n, hok⟩ := ofSpelling_isOk (hd s hm)
      exact absurd (he.symm.trans hok) (by simp)

/-- The reader and the grammar on `-2x^3`, where the minus sign belongs to the first factor and the
exponent to the second. -/
theorem read_iff_derives_product :
    Token.scan "-2x^3".toList =
        .ok [.sign '-', .number ['2'], .name ['x'], .sign '^', .number ['3']] ∧
      read defaultFunctions "-2x^3".toList =
        .ok (.operation .times (.negation (.constant (.whole 2) ['2']))
          (.operation .power (.name ['x']) (.constant (.whole 3) ['3']))) := by
  have hs : Token.scan "-2x^3".toList =
      .ok [.sign '-', .number ['2'], .name ['x'], .sign '^', .number ['3']] := by rfl
  have minus : Signed defaultFunctions
      [.sign '-', .number ['2'], .name ['x'], .sign '^', .number ['3']]
      [.name ['x'], .sign '^', .number ['3']] (.negation (.constant (.whole 2) ['2'])) :=
    .minus (.bare (.bare (.number rfl)))
  have power : Signed defaultFunctions [.name ['x'], .sign '^', .number ['3']] []
      (.operation .power (.name ['x']) (.constant (.whole 3) ['3'])) :=
    .bare (.raised (.name (by decide)) (.bare (.bare (.number rfl))))
  have product := Additive.one (.implied (.one minus) rfl power)
  refine ⟨hs, ((read_iff_derives hs fun s hm _ => ?_).1 _).mpr product⟩
  simp only [List.mem_cons, Token.number.injEq, reduceCtorEq, false_or, List.not_mem_nil,
    or_false] at hm
  rcases hm with rfl | rfl <;> decide

end Stepwise.Tree
