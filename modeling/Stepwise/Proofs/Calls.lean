import Stepwise.Proofs.Depth
import Stepwise.Proofs.Extracted

/-!
# Calls that are found

A call is found in a text by its name and a bracket right behind it, provided that no letter stands
right before the name; its arguments reach up to the bracket that closes it. In a balanced text each
bracket is closed, so that only the letter matters: `callArguments_ne_none_iff`. A canonical form is
balanced (`balanced_canonical`), but it has lost its blanks, and with them what kept a letter apart
from a call.

Results: `holdsCall_derivatives`, `holdsCall_integrals` and `holdsCall_limits`, a rule that changes a
text leaves its call; `exists_holdsCall_canonical`, a rewritten phrase leaves a call in the canonical
form; `callArguments_of_call` and `callArguments_canonical_iff`, where it is found; and
`callArguments_behind_letter`, a call that is not.
-/

namespace Stepwise.Phrase

open Text Stepwise.Bracket

variable {a b name r s t : Text} {names : List Text} {e k m : Nat} {after : Bool}

/-- Is the last character no letter, if there is one? -/
def EndsApart (a : Text) : Prop := ∀ c, a.getLast? = some c → c.isAlpha = false

/-- A call of the function stands in the text, and no letter right before it. -/
def StandsAlone (name t : Text) : Prop := ∃ a b, t = a ++ (name ++ '(' :: b) ∧ EndsApart a

/-! ## The first call -/

theorem callHead?_eq_some (h : callHead? names t = some r) : ∃ name ∈ names, t = name ++ '(' :: r := by
  obtain ⟨name, hname, h⟩ := List.exists_of_findSome?_eq_some h
  split at h
  next hp =>
    obtain ⟨b, rfl⟩ := List.isPrefixOf_iff_prefix.mp hp
    refine ⟨name, hname, ?_⟩
    rw [← Option.some.inj h, List.drop_left' (by simp)]
    simp
  next => exact absurd h (Option.some_ne_none _).symm

theorem callHead?_ne_none (h : name ∈ names) : callHead? names (name ++ '(' :: b) ≠ none := by
  intro hnone
  have := List.findSome?_eq_none_iff.mp hnone name h
  have hp : (name ++ ['(']).isPrefixOf (name ++ '(' :: b) = true :=
    List.isPrefixOf_iff_prefix.mpr ⟨b, by simp⟩
  rw [if_pos hp] at this
  exact Option.some_ne_none _ this

theorem endsApart_nil : EndsApart [] := fun _ h => absurd h (Option.some_ne_none _).symm

theorem endsApart_cons {c : Char} : EndsApart (c :: a) ↔ EndsApart a ∧ (a = [] → c.isAlpha = false) := by
  cases a with
  | nil => simp [EndsApart]
  | cons d a => simp [EndsApart, List.getLast?_cons_cons]

/-- The first call stands alone. -/
theorem exists_of_firstCall? (h : firstCall? names after t = some r) : ∃ a, ∃ name ∈ names,
    t = a ++ (name ++ '(' :: r) ∧ EndsApart a ∧ (a = [] → after = false) := by
  induction t generalizing after with
  | nil => exact absurd h (Option.some_ne_none _).symm
  | cons c cs ih =>
    have next : firstCall? names c.isAlpha cs = some r → ∃ a, ∃ name ∈ names,
        c :: cs = a ++ (name ++ '(' :: r) ∧ EndsApart a ∧ (a = [] → after = false) := by
      intro h
      obtain ⟨a, name, hname, rfl, ha⟩ := ih h
      exact ⟨c :: a, name, hname, rfl, endsApart_cons.mpr ha, fun h => absurd h (List.cons_ne_nil c a)⟩
    rw [firstCall?] at h
    cases after with
    | true => exact next h
    | false =>
      cases hhead : callHead? names (c :: cs) with
      | none =>
        rw [hhead] at h
        exact next h
      | some r' =>
        rw [hhead] at h
        obtain rfl := Option.some.inj h
        obtain ⟨name, hname, he⟩ := callHead?_eq_some hhead
        exact ⟨[], name, hname, he, endsApart_nil, fun _ => rfl⟩

/-- Where a call stands alone, there is a first one. -/
theorem firstCall?_ne_none (hname : name ∈ names) : ∀ {a : Text} {after : Bool}, EndsApart a →
    (a = [] → after = false) → firstCall? names after (a ++ (name ++ '(' :: b)) ≠ none
  | [], after, _, hafter => by
    obtain ⟨c, cs, hc⟩ : ∃ c cs, name ++ '(' :: b = c :: cs :=
      List.exists_cons_of_ne_nil (List.append_ne_nil_of_right_ne_nil name (List.cons_ne_nil _ _))
    rw [List.nil_append, hafter rfl]
    obtain ⟨r, hr⟩ := Option.ne_none_iff_exists'.mp (callHead?_ne_none (b := b) hname)
    rw [hc] at hr ⊢
    rw [firstCall?]
    simp [hr]
  | c :: a, after, ha, _ => by
    obtain ⟨ha, hc⟩ := endsApart_cons.mp ha
    have ih := firstCall?_ne_none hname ha hc
    rw [List.cons_append, firstCall?]
    split
    next => exact Option.some_ne_none _
    next => exact ih

/-! ## The closing bracket -/

/-- If in the end no more brackets are open than before a bracket, that bracket is closed. -/
theorem enclosed_ne_none (hm : m ≤ k) : ∀ {r : Text} {e : Nat},
    depthAfter (k + e + 1) r = some m → enclosed e r ≠ none
  | [], e, h => by
    have : k + e + 1 = m := Option.some.inj h
    omega
  | c :: cs, e, h => by
    obtain ⟨n, hn, h⟩ := depthAfter_cons_eq_some.mp h
    rw [enclosed.eq_def]
    dsimp only
    rcases depthStep_cases hn with ⟨rfl, rfl⟩ | ⟨rfl, hn⟩ | ⟨ho, hc, rfl⟩
    · rw [if_pos rfl, ne_eq, Option.map_eq_none_iff]
      exact enclosed_ne_none hm h
    · rw [if_neg (by decide), if_pos rfl]
      cases e with
      | zero => exact Option.some_ne_none _
      | succ e =>
        obtain rfl : n = k + e + 1 := by omega
        rw [ne_eq, Option.map_eq_none_iff]
        exact enclosed_ne_none hm h
    · rw [if_neg ho, if_neg hc, ne_eq, Option.map_eq_none_iff]
      exact enclosed_ne_none hm h

/-- **In a balanced text a call is found if and only if one stands alone.** -/
theorem callArguments_ne_none_iff (ht : Bracket.Balanced t) (names : List Text) :
    callArguments names t ≠ none ↔ ∃ name ∈ names, StandsAlone name t := by
  constructor
  · intro h
    cases hfirst : firstCall? names false t with
    | none =>
      rw [callArguments, hfirst] at h
      exact absurd rfl h
    | some r =>
      obtain ⟨a, name, hname, he, ha, -⟩ := exists_of_firstCall? hfirst
      exact ⟨name, hname, a, r, he, ha⟩
  · rintro ⟨name, hname, a, b, rfl, ha⟩
    have found : firstCall? names false (a ++ (name ++ '(' :: b)) ≠ none :=
      firstCall?_ne_none hname ha fun _ => rfl
    obtain ⟨r, hr⟩ := Option.ne_none_iff_exists'.mp found
    obtain ⟨a', name', -, he, -⟩ := exists_of_firstCall? hr
    -- The bracket of the first call, which may be another one.
    rw [he, Bracket.Balanced, depthAfter_append] at ht
    obtain ⟨k, -, ht⟩ := Option.bind_eq_some_iff.mp ht
    rw [depthAfter_append] at ht
    obtain ⟨j, -, ht⟩ := Option.bind_eq_some_iff.mp ht
    have hclosed : enclosed 0 r ≠ none := enclosed_ne_none (k := j) (Nat.zero_le _) ht
    obtain ⟨body, hbody⟩ := Option.ne_none_iff_exists'.mp hclosed
    simp [callArguments, hr, hbody]

/-! ## Calls that are made -/

/-- A call of the function stands in the text. -/
def HoldsCall (name t : Text) : Prop := ∃ a b, t = a ++ (name ++ '(' :: b)

/-- What the pattern gives is a call of the function. -/
def MakesCall (name : Text) (p : Pattern Text) : Prop :=
  ∀ t new r, (new, r) ∈ p t → ∃ b, new = name ++ '(' :: b

theorem MakesCall.bind {α : Type} {p : Pattern α} {f : α → Pattern Text}
    (h : ∀ x, MakesCall name (f x)) : MakesCall name (p >>= f) := fun t new r hm => by
  obtain ⟨x, r', -, hm⟩ := Pattern.mem_bind.mp hm
  exact h x r' new r hm

theorem makesCall_pure (name b : Text) : MakesCall name (pure (name ++ '(' :: b)) :=
  fun _ _ _ hm => ⟨b, (Pattern.mem_pure.mp hm).1⟩

theorem makesCall_callText (name : Text) (args : List Text) :
    MakesCall name (pure (callText name args)) := fun _ _ _ hm =>
  ⟨_, (Pattern.mem_pure.mp hm).1.trans (List.append_assoc _ _ _)⟩

theorem HoldsCall.cons {c : Char} (h : HoldsCall name t) : HoldsCall name (c :: t) := by
  obtain ⟨a, b, rfl⟩ := h
  exact ⟨c :: a, b, rfl⟩

/-- A replacement that changes the text leaves a call in it. -/
theorem holdsCall_replaceAll {p : Option Char → Pattern Text} (hp : ∀ last, MakesCall name (p last))
    (h : Pattern.replaceAll p t ≠ t) : HoldsCall name (Pattern.replaceAll p t) := by
  suffices from_ : ∀ last, Pattern.replaceFrom p last 0 t ≠ t →
      HoldsCall name (Pattern.replaceFrom p last 0 t) from from_ none h
  clear h
  induction t with
  | nil => exact fun last h => absurd rfl h
  | cons c cs ih =>
    intro last h
    rw [Pattern.replaceFrom] at h ⊢
    cases best : (p last).best? (c :: cs) with
    | none =>
      rw [best] at h
      exact (ih (some c) fun same => h (congrArg (c :: ·) same)).cons
    | some found =>
      obtain ⟨new, rest⟩ := found
      obtain ⟨b, rfl⟩ := hp last _ _ _ (Pattern.mem_of_best? best)
      exact ⟨[], _, List.append_assoc _ _ _⟩

theorem holdsCall_wrappedDerivatives (h : wrappedDerivatives t ≠ t) :
    HoldsCall derivativeName (wrappedDerivatives t) := by
  unfold wrappedDerivatives at h ⊢
  induction t with
  | nil => exact absurd rfl h
  | cons c cs ih =>
    rw [wrappedFrom] at h ⊢
    split at h
    · next none => exact (ih fun same => h (congrArg (c :: ·) same)).cons
    · next x opener rest some =>
      split at h
      · exact absurd rfl h
      · exact ⟨[], _, List.append_assoc _ _ _⟩

/-- The last replacement that changes something leaves its call. -/
theorem HoldsCall.replaceAll {p : Option Char → Pattern Text}
    (hp : ∀ last, MakesCall name (p last)) (ht : t ≠ s → HoldsCall name t)
    (h : Pattern.replaceAll p t ≠ s) : HoldsCall name (Pattern.replaceAll p t) := by
  by_cases same : Pattern.replaceAll p t = t
  · rw [same] at h ⊢
    exact ht h
  · exact holdsCall_replaceAll hp same

theorem makesCall_openDerivative : MakesCall derivativeName openDerivative :=
  .bind fun _ => .bind fun _ => .bind fun _ => .bind fun _ => makesCall_callText _ _

theorem makesCall_derivativeOf : MakesCall derivativeName derivativeOf :=
  .bind fun _ => .bind fun _ => .bind fun _ => .bind fun _ => makesCall_callText _ _

theorem makesCall_differentiate : MakesCall derivativeName differentiate :=
  .bind fun _ => .bind fun _ => .bind fun _ => .bind fun _ => makesCall_callText _ _

/-- **If the rule for derivatives changes a text, it leaves a call for a derivative.** -/
theorem holdsCall_derivatives (h : derivatives t ≠ t) : HoldsCall derivativeName (derivatives t) :=
  .replaceAll (fun _ => makesCall_differentiate)
    (.replaceAll (fun _ => makesCall_derivativeOf)
      (.replaceAll (fun _ => makesCall_openDerivative) holdsCall_wrappedDerivatives)) h

theorem makesCall_signWithDifferential : MakesCall integralName signWithDifferential :=
  .bind fun _ => .bind fun _ => .bind fun _ => .bind fun _ => .bind fun _ => .bind fun _ =>
    .bind fun _ => makesCall_callText _ _

theorem makesCall_openIntegral : MakesCall integralName openIntegral :=
  .bind fun _ => .bind fun _ => .bind fun _ => .bind fun _ => makesCall_callText _ _

theorem makesCall_integralOf : MakesCall integralName integralOf :=
  .bind fun _ => .bind fun _ => .bind fun _ => .bind fun _ => .bind fun _ => .bind fun _ =>
    .bind fun _ => .bind fun _ => makesCall_callText _ _

theorem makesCall_integrate : MakesCall integralName integrate :=
  .bind fun _ => .bind fun _ => .bind fun _ => .bind fun _ => makesCall_callText _ _

theorem makesCall_shortIntegral (last : Option Char) : MakesCall integralName (shortIntegral last) :=
  .bind fun _ => .bind fun _ => .bind fun _ => .bind fun _ => makesCall_pure _ []

/-- **If the rule for integrals changes a text, it leaves a call for an integral.** -/
theorem holdsCall_integrals (h : integrals t ≠ t) : HoldsCall integralName (integrals t) :=
  .replaceAll makesCall_shortIntegral
    (.replaceAll (fun _ => makesCall_integrate)
      (.replaceAll (fun _ => makesCall_integralOf)
        (.replaceAll (fun _ => makesCall_openIntegral)
          (holdsCall_replaceAll fun _ => makesCall_signWithDifferential)))) h

theorem makesCall_arrowLimit (last : Option Char) : MakesCall limitName (arrowLimit last) :=
  .bind fun _ => .bind fun _ => .bind fun _ => .bind fun _ => .bind fun _ => .bind fun _ =>
    .bind fun _ => .bind fun _ => .bind fun _ => .bind fun _ => .bind fun _ => .bind fun _ =>
    .bind fun _ => .bind fun _ => .bind fun _ => .bind fun _ => .bind fun _ => makesCall_callText _ _

theorem makesCall_wordedLimit (last : Option Char) : MakesCall limitName (wordedLimit last) :=
  .bind fun _ => .bind fun _ => .bind fun _ => .bind fun _ => .bind fun _ => .bind fun _ =>
    .bind fun _ => .bind fun _ => .bind fun _ => .bind fun _ => .bind fun _ => .bind fun _ =>
    .bind fun _ => makesCall_callText _ _

/-- **If the rule for limits changes a text, it leaves a call for a limit.** -/
theorem holdsCall_limits (h : limits t ≠ t) : HoldsCall limitName (limits t) :=
  .replaceAll makesCall_wordedLimit (holdsCall_replaceAll makesCall_arrowLimit) h

/-! ## Canonical forms -/

/-- **A call that the rules for phrases leave behind stays in the canonical form**, behind what is
left of the text in front of it. -/
theorem exists_canonical_of_call (hname : name ∈ [derivativeName, integralName, limitName])
    (h : limits (integrals (derivatives (bare s))) = a ++ (name ++ '(' :: b)) :
    ∃ c, canonical s = plain a ++ (name ++ '(' :: c) := by
  have letters : ∀ name ∈ [derivativeName, integralName, limitName],
      ∀ b ∈ name ++ ['('], Inert b ∧ b ≠ '*' ∧ plainGlyph b = [b] := by
    simp only [List.forall_mem_cons, List.not_mem_nil, false_implies, implies_true, and_true]
    exact ⟨forall_mem_of_all (by decide), forall_mem_of_all (by decide), forall_mem_of_all (by decide)⟩
  have shape : a ++ (name ++ '(' :: b) = a ++ ((name ++ ['(']) ++ b) := by simp
  have shown : plain a ++ ((name ++ ['(']) ++ plain b) = (plain a ++ name) ++ '(' :: plain b := by
    simp
  rw [canonical_eq_plain, h, shape, plain_append_letters (by simp) (letters name hname), shown,
    dropEndWhile_append_cons (by decide)]
  exact ⟨_, List.append_assoc _ _ _⟩

/-- **A rewritten phrase leaves a call in the canonical form**, that of the last rule that rewrites
one. -/
theorem exists_holdsCall_canonical (h : limits (integrals (derivatives (bare s))) ≠ bare s) :
    ∃ name ∈ [derivativeName, integralName, limitName], HoldsCall name (canonical s) := by
  obtain ⟨name, hname, a, b, hcall⟩ : ∃ name ∈ [derivativeName, integralName, limitName],
      HoldsCall name (limits (integrals (derivatives (bare s)))) := by
    by_cases hl : limits (integrals (derivatives (bare s))) = integrals (derivatives (bare s))
    · rw [hl] at h ⊢
      by_cases hi : integrals (derivatives (bare s)) = derivatives (bare s)
      · rw [hi] at h ⊢
        exact ⟨_, List.mem_cons_self, holdsCall_derivatives h⟩
      · exact ⟨_, List.mem_cons_of_mem _ List.mem_cons_self, holdsCall_integrals hi⟩
    · exact ⟨limitName, by decide, holdsCall_limits hl⟩
  obtain ⟨c, hc⟩ := exists_canonical_of_call hname hcall
  exact ⟨name, hname, plain a, c, hc⟩

/-- A call that the rules for phrases leave behind is found unless a letter is left right before
it. -/
theorem callArguments_of_call (hs : WellNested s)
    (hf : FairTargets (integrals (derivatives (bare s))))
    (hname : name ∈ [derivativeName, integralName, limitName])
    (h : limits (integrals (derivatives (bare s))) = a ++ (name ++ '(' :: b))
    (ha : EndsApart (plain a)) (hnames : name ∈ names) :
    callArguments names (canonical s) ≠ none := by
  obtain ⟨c, hc⟩ := exists_canonical_of_call hname h
  exact (callArguments_ne_none_iff (balanced_canonical hs hf) names).mpr
    ⟨name, hnames, plain a, c, hc, ha⟩

/-- **A call is found in the canonical form of a well-nested text if and only if one stands alone
there**, given that the targets of limits are fair. -/
theorem callArguments_canonical_iff (hs : WellNested s)
    (hf : FairTargets (integrals (derivatives (bare s)))) (names : List Text) :
    callArguments names (canonical s) ≠ none ↔ ∃ name ∈ names, StandsAlone name (canonical s) :=
  callArguments_ne_none_iff (balanced_canonical hs hf) names

theorem callArguments_behind_digit :
    callArguments [derivativeName] (canonical "2 d/dx(x^2)".toList) ≠ none :=
  (callArguments_canonical_iff (by decide) (fairTargets_of_nowhere (by decide +kernel)) _).mpr
    ⟨derivativeName, List.mem_cons_self, "2".toList, "x^2,x)".toList, by decide +kernel,
      fun c hc => by
        obtain rfl : '2' = c := Option.some.inj hc
        decide⟩

/-- A product with a variable hides its second factor, as the blank between them is lost. A brace
around a target is not closed in the call. -/
theorem callArguments_behind_letter :
    (WellNested "x d/dx(x^2)".toList ∧
        derivatives "x d/dx(x^2)".toList = "x diff(x^2,x)".toList ∧
        callArguments [derivativeName] (canonical "x d/dx(x^2)".toList) = none) ∧
      WellNested "lim x→\x7b0\x7d x".toList ∧
        limits "lim x→\x7b0\x7d x".toList = "limit(x,x,\x7b0)".toList ∧
        callArguments Question.limitNames (canonical "lim x→\x7b0\x7d x".toList) = none := by
  decide +kernel

end Stepwise.Phrase
