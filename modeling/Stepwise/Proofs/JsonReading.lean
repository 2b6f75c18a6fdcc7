import Mathlib.Data.List.TakeWhile
import Stepwise.Json.Read
import Stepwise.Proofs.Outcome

/-!
# What JSON is refused for

A reader looks at nothing but its text: it leaves an end of it (`skip_isSuffix` and the like), and
when it complains of a numeral, the digits stand in the text. `StaysIn` says both of a reader's
outcome, and is kept when readers are put one behind the other (`StaysIn.bind`).

Result: `hasLongRun_of_read`, a text is refused as too long only if there is a run of more digits in
it than are ever read.
-/

namespace Stepwise.Json

variable {α β : Type} {t u : Text} {n : Nat}

/-- In the text there is a run of `n` digits, more than are ever read. -/
def HasLongRun (t : Text) (n : Nat) : Prop :=
  Fault.digitLimit < n ∧ ∃ ds, ds <:+: t ∧ ds.length = n ∧ ∀ c ∈ ds, isPlainDigit c = true

theorem HasLongRun.of_isSuffix (h : HasLongRun u n) (hu : u <:+ t) : HasLongRun t n := by
  obtain ⟨long, ds, hds, hn, digits⟩ := h
  exact ⟨long, ds, hds.trans hu.isInfix, hn, digits⟩

/-- What is left is an end of the text, and a numeral that is too long is a part of it. -/
def StaysIn (t : Text) : Except Flaw (α × Rest) → Prop
  | .ok (_, _, rest) => rest <:+ t
  | .error (.numeralTooLong n) => HasLongRun t n
  | .error (.malformed _) => True

theorem StaysIn.of_isSuffix {r : Except Flaw (α × Rest)} (h : StaysIn u r) (hu : u <:+ t) :
    StaysIn t r := by
  rcases r with (_ | n) | ⟨_, _, rest⟩
  · trivial
  · exact HasLongRun.of_isSuffix h hu
  · exact List.IsSuffix.trans h hu

theorem StaysIn.bind {x : Except Flaw (α × Rest)} {f : α × Rest → Except Flaw (β × Rest)}
    (hx : StaysIn t x) (hf : ∀ a position rest, rest <:+ t → StaysIn t (f (a, position, rest))) :
    StaysIn t (x >>= f) := by
  rcases x with (_ | n) | ⟨a, position, rest⟩
  · trivial
  · exact hx
  · exact hf a position rest hx

/-- A text read in front of the rest. -/
theorem StaysIn.prepend {x : Except Flaw (Text × Rest)} (hx : StaysIn t x) (f : Text → Text) :
    StaysIn t (do
      let (u, rest) ← x
      return (f u, rest)) :=
  hx.bind fun _ _ _ h => h

/-! ## Blanks and texts -/

theorem skip_isSuffix : ∀ (position : Nat) (t : Text), (skip position t).2 <:+ t
  | _, [] => List.suffix_refl []
  | position, c :: cs => by
    rw [skip]
    split
    · exact (skip_isSuffix (position + 1) cs).trans (List.suffix_cons c cs)
    · exact List.suffix_refl _

theorem isSuffix_of_skip {position m : Nat} {rest : Text} (h : skip position u = (m, rest))
    (hu : u <:+ t) : rest <:+ t := by
  have skipped := skip_isSuffix position u
  rw [h] at skipped
  exact skipped.trans hu

/-- What stands behind the next character that is no blank. -/
theorem isSuffix_behind {position m : Nat} {c : Char} {rest : Text}
    (h : skip position u = (m, c :: rest)) (hu : u <:+ t) : rest <:+ t :=
  (List.suffix_cons c rest).trans (isSuffix_of_skip h hu)

/-- The second half of a surrogate pair stands in the text, and no numeral is read for it. -/
theorem lowHalf?_cases (position : Nat) (t : Text) :
    (∃ m, lowHalf? position t = .error (.malformed m)) ∨ lowHalf? position t = .ok none ∨
      ∃ second rest, lowHalf? position t = .ok (some (second, rest)) ∧ rest <:+ t := by
  unfold lowHalf?
  split
  next a b c d e cs =>
    split
    next => exact .inl ⟨_, rfl⟩
    next =>
      split
      · exact .inr (.inr ⟨_, _, rfl, List.suffix_append ['\\', 'u', a, b, c, d] (e :: cs)⟩)
      · exact .inr (.inl rfl)
  next => exact .inr (.inl rfl)

theorem readText_staysIn (start : Nat) : ∀ (fuel position : Nat) (t : Text),
    StaysIn t (readText start fuel position t)
  | fuel, _, [] => by rw [readText]; trivial
  | 0, _, _ :: _ => by rw [readText]; trivial
  | fuel + 1, position, front :: cs => by
    have go {position : Nat} {rest : Text} {f : Text → Text} (h : rest <:+ front :: cs) :=
      ((readText_staysIn start fuel position rest).of_isSuffix h).prepend f
    unfold readText
    split
    · exact List.suffix_cons front cs
    split
    · split
      · trivial
      next a b c d e cs =>
        have behind : e :: cs <:+ front :: 'u' :: a :: b :: c :: d :: e :: cs :=
          List.suffix_append [front, 'u', a, b, c, d] (e :: cs)
        split
        · trivial
        next unit _ =>
          dsimp only
          split
          · obtain ⟨m, h⟩ | h | ⟨second, rest, h, hr⟩ := lowHalf?_cases (position + 6) (e :: cs)
            · rw [h]
              trivial
            · rw [h]
              exact go behind
            · rw [h]
              exact go (hr.trans behind)
          · exact go behind
      · trivial
      next e cs _ _ =>
        split
        · trivial
        · exact go (List.suffix_append [front, e] cs)
    split
    · trivial
    · exact go (List.suffix_cons front cs)

/-! ## Numbers -/

theorem wholePart_isPrefix (t : Text) : wholePart t <+: t := by
  unfold wholePart
  split
  · exact List.prefix_refl []
  next c cs =>
    split
    · exact List.prefix_append [c] cs
    split
    · exact List.prefix_cons_inj c |>.mpr (List.takeWhile_prefix isPlainDigit)
    · exact List.nil_prefix

theorem isPlainDigit_of_mem_wholePart {c : Char} (h : c ∈ wholePart t) :
    isPlainDigit c = true := by
  unfold wholePart at h
  split at h
  · exact absurd h List.not_mem_nil
  next first cs =>
    split at h
    next zero =>
      rw [List.mem_singleton.mp h, zero]
      rfl
    next =>
      split at h
      next digit =>
        rcases List.mem_cons.mp h with rfl | h
        · exact digit
        · exact List.mem_takeWhile_imp h
      next => exact absurd h List.not_mem_nil

theorem readNumber_staysIn (position : Nat) (t : Text) : StaysIn t (readNumber position t) := by
  unfold readNumber
  split
  next negative u hu =>
    have behind : u <:+ t := by
      split at hu
      next u' =>
        obtain ⟨-, rfl⟩ := Prod.mk.inj hu
        exact List.suffix_cons '-' u'
      next =>
        obtain ⟨-, rfl⟩ := Prod.mk.inj hu
        exact List.suffix_refl t
    have rest {a b c : Nat} : ((u.drop a).drop b).drop c <:+ t :=
      (List.drop_suffix c _).trans ((List.drop_suffix b _).trans ((List.drop_suffix a u).trans behind))
    dsimp only
    split
    · trivial
    split
    · split
      next long =>
        refine ⟨long, wholePart u, ?_, rfl, fun c => isPlainDigit_of_mem_wholePart⟩
        exact (wholePart_isPrefix u).isInfix.trans behind.isInfix
      next => exact rest
    · exact rest

/-! ## Values -/

mutual

/-- Reading a value stays in the text. -/
theorem readValue_staysIn : ∀ (fuel position : Nat) (t : Text),
    StaysIn t (readValue fuel position t)
  | 0, _, _ => by
    rw [readValue]
    trivial
  | fuel + 1, position, t => by
    unfold readValue
    split
    · trivial
    next cs =>
      have hs := List.suffix_cons '"' cs
      exact ((readText_staysIn _ _ _ cs).of_isSuffix hs).bind fun _ _ _ h => h
    next cs =>
      split
      next hs => exact isSuffix_behind hs (List.suffix_cons '[' cs)
      next hs =>
        have inner := isSuffix_of_skip hs (List.suffix_cons '[' cs)
        exact ((readItems_staysIn fuel _ _).of_isSuffix inner).bind fun _ _ _ h => h
    next cs =>
      split
      next hs => exact isSuffix_behind hs (List.suffix_cons '\x7b' cs)
      next hs =>
        have inner := isSuffix_of_skip hs (List.suffix_cons '\x7b' cs)
        exact ((readFields_staysIn fuel [] _ _).of_isSuffix inner).bind fun _ _ _ h => h
    · split
      · exact List.drop_suffix _ t
      · exact readNumber_staysIn position t

theorem readItems_staysIn : ∀ (fuel position : Nat) (t : Text),
    StaysIn t (readItems fuel position t)
  | 0, _, _ => by
    rw [readItems]
    trivial
  | fuel + 1, position, t => by
    unfold readItems
    refine (readValue_staysIn fuel position t).bind fun item position u hu => ?_
    dsimp only
    split
    next hs => exact isSuffix_behind hs hu
    next hs =>
      have next (k : Nat) := (skip_isSuffix k _).trans (isSuffix_behind hs hu)
      exact StaysIn.bind ((readItems_staysIn fuel _ _).of_isSuffix (next _)) fun _ _ _ h => h
    next => trivial

theorem readFields_staysIn : ∀ (fuel : Nat) (fields : List (Text × Value)) (position : Nat)
    (t : Text), StaysIn t (readFields fuel fields position t)
  | 0, _, _, _ => by
    rw [readFields]
    trivial
  | fuel + 1, fields, position, t => by
    unfold readFields
    split
    next cs =>
      have hs := List.suffix_cons '"' cs
      refine ((readText_staysIn _ _ _ cs).of_isSuffix hs).bind fun name position u hu => ?_
      dsimp only
      split
      next hs =>
        have value (k : Nat) := (skip_isSuffix k _).trans (isSuffix_behind hs hu)
        refine ((readValue_staysIn fuel _ _).of_isSuffix (value _)).bind fun v position w hw => ?_
        dsimp only
        split
        next hs => exact isSuffix_behind hs hw
        next hs =>
          have next (k : Nat) := (skip_isSuffix k _).trans (isSuffix_behind hs hw)
          exact (readFields_staysIn fuel _ _ _).of_isSuffix (next _)
        next => trivial
      next => trivial
    next => trivial

end

/-- **A text is refused as too long only for a run of digits in it** that is longer than any that is
read. -/
theorem hasLongRun_of_read (h : read t = .error (.numeralTooLong n)) : HasLongRun t n := by
  unfold read at h
  have stays := (readValue_staysIn (2 * t.length + 2) (skip 0 t).1 (skip 0 t).2).of_isSuffix
    (skip_isSuffix 0 t)
  rcases bind_eq_error.mp h with h | ⟨⟨v, position, u⟩, -, h⟩
  · rwa [h] at stays
  · dsimp only at h
    split at h <;> simp [pure, Except.pure] at h

theorem hasLongRun_of_readUnmarked (h : readUnmarked t = .error (.numeralTooLong n)) :
    HasLongRun t n := by
  unfold readUnmarked at h
  split at h
  · exact absurd h (by simp)
  · exact hasLongRun_of_read h

end Stepwise.Json
