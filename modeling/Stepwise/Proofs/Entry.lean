import Stepwise.Proofs.Extracted
import Stepwise.Proofs.Overflow
import Stepwise.Solve.Solver

/-!
# What the entry points refuse

`solveProblem`, `solveExtracted` and `solveImage` take what users hand over. Each looks at it in its
own way: for blanks, at the tidied text, at the size of the image. Tidying empties no text that has
more than blanks in it (`tidy_eq_nil_iff`), and what is left is no blank text either
(`allBlank_tidy`), so that the entry points refuse the same texts, and nothing that happens in the
solver gets out.

The text of an image is found by a computation with a state of its own, which stands for whatever
happens outside: an image that is refused leaves it alone, and for any other image it runs once.

Result: `entryPoints_contract`, for any engine and every configuration that comes from settings.
-/

namespace Stepwise

/-! ## The tidied text -/

namespace Phrase

open Text

theorem trim_eq_nil_iff {t : Text} : trim t = [] ↔ allBlank t = true := by
  refine ⟨fun h => ?_, fun h => ?_⟩
  · by_contra hn
    exact trim_ne_nil (Bool.eq_false_iff.mpr hn) h
  · rw [trim, List.dropWhile_eq_nil_iff.mpr (List.all_eq_true.mp h)]
    rfl

theorem allBlank_iff {t : Text} : allBlank t = true ↔ Text.removeBlanks t = [] := by
  simp [allBlank, Text.removeBlanks]

/-- **Tidying empties blank texts only.** -/
theorem tidy_eq_nil_iff {t : Text} : tidy t = [] ↔ allBlank t = true := by
  rw [tidy_eq_map, List.map_eq_nil_iff, ← (tightened_tightText t).nil_iff]
  change trim (squeeze t) = [] ↔ _
  rw [trim_eq_nil_iff, allBlank_iff, removeBlanks_squeeze, ← allBlank_iff]

/-- A tidied text is empty or has more than blanks in it. -/
theorem allBlank_tidy {t : Text} (h : tidy t ≠ []) : allBlank (tidy t) = false := by
  rw [Bool.eq_false_iff, ne_eq, ← trim_eq_nil_iff, tidy, trim_trim]
  exact h

end Phrase

/-! ## Problems -/

/-- A text with more than blanks in it. -/
inductive Value.IsProblem : Value → Prop
  | text {t : Text} (h : Text.allBlank t = false) : IsProblem (.text t)

namespace Solver

open Phrase

variable {engine : Engine} {config : Config} {t : Text} {v : Value} {fault : Fault}

theorem solveProblem_text (h : Text.allBlank t = false) :
    solveProblem engine config (.text t) =
      .ok (solveAs engine config (ProblemKind.classify t) t) := by
  rw [solveProblem, h]
  rfl

theorem solveProblem_eq_error_iff :
    solveProblem engine config v = .error fault ↔ ¬v.IsProblem ∧ fault = .invalidProblem := by
  by_cases hv : v.IsProblem
  · cases hv with
    | text h => simp [solveProblem_text h, Value.IsProblem.text h]
  · have refused : solveProblem engine config v = .error .invalidProblem := by
      cases v with
      | text t =>
        have blank : Text.allBlank t = true := by
          by_contra h
          exact hv (.text (Bool.eq_false_iff.mpr h))
        rw [solveProblem, if_pos blank]
      | _ => rfl
    rw [refused, and_iff_right hv, Except.error.injEq, eq_comm]

theorem solveExtracted_text (h : Text.allBlank t = false) :
    solveExtracted engine config (.text t) =
      .ok (solveAs engine config (ProblemKind.classify (tidy t)) (tidy t)) := by
  have kept : tidy t ≠ [] := fun hn => by
    rw [tidy_eq_nil_iff.mp hn] at h
    exact absurd h (by decide)
  unfold solveExtracted
  rw [tidyOf]
  split
  next hn => exact absurd hn kept
  next => exact solveProblem_text (allBlank_tidy kept)

theorem solveExtracted_eq_error_iff :
    solveExtracted engine config v = .error fault ↔ ¬v.IsProblem ∧ fault = .noTextInImage := by
  by_cases hv : v.IsProblem
  · cases hv with
    | text h => simp [solveExtracted_text h, Value.IsProblem.text h]
  · have empty : tidyOf v = [] := by
      cases v with
      | text t =>
        refine tidy_eq_nil_iff.mpr ?_
        by_contra h
        exact hv (.text (Bool.eq_false_iff.mpr h))
      | _ => rfl
    have refused : solveExtracted engine config v = .error .noTextInImage := by
      unfold solveExtracted
      rw [empty]
    rw [refused, and_iff_right hv, Except.error.injEq, eq_comm]

/-- What counts as false is refused as the empty text is. -/
theorem solveExtracted_orEmpty (v : Value) :
    solveExtracted engine config (if v.isTrue then v else .text []) =
      solveExtracted engine config v := by
  split
  next => rfl
  next hv =>
    cases v with
    | text t =>
      obtain rfl : t = [] := by simpa [Value.isTrue] using hv
      rfl
    | _ => rfl

/-! ## Images -/

/-- A limit that an image can exceed is shown in megabytes. -/
theorem exists_limitInMegabytes {limit : Int} (low : 0 ≤ limit) (high : limit < 2 ^ (63 : Nat)) :
    ∃ x, limitInMegabytes limit = .ok x := by
  have finite : (Binary64.ofFraction limit (1024 * 1024)).isFinite = true := by
    rw [Binary64.ofFraction, Binary64.isFinite_ofRatio_iff _ (by decide)]
    calc limit.natAbs < 2 ^ (63 : Nat) := by omega
      _ ≤ Binary64.overflow * (1024 * 1024) := by decide +kernel
  unfold limitInMegabytes
  split
  next h => rw [h] at finite; exact absurd finite Bool.false_ne_true
  next => exact ⟨_, rfl⟩

/-- What becomes of an image whose text is found from the state `s` on, and the state behind it. -/
def solveImageFrom {σ : Type} (engine : Engine) (config : Config) (size : Nat)
    (detect : StateM σ Value) (s : σ) : Except Fault Solution × σ :=
  (solveImage engine config size (liftM detect) : ExceptT Fault (StateM σ) Solution) s

variable {σ : Type} {size : Nat} {detect : StateM σ Value} {s : σ}

theorem liftExcept_apply {α : Type} (e : Except Fault α) (s : σ) :
    (liftExcept e : ExceptT Fault (StateM σ) α) s = (e, s) := by
  cases e <;> rfl

theorem solveImageFrom_empty :
    solveImageFrom engine config 0 detect s = (.error .emptyImage, s) := rfl

theorem solveImageFrom_large (positive : 0 < size) (large : config.maxImageBytes < size)
    (low : 0 ≤ config.maxImageBytes) (sized : size < 2 ^ (63 : Nat)) :
    ∃ x, solveImageFrom engine config size detect s = (.error (.imageTooLarge x), s) := by
  obtain ⟨x, hx⟩ := exists_limitInMegabytes low (by omega)
  refine ⟨x, ?_⟩
  unfold solveImageFrom solveImage
  rw [if_neg positive.ne', if_pos large, hx]
  rfl

theorem solveImageFrom_read (positive : 0 < size) (small : size ≤ config.maxImageBytes) :
    solveImageFrom engine config size detect s =
      (solveExtracted engine config (detect s).1, (detect s).2) := by
  rw [← solveExtracted_orEmpty]
  unfold solveImageFrom solveImage
  rw [if_neg positive.ne', if_neg (Int.not_lt.mpr small)]
  exact liftExcept_apply _ _

/-! ## The contract -/

/-- **Only bad input gets out of the entry points as a fault.** With any engine, a problem is refused
if and only if it is no text with more than blanks in it, and else solved as what it is classified
as; the same holds of a text from an image, with a fault of its own. An image is refused before
its text is looked for if it is empty or larger than the limit, else its text is looked for once and
treated as such a text. No sequence of bytes has 2 ^ 63 of them. -/
theorem entryPoints_contract (engine : Engine) (config : Config) :
    (∀ v fault, solveProblem engine config v = .error fault ↔
      ¬v.IsProblem ∧ fault = .invalidProblem) ∧
    (∀ v solution, solveProblem engine config v = .ok solution →
      ∃ t, v = .text t ∧ solution.kind = ProblemKind.classify t) ∧
    (∀ v fault, solveExtracted engine config v = .error fault ↔
      ¬v.IsProblem ∧ fault = .noTextInImage) ∧
    Fault.kind .invalidProblem = .invalidProblem ∧ Fault.kind .noTextInImage = .invalidProblem ∧
    Fault.message .noTextInImage = "No math problem found in image".toList ∧
    (0 ≤ config.maxImageBytes → ∀ (σ : Type) (size : Nat) (detect : StateM σ Value) (s : σ),
      size < 2 ^ (63 : Nat) →
      if size = 0 ∨ config.maxImageBytes < size then
        ∃ fault, solveImageFrom engine config size detect s = (.error fault, s) ∧
          fault.kind = .invalidProblem
      else
        solveImageFrom engine config size detect s =
          (solveExtracted engine config (detect s).1, (detect s).2)) := by
  refine ⟨fun v fault => solveProblem_eq_error_iff, fun v solution h => ?_,
    fun v fault => solveExtracted_eq_error_iff, rfl, rfl, rfl, fun low σ size detect s sized => ?_⟩
  · have hv : v.IsProblem := by
      by_contra hn
      exact absurd (h.symm.trans (solveProblem_eq_error_iff.mpr ⟨hn, rfl⟩)) (by simp)
    cases hv with
    | @text t ht =>
      obtain rfl := Except.ok.inj (h.symm.trans (solveProblem_text ht))
      exact ⟨t, rfl, solveAs_kind ..⟩
  · split
    next refused =>
      rcases Nat.eq_zero_or_pos size with rfl | positive
      · exact ⟨_, solveImageFrom_empty, rfl⟩
      · obtain ⟨x, hx⟩ : ∃ x, solveImageFrom engine config size detect s =
            (.error (.imageTooLarge x), s) :=
          solveImageFrom_large positive (refused.resolve_left positive.ne') low sized
        exact ⟨_, hx, rfl⟩
    next taken =>
      rw [not_or, Int.not_lt] at taken
      exact solveImageFrom_read (Nat.pos_of_ne_zero taken.1) taken.2

/-- A detector that counts its calls is called once for an image of 7 bytes and never for one above
the limit, and a silent engine makes no difference. -/
theorem entryPoints_contract_counted :
    0 ≤ Config.default.maxImageBytes ∧ 7 < 2 ^ (63 : Nat) ∧ 5242881 < 2 ^ (63 : Nat) ∧
      solveImageFrom (.ofReplies []) .default 7
          (fun calls => (.text "2 + 2".toList, calls + 1)) 0 =
        (solveExtracted (.ofReplies []) .default (.text "2 + 2".toList), 1) ∧
      ∃ fault, solveImageFrom (.ofReplies []) .default 5242881
          (fun calls => (.text "2 + 2".toList, calls + 1)) 0 = (.error fault, 0) ∧
        fault.kind = .invalidProblem := by
  have limit : 0 ≤ Config.default.maxImageBytes := by decide
  have images := (entryPoints_contract (.ofReplies []) .default).2.2.2.2.2.2 limit Nat
  have small := images 7 (fun calls => (.text "2 + 2".toList, calls + 1)) 0 (by decide)
  have large := images 5242881 (fun calls => (.text "2 + 2".toList, calls + 1)) 0 (by decide)
  rw [if_neg (by decide)] at small
  rw [if_pos (by decide)] at large
  exact ⟨limit, by decide, by decide, small, large⟩

end Solver

end Stepwise
