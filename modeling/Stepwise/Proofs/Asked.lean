import Mathlib.Logic.Function.Basic
import Stepwise.Problem.Kind
import Stepwise.Proofs.Ending
import Stepwise.Solve.Strategy

/-!
# What is asked first

A problem of calculus is read before an engine is asked: its kind is told, its canonical form is taken
apart, and what is found is the first request, unless there is a fault (`asked`).

Results: `solve_opens`, a strategy begins with what is asked; and `asked_eq_iff_derivative` and the like,
for problems of one kind the same is asked if and only if the same is read.
-/

namespace Stepwise

open Phrase

namespace Question

variable {config : Config}

/-- The request for a function and its variable. -/
def requestDerivative (q : Text × Text) : Request := .differentiate q.1 q.2

/-- The request for an integrand and its variable. -/
def requestIntegral (q : Text × Text) : Request := .integrate q.1 q.2

/-- The request for a limit. -/
def requestLimit (q : Limit) : Request := .limit q.expression q.variableName q.target q.approach

/-- What a problem of calculus asks an engine first, or why it asks nothing. -/
def asked (config : Config) (t : Text) : Option (Except Fault Request) :=
  match ProblemKind.classify t with
  | .differentiation => some ((derivative config (canonical t)).map requestDerivative)
  | .integration => some ((integral config (canonical t)).map requestIntegral)
  | .limit => some ((limit config (canonical t)).map requestLimit)
  | .arithmetic => none
  | .algebra => none

/-- After the session `s` the strategy fails at once, or it puts the request first. -/
def Opens (engine : Engine) (s : Session) : Except Fault Request → Option Fault → Session → Prop
  | .error fault, failed, s' => failed = some fault ∧ s'.exchanges = s.exchanges
  | .ok request, _, s' => ∃ later,
      s'.exchanges = s.exchanges ++ ⟨request, engine s.exchanges request⟩ :: later

theorem opens_of_append {engine : Engine} {s s' : Session} {request : Request} {reply : Reply}
    {failed : Option Fault} {later : List Exchange} (hr : engine s.exchanges request = reply)
    (he : s'.exchanges = s.exchanges ++ [⟨request, reply⟩] ++ later) :
    Opens engine s (.ok request) failed s' :=
  ⟨later, by rw [he, hr, List.append_assoc, List.singleton_append]⟩

/-- What is read off a text is asked, unless it cannot be read. -/
theorem opens_of_read {α β : Type} {engine : Engine} {s : Session} {reading : Except Fault α}
    {f : α → Request} {k : α → Run β} {steps : List Step}
    (hk : ∀ a, Run.Ends (k a) ⟨s.exchanges, steps⟩ (fun _ => Opens engine s (.ok (f a)) none)
      fun fault => Opens engine s (.ok (f a)) (some fault)) :
    Run.Ends (Run.ofExcept reading >>= k) ⟨s.exchanges, steps⟩
      (fun _ => Opens engine s (reading.map f) none)
      fun fault => Opens engine s (reading.map f) (some fault) := by
  rw [Run.ends_bind, Run.ends_ofExcept]
  cases reading with
  | error e =>
    exact ⟨fun _ h => absurd h (by simp), fun _ h => ⟨congrArg some (Except.error.inj h).symm, rfl⟩⟩
  | ok a => exact ⟨fun _ h => Except.ok.inj h ▸ hk a, fun _ h => absurd h (by simp)⟩

theorem differentiation_opens (engine : Engine) (problem u : Text) (s : Session) :
    Run.Ends (Strategy.differentiation engine config problem u) s
      (fun _ => Opens engine s ((derivative config u).map requestDerivative) none)
      (fun fault => Opens engine s ((derivative config u).map requestDerivative) (some fault)) := by
  rw [Strategy.differentiation]
  refine Run.ends_bind.mpr (Run.ends_tell.mpr (opens_of_read fun q => ?_))
  simp only [Run.ends_bind, Run.ends_tell, Run.ends_ask, Run.ends_display, Run.ends_pure]
  exact ⟨fun v hv => ⟨fun w hw => ⟨fun _ _ => opens_of_append hv rfl,
    fun _ _ => opens_of_append hv rfl⟩, fun _ _ => opens_of_append hv rfl⟩,
    fun _ hf => opens_of_append hf (List.append_nil _).symm⟩

theorem integration_opens (engine : Engine) (problem u : Text) (s : Session) :
    Run.Ends (Strategy.integration engine config problem u) s
      (fun _ => Opens engine s ((integral config u).map requestIntegral) none)
      (fun fault => Opens engine s ((integral config u).map requestIntegral) (some fault)) := by
  rw [Strategy.integration]
  refine Run.ends_bind.mpr (Run.ends_tell.mpr (opens_of_read fun q => ?_))
  simp only [Run.ends_bind, Run.ends_tell, Run.ends_ask, Run.ends_display, Run.ends_pure]
  exact ⟨fun v hv => ⟨fun w hw => ⟨fun _ _ => opens_of_append hv rfl,
    fun _ _ => opens_of_append hv rfl⟩, fun _ _ => opens_of_append hv rfl⟩,
    fun _ hf => opens_of_append hf (List.append_nil _).symm⟩

theorem limit_opens (engine : Engine) (problem u : Text) (s : Session) :
    Run.Ends (Strategy.limit engine config problem u) s
      (fun _ => Opens engine s ((limit config u).map requestLimit) none)
      (fun fault => Opens engine s ((limit config u).map requestLimit) (some fault)) := by
  rw [Strategy.limit]
  refine Run.ends_bind.mpr (Run.ends_tell.mpr (opens_of_read fun q => ?_))
  simp only [Run.ends_bind, Run.ends_tell, Run.ends_ask, Run.ends_display, Run.ends_pure]
  exact ⟨fun v hv => ⟨fun _ _ => opens_of_append hv (List.append_nil _).symm,
    fun _ _ => opens_of_append hv (List.append_nil _).symm⟩,
    fun _ hf => opens_of_append hf (List.append_nil _).symm⟩

/-- **A strategy begins with what is asked.** -/
theorem solve_opens (engine : Engine) {t : Text} {first : Except Fault Request}
    (h : asked config t = some first) (s : Session) :
    Run.Ends (Strategy.solve engine config (ProblemKind.classify t) t (canonical t)) s
      (fun _ => Opens engine s first none) (fun fault => Opens engine s first (some fault)) := by
  unfold asked at h
  generalize canonical t = u at h ⊢
  generalize ProblemKind.classify t = kind at h ⊢
  cases kind with
  | differentiation => exact Option.some.inj h ▸ differentiation_opens engine t u s
  | integration => exact Option.some.inj h ▸ integration_opens engine t u s
  | limit => exact Option.some.inj h ▸ limit_opens engine t u s
  | arithmetic => exact absurd h (by simp)
  | algebra => exact absurd h (by simp)

theorem map_inj {α β ε : Type} {f : α → β} (hf : Function.Injective f) {x y : Except ε α} :
    x.map f = y.map f ↔ x = y := by
  cases x <;> cases y <;> simp [Except.map, hf.eq_iff]

/-! ## Problems of the same kind -/

section Same

variable {s t : Text}

theorem asked_eq_iff_derivative (hs : ProblemKind.classify s = .differentiation)
    (ht : ProblemKind.classify t = .differentiation) : asked config s = asked config t ↔
      derivative config (canonical s) = derivative config (canonical t) := by
  simp only [asked, hs, ht, Option.some_inj]
  refine map_inj fun _ _ h => ?_
  obtain ⟨hfunction, hvariable⟩ := Request.differentiate.inj h
  exact Prod.ext hfunction hvariable

theorem asked_eq_iff_integral (hs : ProblemKind.classify s = .integration)
    (ht : ProblemKind.classify t = .integration) : asked config s = asked config t ↔
      integral config (canonical s) = integral config (canonical t) := by
  simp only [asked, hs, ht, Option.some_inj]
  refine map_inj fun _ _ h => ?_
  obtain ⟨hintegrand, hvariable⟩ := Request.integrate.inj h
  exact Prod.ext hintegrand hvariable

theorem asked_eq_iff_limit (hs : ProblemKind.classify s = .limit)
    (ht : ProblemKind.classify t = .limit) : asked config s = asked config t ↔
      limit config (canonical s) = limit config (canonical t) := by
  simp only [asked, hs, ht, Option.some_inj]
  refine map_inj ?_
  rintro ⟨_, _, _, _⟩ ⟨_, _, _, _⟩ h
  obtain ⟨rfl, rfl, rfl, rfl⟩ := Request.limit.inj h
  rfl

end Same

end Question

end Stepwise
