import Stepwise.Proofs.Outcome

/-!
# How runs end

A run ends with a value or with a fault, and the session goes on from where it ended.
`Ends run s done failed` speaks of both ends at once, so that nothing is lost when a run fails half
way: what was asked and told until then is still there.

Results: `ends_bind` and one `ends_` lemma for each thing a run can do. Each is an equivalence, and
by rewriting with them a strategy is taken apart into its ends, one goal for each point where it
can fail and one for success.
-/

namespace Stepwise.Run

variable {α β : Type} {s s' : Session} {done : α → Session → Prop}
  {failed : Fault → Session → Prop}

/-- However the run ends that starts in `s`: `done` holds of its value and of the session it leaves,
or `failed` of its fault and that session. -/
def Ends (run : Run α) (s : Session) (done : α → Session → Prop)
    (failed : Fault → Session → Prop) : Prop :=
  match run s with
  | (.ok a, s') => done a s'
  | (.error fault, s') => failed fault s'

theorem Ends.of_ok {run : Run α} {a : α} (h : Ends run s done failed)
    (hr : run s = (.ok a, s')) : done a s' := by
  unfold Ends at h
  rwa [hr] at h

theorem Ends.of_error {run : Run α} {fault : Fault} (h : Ends run s done failed)
    (hr : run s = (.error fault, s')) : failed fault s' := by
  unfold Ends at h
  rwa [hr] at h

theorem Ends.mono {run : Run α} {done' : α → Session → Prop} {failed' : Fault → Session → Prop}
    (h : Ends run s done failed) (hd : ∀ a s', done a s' → done' a s')
    (hf : ∀ fault s', failed fault s' → failed' fault s') : Ends run s done' failed' := by
  unfold Ends at h ⊢
  split at h
  · exact hd _ _ h
  · exact hf _ _ h

/-- What is known of both ends in two ways is known at once. -/
theorem Ends.and {run : Run α} {done' : α → Session → Prop} {failed' : Fault → Session → Prop}
    (h : Ends run s done failed) (h' : Ends run s done' failed') :
    Ends run s (fun a s' => done a s' ∧ done' a s')
      (fun fault s' => failed fault s' ∧ failed' fault s') := by
  unfold Ends at h h' ⊢
  split
  next e => rw [e] at h h'; exact ⟨h, h'⟩
  next e => rw [e] at h h'; exact ⟨h, h'⟩

theorem ends_bind {x : Run α} {f : α → Run β} {done : β → Session → Prop} :
    Ends (x >>= f) s done failed ↔
      Ends x s (fun a s' => Ends (f a) s' done failed) failed := by
  unfold Ends
  rw [bind_apply]
  rcases x s with ⟨_ | _, _⟩ <;> rfl

theorem ends_pure {a : α} : Ends (pure a) s done failed ↔ done a s := Iff.rfl

theorem ends_throw {fault : Fault} :
    Ends (throw fault : Run α) s done failed ↔ failed fault s := Iff.rfl

theorem ends_ofExcept {e : Except Fault α} : Ends (ofExcept e) s done failed ↔
    (∀ a, e = .ok a → done a s) ∧ ∀ fault, e = .error fault → failed fault s := by
  unfold Ends ofExcept
  cases e <;> simp

theorem ends_display {v : Value} {done : Text → Session → Prop} :
    Ends (display v) s done failed ↔
      (∀ t, v.display = .ok t → done t s) ∧ ∀ fault, v.display = .error fault → failed fault s :=
  ends_ofExcept

theorem ends_tell {step : Step} {done : Unit → Session → Prop} :
    Ends (tell step) s done failed ↔ done () ⟨s.exchanges, s.steps ++ [step]⟩ := Iff.rfl

theorem ends_tellAll {steps : List Step} {done : Unit → Session → Prop} :
    Ends (tellAll steps) s done failed ↔ done () ⟨s.exchanges, s.steps ++ steps⟩ := Iff.rfl

theorem ends_ask {engine : Engine} {r : Request} {done : Value → Session → Prop} :
    Ends (ask engine r) s done failed ↔
      (∀ v, engine s.exchanges r = .ok v → done v ⟨s.exchanges ++ [⟨r, .ok v⟩], s.steps⟩) ∧
        ∀ fault, engine s.exchanges r = .error fault →
          failed fault ⟨s.exchanges ++ [⟨r, .error fault⟩], s.steps⟩ := by
  unfold Ends ask
  cases engine s.exchanges r <;> simp

/-- Several values are shown without the engine. -/
theorem mapM_display : ∀ vs : List Value, vs.mapM display = ofExcept (vs.mapM Value.display)
  | [] => rfl
  | v :: vs => by
    rw [List.mapM_cons, List.mapM_cons, mapM_display vs]
    funext s
    rw [bind_apply]
    unfold display ofExcept
    rcases v.display with fault | t
    · rfl
    · dsimp only
      rw [bind_apply]
      rcases vs.mapM Value.display with fault | ts <;> rfl

end Stepwise.Run
