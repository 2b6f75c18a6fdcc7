import Stepwise.Solve.Engine

/-!
# Outcomes

Computations that can fail are taken apart at their binds: `bind_eq_ok` and `bind_eq_error` for
`Except`, and `Run.bind_eq_ok` for runs, which pass a session on.
-/

namespace Stepwise

variable {ε α β : Type}

theorem bind_eq_ok {x : Except ε α} {f : α → Except ε β} {b : β} :
    (x >>= f) = .ok b ↔ ∃ a, x = .ok a ∧ f a = .ok b := by
  cases x with
  | error e => simp [bind, Except.bind]
  | ok a => simp [bind, Except.bind]

theorem bind_eq_error {x : Except ε α} {f : α → Except ε β} {e : ε} :
    (x >>= f) = .error e ↔ x = .error e ∨ ∃ a, x = .ok a ∧ f a = .error e := by
  cases x with
  | error e' => simp [bind, Except.bind]
  | ok a => simp [bind, Except.bind]

theorem ok_bind (a : α) (f : α → Except ε β) : (Except.ok a >>= f) = f a := rfl

theorem pure_eq_ok {a b : α} : (pure a : Except ε α) = .ok b ↔ a = b := by
  change Except.ok a = Except.ok b ↔ _
  rw [Except.ok.injEq]

/-- A computation that is found to succeed with a value as wanted. -/
theorem exists_ok_of_check {x : Except ε α} {p : α → Bool}
    (h : (match x with | .ok a => p a | .error _ => false) = true) :
    ∃ a, x = .ok a ∧ p a = true := by
  cases x with
  | error e => exact absurd h Bool.false_ne_true
  | ok a => exact ⟨a, rfl, h⟩

/-- A value that is found to be an integer. -/
theorem Value.eq_int_of_check {v : Value} {m : Int}
    (h : (match v with | .int n => n == m | _ => false) = true) : v = .int m := by
  split at h
  · rw [eq_of_beq h]
  · exact absurd h Bool.false_ne_true

/-- What a recorded conversation replies has been recorded. -/
theorem Engine.mem_of_ofReplies {replies : List Reply} {before : List Exchange} {r : Request}
    {v : Value} (h : Engine.ofReplies replies before r = .ok v) : .ok v ∈ replies := by
  change (replies[before.length]?).getD (.error Engine.exhausted) = .ok v at h
  cases hr : replies[before.length]? with
  | none => exact absurd h (by simp [hr])
  | some reply =>
    rw [hr, Option.getD_some] at h
    exact h ▸ List.mem_of_getElem? hr

namespace Run

variable {s s' s'' : Session}

theorem bind_apply (x : Run α) (f : α → Run β) (s : Session) :
    (x >>= f) s =
      match x s with
      | (.ok a, s') => f a s'
      | (.error e, s') => (.error e, s') := by
  simp only [bind, ExceptT.bind, ExceptT.mk, StateT.bind]
  rcases x s with ⟨_ | _, _⟩ <;> rfl

theorem bind_eq_ok {x : Run α} {f : α → Run β} {b : β} :
    (x >>= f) s = (.ok b, s'') ↔ ∃ a s', x s = (.ok a, s') ∧ f a s' = (.ok b, s'') := by
  rw [bind_apply]
  constructor
  · intro h
    generalize x s = r at h
    obtain ⟨_ | a, s'⟩ := r
    · exact absurd (congrArg Prod.fst h) (by simp)
    · exact ⟨a, s', rfl, h⟩
  · rintro ⟨a, s', hx, h⟩
    rw [hx]
    exact h

/-- A run that is found to succeed. -/
theorem exists_ok_of_check {x : Run α}
    (h : (match x s with | (.ok _, _) => true | (.error _, _) => false) = true) :
    ∃ a s', x s = (.ok a, s') := by
  generalize x s = r at h
  obtain ⟨_ | a, s'⟩ := r
  · exact absurd h Bool.false_ne_true
  · exact ⟨a, s', rfl⟩

theorem ofExcept_eq_ok {e : Except Fault α} {a : α} :
    ofExcept e s = (.ok a, s') ↔ e = .ok a ∧ s = s' := by
  change (e, s) = (Except.ok a, s') ↔ _
  rw [Prod.mk.injEq]

theorem pure_eq_ok {a b : α} : (pure a : Run α) s = (.ok b, s') ↔ a = b ∧ s = s' := by
  change ofExcept (.ok a) s = _ ↔ _
  rw [ofExcept_eq_ok, Except.ok.injEq]

theorem display_eq_ok {v : Value} {t : Text} :
    display v s = (.ok t, s') ↔ v.display = .ok t ∧ s = s' := ofExcept_eq_ok

/-- An engine without a memory answers as its function says, in every session. -/
theorem ask_ofFunction_eq_ok {f : Request → Reply} {r : Request} {v : Value} :
    ask (.ofFunction f) r s = (.ok v, s') ↔
      f r = .ok v ∧ ⟨s.exchanges ++ [⟨r, f r⟩], s.steps⟩ = s' := by
  change (f r, (⟨s.exchanges ++ [⟨r, f r⟩], s.steps⟩ : Session)) = (Except.ok v, s') ↔ _
  rw [Prod.mk.injEq]

end Run

end Stepwise
