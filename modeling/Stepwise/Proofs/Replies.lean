import Stepwise.Proofs.Carried

/-!
# What an engine replies with

The engine over a library answers an evaluation with a number or a text, and every other request with
a text, a list of texts or a truth value. So the values of a solution are numbers only if it is a
solution of an arithmetic problem, and among them only an integer can be impossible to show.

Results: `isReply_answer`, for every request, and `keeps_engine`, for every solution.
-/

namespace Stepwise

namespace Value

/-- A value as an engine over a library replies with. It is a number only if `numbers` holds. -/
inductive IsReply (numbers : Prop) : Value → Prop
  | null : IsReply numbers .null
  | bool (b : Bool) : IsReply numbers (.bool b)
  | text (t : Text) : IsReply numbers (.text t)
  | texts (ts : List Text) : IsReply numbers (.list (ts.map .text))
  | int (h : numbers) (n : Int) : IsReply numbers (.int n)
  | float (h : numbers) (x : Binary64) : IsReply numbers (.float x)

theorem IsReply.mono {numbers : Prop} {v : Value} (h : v.IsReply numbers) : v.IsReply True := by
  cases h with
  | null => exact .null
  | bool b => exact .bool b
  | text t => exact .text t
  | texts ts => exact .texts ts
  | int _ n => exact .int trivial n
  | float _ x => exact .float trivial x

/-- An integer that is too long to be written. -/
inductive IsLong : Value → Prop
  | int {n : Int} (h : 10 ^ Fault.digitLimit ≤ n.natAbs) : IsLong (.int n)

variable {numbers : Prop} {v w : Value} {n : Int}

theorem integerText_of_lt (h : n.natAbs < 10 ^ Fault.digitLimit) :
    integerText n = .ok (Text.ofInt n) := if_neg (Nat.not_le.mpr h)

theorem integerText_of_le (h : 10 ^ Fault.digitLimit ≤ n.natAbs) :
    integerText n = .error .integerTooLong := if_pos h

theorem display_eq_integerText (n : Int) : display (.int n) = integerText n := by
  rw [display, quoted]
  rintro t ⟨⟩

/-- What a value is rounded to is a number, or is the value. -/
theorem IsReply.round {precision : Int} (h : IsReply numbers v) (hw : v.round precision = .ok w) :
    IsReply numbers w := by
  cases h with
  | float hn x =>
    rw [Value.round] at hw
    split at hw
    · obtain ⟨scaled, -, hw⟩ := bind_eq_ok.mp hw
      split at hw
      · obtain rfl := Except.ok.inj hw
        exact .float hn x
      · obtain ⟨rounded, -, hw⟩ := bind_eq_ok.mp hw
        obtain rfl := Except.ok.inj hw
        split
        · exact .int hn _
        · exact .float hn _
    · obtain rfl := Except.ok.inj hw
      exact .float hn x
  | null => exact Except.ok.inj hw ▸ .null
  | bool b => exact Except.ok.inj hw ▸ .bool b
  | text t => exact Except.ok.inj hw ▸ .text t
  | texts ts => exact Except.ok.inj hw ▸ .texts ts
  | int hn n => exact Except.ok.inj hw ▸ .int hn n

theorem quotedItems_texts : ∀ ts : List Text, ∃ shown, quotedItems (ts.map .text) = .ok shown
  | [] => ⟨[], rfl⟩
  | t :: ts => by
    obtain ⟨shown, h⟩ := quotedItems_texts ts
    refine ⟨Text.quote t :: shown, ?_⟩
    rw [List.map_cons, quotedItems, h]
    rfl

theorem IsLong.display (h : v.IsLong) : v.display = .error .integerTooLong := by
  obtain ⟨h⟩ := h
  exact (display_eq_integerText _).trans (integerText_of_le h)

/-- Of these values only an integer that is too long cannot be shown. -/
theorem IsReply.display (h : IsReply numbers v) : (∃ shown, v.display = .ok shown) ∨ v.IsLong := by
  cases h with
  | int _ n =>
    rcases Nat.lt_or_ge n.natAbs (10 ^ Fault.digitLimit) with hn | hn
    · exact .inl ⟨_, display_int hn⟩
    · exact .inr (.int hn)
  | texts ts =>
    obtain ⟨shown, hs⟩ := quotedItems_texts ts
    refine .inl ⟨'[' :: Text.joinWith ", ".toList shown ++ [']'], ?_⟩
    rw [Value.display, quoted, hs]
    · rfl
    · rintro t ⟨⟩
  | bool b => cases b <;> exact .inl ⟨_, rfl⟩
  | null => exact .inl ⟨_, rfl⟩
  | text t => exact .inl ⟨_, rfl⟩
  | float _ x => exact .inl ⟨_, rfl⟩

end Value

namespace Library

variable {L : Library} {config : Config} {e : L.Expr} {v : Value}

theorem isReply_written {numbers : Prop} (h : L.written e = .ok v) : v.IsReply numbers := by
  obtain ⟨t, -, rfl⟩ := written_eq_ok.mp h
  exact .text t

theorem isReply_reply (h : L.reply e = .ok v) : v.IsReply True := by
  rcases reply_cases h with ⟨n, -, rfl⟩ | ⟨z, x, -, -, -, -, rfl⟩ | ⟨t, -, rfl⟩
  · exact .int trivial n
  · exact .float trivial x
  · exact .text t

theorem mapM_written : ∀ {es : List L.Expr} {vs : List Value}, es.mapM L.written = .ok vs →
    ∃ ts : List Text, vs = ts.map .text
  | [], vs, h => by
    rw [List.mapM_nil, pure_eq_ok] at h
    exact ⟨[], h.symm⟩
  | e :: es, vs, h => by
    simp only [List.mapM_cons, bind_eq_ok, pure_eq_ok] at h
    obtain ⟨w, hw, ws, hws, rfl⟩ := h
    obtain ⟨t, -, rfl⟩ := written_eq_ok.mp hw
    obtain ⟨ts, rfl⟩ := mapM_written hws
    exact ⟨t :: ts, rfl⟩

/-- Only an evaluation is answered with a number. -/
theorem isReply_answer {r : Request} (h : L.answer config r = .ok v) :
    v.IsReply (r.isEvaluation = true) := by
  cases r with
  | evaluate t =>
    obtain ⟨-, e, -, -, -, h⟩ := evaluate_eq_ok_iff.mp h
    simpa [Request.isEvaluation] using isReply_reply h
  | differentiate t x =>
    obtain ⟨e, -, h⟩ := bind_eq_ok.mp h
    obtain ⟨e', -, h⟩ := bind_eq_ok.mp h
    exact isReply_written h
  | integrate t x =>
    obtain ⟨e, -, h⟩ := bind_eq_ok.mp h
    obtain ⟨e', -, h⟩ := bind_eq_ok.mp h
    split at h
    · exact isReply_written h
    · exact absurd h (by simp [throw, throwThe, MonadExceptOf.throw])
  | expand w =>
    obtain ⟨shown, -, h⟩ := bind_eq_ok.mp h
    obtain ⟨e, -, h⟩ := bind_eq_ok.mp h
    obtain ⟨e', -, h⟩ := bind_eq_ok.mp h
    exact isReply_written h
  | limit t x a d =>
    obtain ⟨e, -, h⟩ := bind_eq_ok.mp h
    obtain ⟨point, -, h⟩ := bind_eq_ok.mp h
    obtain ⟨e', -, h⟩ := bind_eq_ok.mp h
    exact isReply_written h
  | freeVariables t =>
    obtain ⟨sides, -, h⟩ := bind_eq_ok.mp h
    obtain ⟨e, -, h⟩ := bind_eq_ok.mp h
    obtain rfl := Except.ok.inj h
    exact .texts _
  | isIdentity t =>
    obtain ⟨sides, -, h⟩ := bind_eq_ok.mp h
    obtain ⟨e, -, h⟩ := bind_eq_ok.mp h
    obtain ⟨b, -, h⟩ := bind_eq_ok.mp h
    obtain rfl := Except.ok.inj h
    exact .bool b
  | solve t x =>
    cases x with
    | text x =>
      obtain ⟨⟨l, r⟩, -, h⟩ := bind_eq_ok.mp h
      obtain ⟨found, -, h⟩ := bind_eq_ok.mp h
      split at h
      · exact absurd h (by simp [throw, throwThe, MonadExceptOf.throw])
      · obtain ⟨vs, hvs, h⟩ := bind_eq_ok.mp h
        obtain rfl := Except.ok.inj h
        obtain ⟨ts, rfl⟩ := mapM_written hvs
        exact .texts ts
    | _ => exact absurd h (by simp [answer])

/-- **Only solutions of arithmetic problems carry numbers.** -/
theorem keeps_engine (L : Library) (config : Config) (kind : ProblemKind) :
    (L.engine config).Keeps config.precision kind (Value.IsReply (kind = .arithmetic)) where
  null := .null
  text := .text
  reply hr hv := by
    rw [← propext hr]
    exact isReply_answer hv
  numeral hk n := by
    cases n with
    | whole n => exact .int hk n
    | decimal x => exact .float hk x
  round _ _ _ hv hw := hv.round hw

end Library

end Stepwise
