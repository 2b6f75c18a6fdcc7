import Stepwise.Algebra.Engine
import Stepwise.Console
import Stepwise.Proofs.Entry
import Stepwise.Proofs.Replies
import Stepwise.Web.Service

/-!
# What the service and the console report

The service and the console tell about the same solution. The service tells all values of the
solution as JSON, which has no way to write a double that is not finite; the console writes the
answer only, and gives up at an integer that is too long to be written. Both set up their log first,
with a level that nothing has looked at when the settings were read.

`Framework.Lawful` is what this asks of the framework between the service and its callers, where
`Framework.strict` is an instance. What a framework makes of integers that are too long is left open.

Results: `reports_agree`, which solutions are told and how, with every library, for every problem and
every settings file that gives a configuration; and `solution_lost`, a solved problem that is told
without its solution.
-/

namespace Stepwise

open Settings (field?)

/-! ## Values as JSON -/

namespace Value

/-- A double that is not finite. -/
def IsNonFinite (v : Value) : Prop := ∃ x : Binary64, v = .float x ∧ x.isFinite = false

/-- A number that cannot be written as JSON. -/
inductive IsUnwritable : Value → Prop
  | long {v : Value} (h : v.IsLong) : IsUnwritable v
  | nonFinite {v : Value} (h : v.IsNonFinite) : IsUnwritable v

theorem IsReply.numbers_of_isNonFinite {numbers : Prop} {v : Value} (h : v.IsReply numbers)
    (hv : v.IsNonFinite) : numbers := by
  obtain ⟨x, rfl, -⟩ := hv
  generalize hx : Value.float x = v at h
  cases h with
  | float hn _ => exact hn
  | _ => exact Value.noConfusion hx

/-- Only numbers cannot be written. -/
theorem IsReply.numbers_of_isUnwritable {numbers : Prop} {v : Value} (h : v.IsReply numbers)
    (hu : v.IsUnwritable) : numbers := by
  cases hu with
  | long hl =>
    obtain ⟨hl⟩ := hl
    cases h with
    | int hn _ => exact hn
  | nonFinite hv => exact h.numbers_of_isNonFinite hv

end Value

namespace Web

theorem areWritable_iff : ∀ {vs : List Value},
    areWritable vs = true ↔ ∀ v ∈ vs, isWritable v = true
  | [] => by simp [areWritable]
  | v :: vs => by
    rw [areWritable, Bool.and_eq_true, areWritable_iff, List.forall_mem_cons]

theorem isWritable_list {vs : List Value} :
    isWritable (.list vs) = true ↔ ∀ v ∈ vs, isWritable v = true := by
  rw [isWritable, areWritable_iff]

theorem areWritableFields_iff : ∀ {fields : List (Text × Value)},
    areWritableFields fields = true ↔ ∀ f ∈ fields, isWritable f.2 = true
  | [] => by simp [areWritableFields]
  | (_, v) :: fields => by
    rw [areWritableFields, Bool.and_eq_true, areWritableFields_iff, List.forall_mem_cons]

theorem isWritable_record {fields : List (Text × Value)} :
    isWritable (.record fields) = true ↔ ∀ f ∈ fields, isWritable f.2 = true := by
  rw [isWritable, areWritableFields_iff]

theorem isWritable_step (step : Step) : isWritable step.toValue = isWritable step.result := by
  unfold Step.toValue
  cases hr : step.result <;> simp [isWritable, areWritableFields, Value.isNull]

/-- The values of replies that cannot be written are numbers. -/
theorem isWritable_iff {numbers : Prop} {v : Value} (h : v.IsReply numbers) :
    isWritable v = true ↔ ¬v.IsUnwritable := by
  cases h with
  | int _ n =>
    rw [isWritable]
    rcases Nat.lt_or_ge n.natAbs (10 ^ Fault.digitLimit) with hn | hn
    · rw [Value.integerText_of_lt hn]
      refine iff_of_true rfl fun hu => ?_
      cases hu with
      | long hl =>
        obtain ⟨hl⟩ := hl
        exact absurd hl (Nat.not_le.mpr hn)
      | nonFinite hv =>
        obtain ⟨x, hx, -⟩ := hv
        exact Value.noConfusion hx
    · rw [Value.integerText_of_le hn]
      exact iff_of_false Bool.false_ne_true (not_not.mpr (.long (.int hn)))
  | float _ x =>
    rw [isWritable]
    cases hx : x.isFinite with
    | true =>
      refine iff_of_true rfl fun hu => ?_
      cases hu with
      | long hl => exact nomatch hl
      | nonFinite hv =>
        obtain ⟨y, hy, infinite⟩ := hv
        obtain rfl := Value.float.inj hy
        exact absurd (hx.symm.trans infinite) (by decide)
    | false => exact iff_of_false Bool.false_ne_true (not_not.mpr (.nonFinite ⟨x, rfl, hx⟩))
  | texts ts =>
    refine iff_of_true (isWritable_list.mpr fun v hv => ?_) fun hu => ?_
    · obtain ⟨t, -, rfl⟩ := List.mem_map.mp hv
      rfl
    · rcases hu with ⟨⟨⟩⟩ | ⟨x, hx, -⟩
      exact Value.noConfusion hx
  | null => exact iff_of_true rfl fun | .nonFinite ⟨_, h, _⟩ => Value.noConfusion h
  | bool b => exact iff_of_true rfl fun | .nonFinite ⟨_, h, _⟩ => Value.noConfusion h
  | text t => exact iff_of_true rfl fun | .nonFinite ⟨_, h, _⟩ => Value.noConfusion h

namespace Framework

/-! ## Values without infinities -/

theorem finiteItems_eq_map : ∀ vs : List Value, finiteItems vs = vs.map finite
  | [] => rfl
  | v :: vs => by rw [finiteItems, finiteItems_eq_map, List.map_cons]

theorem finiteFields_eq_map : ∀ fields : List (Text × Value),
    finiteFields fields = fields.map fun f => (f.1, finite f.2)
  | [] => rfl
  | (_, v) :: fields => by rw [finiteFields, finiteFields_eq_map, List.map_cons]

theorem finite_list_iff {vs : List Value} :
    finite (.list vs) = .list vs ↔ ∀ v ∈ vs, finite v = v := by
  rw [finite, finiteItems_eq_map, Value.list.injEq]
  exact ⟨fun h => List.map_inj_left.mp (h.trans (List.map_id _).symm), fun h =>
    (List.map_congr_left h).trans (List.map_id _)⟩

theorem finite_record_iff {fields : List (Text × Value)} :
    finite (.record fields) = .record fields ↔ ∀ f ∈ fields, finite f.2 = f.2 := by
  rw [finite, finiteFields_eq_map, Value.record.injEq]
  constructor
  · intro h f hf
    exact congrArg Prod.snd (List.map_inj_left.mp (h.trans (List.map_id _).symm) f hf)
  · intro h
    refine (List.map_congr_left (g := id) fun f hf => ?_).trans (List.map_id _)
    rw [h f hf]
    rfl

theorem finite_ne_of_isNonFinite {v : Value} (h : v.IsNonFinite) : finite v ≠ v := by
  obtain ⟨x, rfl, hx⟩ := h
  rw [finite, if_neg (Bool.eq_false_iff.mp hx)]
  exact Value.noConfusion

mutual

/-- What is left of a value is finite. -/
theorem finite_finite : ∀ v : Value, finite (finite v) = finite v
  | .float x => by
    rw [finite]
    split
    next h => rw [finite, if_pos h]
    next => rfl
  | .list vs => by rw [finite, finite, finiteItems_finiteItems]
  | .record fields => by rw [finite, finite, finiteFields_finiteFields]
  | .null | .bool _ | .int _ | .text _ => rfl

theorem finiteItems_finiteItems : ∀ vs : List Value, finiteItems (finiteItems vs) = finiteItems vs
  | [] => rfl
  | v :: vs => by rw [finiteItems, finiteItems, finite_finite, finiteItems_finiteItems]

theorem finiteFields_finiteFields : ∀ fields : List (Text × Value),
    finiteFields (finiteFields fields) = finiteFields fields
  | [] => rfl
  | (_, v) :: fields => by rw [finiteFields, finiteFields, finite_finite, finiteFields_finiteFields]

end

mutual

/-- What can be written is finite. -/
theorem finite_of_isWritable : ∀ v : Value, isWritable v = true → finite v = v
  | .float x => fun h => by
    rw [isWritable] at h
    rw [finite, if_pos h]
  | .list vs => fun h => by
    rw [isWritable] at h
    rw [finite, finiteItems_of_areWritable vs h]
  | .record fields => fun h => by
    rw [isWritable] at h
    rw [finite, finiteFields_of_areWritableFields fields h]
  | .null | .bool _ | .int _ | .text _ => fun _ => rfl

theorem finiteItems_of_areWritable : ∀ vs : List Value, areWritable vs = true →
    finiteItems vs = vs
  | [] => fun _ => rfl
  | v :: vs => fun h => by
    obtain ⟨hv, hvs⟩ := Bool.and_eq_true_iff.mp h
    rw [finiteItems, finite_of_isWritable v hv, finiteItems_of_areWritable vs hvs]

theorem finiteFields_of_areWritableFields : ∀ fields : List (Text × Value),
    areWritableFields fields = true → finiteFields fields = fields
  | [] => fun _ => rfl
  | (_, v) :: fields => fun h => by
    obtain ⟨hv, hfields⟩ := Bool.and_eq_true_iff.mp h
    rw [finiteFields, finite_of_isWritable v hv, finiteFields_of_areWritableFields fields hfields]

end

end Framework

/-! ## The service -/

/-- A problem as it is posted to the service. -/
def post (problem : Text) : Call where
  method := .post
  path := "/api/solve".toList
  body := .value (.record [("problem".toList, .text problem)])

/-- What a service can rely on. JSON has no numbers that are not finite: a response that is returned
as it is fails with them, and whatever becomes of them in a response that is checked, they are not
told. -/
structure Framework.Lawful (framework : Framework) : Prop where
  /-- A posted problem reaches its handler. -/
  handler : ∀ problem, framework.handler (post problem) = .ok (.solve problem)
  respond : ∀ {status v}, isWritable v = true → framework.respond status v = .json status v
  respond_nonFinite : ∀ {status v}, Framework.finite v ≠ v → (framework.respond status v).status = 500
  /-- What is told of a solution that can be written is all that there is. -/
  respondChecked : ∀ {shown} {r : Solution}, (∀ v ∈ r.values, v.IsReply True ∧ ¬v.IsUnwritable) →
    framework.respondChecked (solvedFields shown r) =
      .json 200 (.record (withoutNulls (solvedFields shown r)))
  respond_finite : ∀ {status v status' body}, framework.respond status v = .json status' body →
    Framework.finite body = body
  respondChecked_finite : ∀ {fields status body},
    framework.respondChecked fields = .json status body → Framework.finite body = body

/-- What the service tells about a solution: the solution itself only if there is one. -/
def told (r : Solution) : List Text :=
  ["type".toList, "steps".toList] ++ if r.isSolved then ["solution".toList] else []

theorem steps_mem_told (r : Solution) : "steps".toList ∈ told r :=
  List.mem_append_left _ (by decide)

theorem solution_mem_told {r : Solution} (h : r.isSolved = true) : "solution".toList ∈ told r := by
  rw [told, if_pos h]
  decide

/-- The answer tells about the solution, with the values that the solution has as a record. -/
def Tells (r : Solution) (a : Answer) : Prop :=
  ∃ body fields, a = .json (if r.isSolved then 200 else 400) (.record body) ∧
    r.toValue = .record fields ∧ ∀ name ∈ told r, field? body name = field? fields name

theorem answer_eq_null {r : Solution} (h : r.isSolved = false) : r.answer = .null := by
  by_contra hn
  exact absurd (h.symm.trans ((Solution.isSolved_iff r).mpr hn)) (by decide)

/-- Fields that are something stay. -/
theorem field?_withoutNulls {fields : List (Text × Value)} {name : Text} {v : Value}
    (h : field? fields name = some v) (hv : v.isNull = false) :
    field? (withoutNulls fields) name = some v := by
  obtain ⟨⟨n, w⟩, hf, rfl⟩ := Option.map_eq_some_iff.mp h
  obtain ⟨hname, before, after, rfl, others⟩ := List.find?_eq_some_iff_append.mp hf
  refine Option.map_eq_some_iff.mpr ⟨(n, w), List.find?_eq_some_iff_append.mpr ?_, rfl⟩
  refine ⟨hname, withoutNulls before, withoutNulls after, ?_, fun f hf => ?_⟩
  · rw [withoutNulls, List.filter_append, List.filter_cons_of_pos (by rw [hv]; rfl)]
    rfl
  · exact others f (List.mem_of_mem_filter hf)

/-- The values that are told are those of the solution. -/
theorem tells_solved {shown : Text × Option Text} {r : Solution} (h : r.isSolved = true) :
    Tells r (.json 200 (.record (withoutNulls (solvedFields shown r)))) := by
  have answered : r.answer.isNull = false := by simpa [Solution.isSolved] using h
  refine ⟨withoutNulls (solvedFields shown r), _, by rw [h, if_pos rfl], rfl, ?_⟩
  rw [told, h, if_pos rfl]
  simp only [List.forall_mem_append, List.forall_mem_cons, List.not_mem_nil, false_implies,
    implies_true, and_true]
  refine ⟨⟨?_, ?_⟩, ?_⟩
  · exact field?_withoutNulls (v := .text r.kind.name) rfl rfl
  · exact field?_withoutNulls (v := .list (r.steps.map Step.toValue)) rfl rfl
  · exact field?_withoutNulls (v := r.answer) rfl answered

theorem tells_unsolved {shown : Text × Option Text} {r : Solution} (h : r.isSolved = false) :
    Tells r (.json 400 (.record (unsolvedFields shown r))) := by
  refine ⟨unsolvedFields shown r, _, by rw [h, if_neg Bool.false_ne_true], rfl, ?_⟩
  unfold told unsolvedFields
  rw [h, if_neg Bool.false_ne_true, List.append_nil]
  simp only [List.forall_mem_cons]
  exact ⟨rfl, rfl, nofun⟩

theorem isWritable_steps {r : Solution} (h : ∀ v ∈ r.values, isWritable v = true) :
    isWritable (.list (r.steps.map Step.toValue)) = true := by
  rw [Solution.values, List.forall_mem_cons, List.forall_mem_map] at h
  rw [isWritable_list, List.forall_mem_map]
  intro step hs
  rw [isWritable_step]
  exact h.2 step hs

theorem isWritable_unsolvedFields {shown : Text × Option Text} {r : Solution}
    (h : ∀ v ∈ r.values, isWritable v = true) :
    isWritable (.record (unsolvedFields shown r)) = true := by
  rw [isWritable_record, unsolvedFields]
  simp only [List.forall_mem_cons]
  exact ⟨rfl, rfl, rfl, rfl, isWritable_steps h, nofun⟩

theorem isWritable_solvedFields {shown : Text × Option Text} {r : Solution}
    (h : ∀ v ∈ r.values, isWritable v = true) :
    isWritable (.record (withoutNulls (solvedFields shown r))) = true := by
  rw [isWritable_record, withoutNulls, solvedFields]
  intro f hf
  revert f
  suffices ∀ f ∈ solvedFields shown r, isWritable f.2 = true from
    fun f hf => this f (List.mem_of_mem_filter hf)
  rw [solvedFields]
  simp only [List.forall_mem_cons]
  refine ⟨rfl, rfl, h _ List.mem_cons_self, isWritable_steps h, ?_, nofun⟩
  cases shown.2 <;> rfl

open Framework (finite)

/-- What is told of a solution in an answer without infinities has none. -/
theorem finite_of_tells {r : Solution} {status : Nat} {body : Value}
    (h : Tells r (.json status body)) (hb : finite body = body) : ∀ v ∈ r.values, finite v = v := by
  obtain ⟨fields, fields', he, hf, same⟩ := h
  obtain ⟨-, rfl⟩ := Answer.json.inj he
  obtain rfl := Value.record.inj hf
  have field {name : Text} {v : Value} (h : field? fields name = some v) : finite v = v := by
    obtain ⟨f, hm, rfl⟩ := Option.map_eq_some_iff.mp h
    exact Framework.finite_record_iff.mp hb f (List.mem_of_find?_eq_some hm)
  have steps : finite (.list (r.steps.map Step.toValue)) = .list (r.steps.map Step.toValue) :=
    field ((same _ (steps_mem_told r)).trans rfl)
  rw [Framework.finite_list_iff, List.forall_mem_map] at steps
  rw [Solution.values, List.forall_mem_cons, List.forall_mem_map]
  refine ⟨?_, fun step hs => ?_⟩
  · cases solved : r.isSolved with
    | true => exact field ((same _ (solution_mem_told solved)).trans rfl)
    | false =>
      rw [answer_eq_null solved]
      rfl
  · by_cases none : step.result.isNull = true
    · rw [Value.isNull_iff.mp none]
      rfl
    · have finite := Framework.finite_record_iff.mp (steps step hs)
      rw [if_neg none] at finite
      exact finite ("result".toList, step.result) (by simp)

namespace Framework

variable {framework : Framework} {config : Config} {problem : Text} {r : Solution}

/-- A solution is told if all of its values can be written. -/
theorem Lawful.tells_ofSolution (lawful : framework.Lawful)
    (h : ∀ v ∈ r.values, v.IsReply True ∧ ¬v.IsUnwritable) :
    Tells r (framework.ofSolution config problem r) := by
  unfold ofSolution
  dsimp only
  cases solved : r.isSolved with
  | true =>
    rw [if_pos rfl, lawful.respondChecked h]
    exact tells_solved solved
  | false =>
    have writable : ∀ v ∈ r.values, isWritable v = true := fun v hv =>
      (isWritable_iff (h v hv).1).mpr (h v hv).2
    rw [if_neg Bool.false_ne_true, lawful.respond (isWritable_unsolvedFields writable)]
    exact tells_unsolved solved

/-- A solution with a number that is not finite is not told. If it is unsolved, the service fails. -/
theorem Lawful.not_tells_ofSolution (lawful : framework.Lawful)
    (h : ∃ v ∈ r.values, v.IsNonFinite) :
    ¬Tells r (framework.ofSolution config problem r) ∧
      (r.isSolved = false → (framework.ofSolution config problem r).status = 500) := by
  obtain ⟨v, hv, infinite⟩ := h
  have never {status : Nat} {body : Value} (hb : finite body = body) :
      ¬Tells r (.json status body) := fun tells =>
    finite_ne_of_isNonFinite infinite (finite_of_tells tells hb v hv)
  unfold ofSolution
  dsimp only
  cases solved : r.isSolved with
  | true =>
    refine ⟨fun tells => ?_, nofun⟩
    rw [if_pos rfl] at tells
    obtain ⟨body, -, he, -⟩ := id tells
    rw [he] at tells
    exact never (lawful.respondChecked_finite he) tells
  | false =>
    rw [if_neg Bool.false_ne_true]
    refine ⟨fun tells => ?_, fun _ => lawful.respond_nonFinite fun hb => ?_⟩
    · obtain ⟨body, -, he, -⟩ := id tells
      rw [he] at tells
      exact never (lawful.respond_finite he) tells
    · exact never hb (tells_unsolved solved)

/-- The framework that checks what it writes is lawful. -/
theorem lawful_strict : strict.Lawful where
  handler _ := rfl
  respond h := if_pos h
  respond_nonFinite := by
    intro status v h
    have unwritable : ¬isWritable v = true := fun hw => h (finite_of_isWritable v hw)
    change (written status v).status = 500
    rw [written, if_neg unwritable]
    rfl
  respondChecked := by
    intro shown r h
    have writable : isWritable (.record (withoutNulls (solvedFields shown r))) = true :=
      isWritable_solvedFields fun v hv => (isWritable_iff (h v hv).1).mpr (h v hv).2
    change written 200 (finite (.record (withoutNulls (solvedFields shown r)))) = _
    rw [finite_of_isWritable _ writable, written, if_pos writable]
  respond_finite := by
    intro status v status' body h
    change written status v = _ at h
    unfold written at h
    split at h
    next writable =>
      obtain ⟨-, rfl⟩ := Answer.json.inj h
      exact finite_of_isWritable _ writable
    next => exact Answer.noConfusion h
  respondChecked_finite := by
    intro fields status body h
    change written 200 (finite (.record (withoutNulls fields))) = _ at h
    unfold written at h
    split at h
    next =>
      obtain ⟨-, rfl⟩ := Answer.json.inj h
      exact finite_finite _
    next => exact Answer.noConfusion h

/-- A problem that is posted and not blank is answered with what is told about its solution. -/
theorem Lawful.answer_post (lawful : framework.Lawful)
    {solve : Config → Value → Except Fault Solution} {file : SettingsFile}
    (loaded : file.config = .ok config) (nonblank : Text.allBlank problem = false)
    (hr : solve config (.text problem) = .ok r) :
    framework.answer solve file (post problem) = framework.ofSolution config problem r := by
  unfold answer
  rw [lawful.handler]
  dsimp only
  rw [answerProblem, loaded]
  dsimp only
  rw [nonblank, if_neg Bool.false_ne_true, hr]

end Framework

/-- Is this the answer with the status and with a record as wanted? -/
def isTold (status : Nat) (wanted : List (Text × Value) → Bool) : Answer → Bool
  | .json s (.record body) => s == status && wanted body
  | _ => false

theorem exists_of_isTold {status : Nat} {wanted : List (Text × Value) → Bool} {a : Answer}
    (h : isTold status wanted a = true) :
    ∃ body, a = .json status (.record body) ∧ wanted body = true := by
  unfold isTold at h
  split at h
  next s body =>
    obtain ⟨hs, hb⟩ := Bool.and_eq_true_iff.mp h
    exact ⟨body, by rw [eq_of_beq hs], hb⟩
  next => exact absurd h Bool.false_ne_true

end Web

/-! ## The console -/

namespace Console

variable {engine : Config → Engine} {log : Log} {file : SettingsFile} {settings : Settings}
  {config : Config} {problem : Text} {r : Solution}

theorem solutionLines_ends (r : Solution) :
    (∃ t, solutionLines r = .ok t) ∧ (r.isSolved = true → ∃ shown, r.answer.display = .ok shown) ∨
      r.isSolved = true ∧ ∃ fault, solutionLines r = .error fault ∧
        r.answer.display = .error fault := by
  unfold solutionLines
  cases r.isSolved with
  | false => exact .inl ⟨⟨_, rfl⟩, nofun⟩
  | true =>
    cases r.answer.display with
    | ok shown => exact .inl ⟨⟨_, rfl⟩, fun _ => ⟨shown, rfl⟩⟩
    | error fault => exact .inr ⟨rfl, fault, rfl, rfl⟩

/-- The report on one problem comes to an end if the answer can be shown. -/
theorem run_single (hs : file.settings = .ok settings) (started : log.start settings = .ok ())
    (loaded : file.config = .ok config) (nonblank : Text.allBlank problem = false)
    (hr : Solver.solveProblem (engine config) config (.text problem) = .ok r) :
    (run log engine file [problem]).map Prod.fst =
      if r.isSolved then r.answer.display.map fun _ => 0 else .ok 1 := by
  have single : (run log engine file [problem]).map Prod.fst =
      (solutionLines r).map fun _ => if r.isSolved then 0 else 1 := by
    unfold run
    simp only [reportAll, reportOne, hs, started, loaded, nonblank, hr, ok_bind]
    cases solutionLines r with
    | ok t => cases r.isSolved <;> rfl
    | error fault => rfl
  rw [single]
  obtain ⟨⟨t, ht⟩, shows⟩ | ⟨solved, fault, ht, hd⟩ := solutionLines_ends r
  · rw [ht]
    split
    next solved =>
      obtain ⟨shown, hd⟩ := shows solved
      rw [hd]
      rfl
    next => rfl
  · rw [ht, hd, solved]
    rfl

/-- The report on one problem whose answer is a value of a reply. -/
theorem run_of_isReply {numbers : Prop} (hs : file.settings = .ok settings)
    (started : log.start settings = .ok ()) (loaded : file.config = .ok config)
    (nonblank : Text.allBlank problem = false)
    (hr : Solver.solveProblem (engine config) config (.text problem) = .ok r)
    (reply : r.answer.IsReply numbers) :
    (¬r.answer.IsLong →
      (run log engine file [problem]).map Prod.fst = .ok (if r.isSolved then 0 else 1)) ∧
    (r.answer.IsLong → run log engine file [problem] = .error .integerTooLong) := by
  have single := run_single hs started loaded nonblank hr
  refine ⟨fun short => ?_, fun long => ?_⟩
  · obtain ⟨shown, hd⟩ := reply.display.resolve_right short
    rw [single, hd]
    cases r.isSolved <;> rfl
  · have solved : r.isSolved = true := by
      rw [Solution.isSolved_iff]
      rintro h
      rw [h] at long
      exact nomatch long
    rw [solved, long.display] at single
    cases h : run log engine file [problem] with
    | error fault =>
      rw [h] at single
      exact congrArg _ (Except.error.inj single)
    | ok report =>
      rw [h] at single
      exact absurd single (by simp [Except.map])

end Console

namespace Library

/-- **The service and the console tell of one solution.** With every library, every problem that is
not blank has a solution under every settings file that gives a configuration. A level that the log
cannot be set up with stops both programs before they begin. Else the solution is told to who posts
the problem, with the status of its success, if all of its values can be written; it is not told if
one of them is a double that is not finite, and if it is unsolved then, the service fails. The console
ends with the code of its success unless the answer is an integer that is too long to be shown. Only
solutions of arithmetic problems have such numbers. -/
theorem reports_agree (L : Library) {framework : Web.Framework} (lawful : framework.Lawful) (log : Log)
    {file : SettingsFile} {config : Config} {problem : Text} (loaded : file.config = .ok config)
    (nonblank : Text.allBlank problem = false) :
    ∃ r settings, Solver.solveProblem (L.engine config) config (.text problem) = .ok r ∧
      file.settings = .ok settings ∧
      (∀ fault, log.start settings = .error fault →
        framework.serve log (fun c => Solver.solveProblem (L.engine c) c) file = .error fault ∧
          Console.run log L.engine file [problem] = .error fault) ∧
      (log.start settings = .ok () → ∃ service,
        framework.serve log (fun c => Solver.solveProblem (L.engine c) c) file = .ok service ∧
          ((∀ v ∈ r.values, ¬v.IsUnwritable) → Web.Tells r (service (Web.post problem))) ∧
          ((∃ v ∈ r.values, v.IsNonFinite) → ¬Web.Tells r (service (Web.post problem)) ∧
            (r.isSolved = false → (service (Web.post problem)).status = 500)) ∧
          (¬r.answer.IsLong → (Console.run log L.engine file [problem]).map Prod.fst =
            .ok (if r.isSolved then 0 else 1)) ∧
          (r.answer.IsLong → Console.run log L.engine file [problem] = .error .integerTooLong)) ∧
      ((∃ v ∈ r.values, v.IsUnwritable) → ProblemKind.classify problem = .arithmetic) := by
  have solved : Solver.solveProblem (L.engine config) config (.text problem) = _ :=
    Solver.solveProblem_text nonblank
  have replies := Solver.forall_values_solveAs (L.keeps_engine config (.classify problem)) problem
  obtain ⟨settings, hs, -⟩ := bind_eq_ok.mp loaded
  refine ⟨_, settings, solved, hs, fun fault failed => ?_, fun started => ?_,
    fun ⟨v, hv, hu⟩ => (replies v hv).numbers_of_isUnwritable hu⟩
  · constructor
    · rw [Web.Framework.serve, hs, ok_bind, failed]
      rfl
    · rw [Console.run, hs, ok_bind, failed]
      rfl
  · have told : framework.answer (fun c => Solver.solveProblem (L.engine c) c) file
        (Web.post problem) = framework.ofSolution config problem _ :=
      lawful.answer_post loaded nonblank solved
    obtain ⟨short, long⟩ :=
      Console.run_of_isReply hs started loaded nonblank solved (replies _ List.mem_cons_self)
    refine ⟨framework.answer (fun c => Solver.solveProblem (L.engine c) c) file, ?_,
      fun writable => ?_, fun infinite => ?_, short, long⟩
    · rw [Web.Framework.serve, hs, ok_bind, started]
      rfl
    · rw [told]
      exact lawful.tells_ofSolution fun v hv => ⟨(replies v hv).mono, writable v hv⟩
    · rw [told]
      exact lawful.not_tells_ofSolution infinite

end Library
namespace Algebra

/-- `1 + 2` is told and ends the console with 0. -/
theorem reports_agree_sum :
    Web.Framework.strict.Lawful ∧
    ∃ r service, Solver.solveProblem (engine .default) .default (.text "1 + 2".toList) = .ok r ∧
      Web.Framework.strict.serve .absent (fun c => Solver.solveProblem (engine c) c) .missing =
        .ok service ∧
      Web.Tells r (service (Web.post "1 + 2".toList)) ∧
      (Console.run .absent engine .missing ["1 + 2".toList]).map Prod.fst = .ok 0 := by
  have loaded : SettingsFile.config .missing = .ok .default := rfl
  have nonblank : Text.allBlank "1 + 2".toList = false := by decide
  obtain ⟨r, settings, hr, hs, -, served, -⟩ :=
    library.reports_agree Web.Framework.lawful_strict .absent loaded nonblank
  obtain rfl := Except.ok.inj hs
  obtain ⟨service, hv, told, -, short, -⟩ := served (Log.start_default .absent)
  obtain rfl := Except.ok.inj ((Solver.solveProblem_text nonblank).symm.trans hr)
  have solved : (Solver.solveAs (library.engine .default) .default (.classify "1 + 2".toList)
      "1 + 2".toList).isSolved = true := by decide +kernel
  have written : (Solver.solveAs (library.engine .default) .default (.classify "1 + 2".toList)
      "1 + 2".toList).values.all Web.isWritable = true := by decide +kernel
  have replies := Solver.forall_values_solveAs
    (library.keeps_engine .default (.classify "1 + 2".toList)) "1 + 2".toList
  have writable := fun v hv =>
    (Web.isWritable_iff (replies v hv)).mp (List.all_eq_true.mp written v hv)
  have ended := short fun h => writable _ List.mem_cons_self (.long h)
  exact ⟨Web.Framework.lawful_strict, _, service, hr, hv, told writable, by rwa [solved] at ended⟩

/-- `2.5^1000` is solved, but its solution is an infinite double, and what is told is nothing. -/
theorem solution_lost :
    ∃ r, Solver.solveProblem (engine .default) .default (.text "2.5^1000".toList) = .ok r ∧
      r.isSolved = true ∧ ∃ body,
        Web.answer (fun c => Solver.solveProblem (engine c) c) .missing
          (Web.post "2.5^1000".toList) = .json 200 (.record body) ∧
        field? body "solution".toList = some .null := by
  obtain ⟨r, hr, solved⟩ := exists_ok_of_check
    (x := Solver.solveProblem (engine .default) .default (.text "2.5^1000".toList))
    (p := Solution.isSolved) (by decide +kernel)
  refine ⟨r, hr, solved, ?_⟩
  have check : Web.isTold 200 (fun body => (field? body "solution".toList).any Value.isNull)
      (Web.answer (fun c => Solver.solveProblem (engine c) c) .missing
        (Web.post "2.5^1000".toList)) = true := by decide +kernel
  obtain ⟨body, hb, lost⟩ := Web.exists_of_isTold check
  obtain ⟨v, hv, null⟩ := (Option.any_eq_true _ _).mp lost
  exact ⟨body, hb, hv.trans (congrArg _ (Value.isNull_iff.mp null))⟩

end Algebra

end Stepwise
