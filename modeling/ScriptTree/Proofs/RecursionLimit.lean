import Mathlib.Data.Nat.Find
import ScriptTree.Proofs.CallScopes
import ScriptTree.Proofs.FailureLines
import ScriptTree.Proofs.Machine.Printed
import ScriptTree.Proofs.Report

/-!
# The recursion limit

The limit is looked at in one place: when the evaluation of a node is next, the evaluations that
wait have to leave room for it. So runs of one program under different limits go through the same
moments, up to the first at which the smaller limit leaves no room (`Script.moment_eq_of_le`). From
that moment on the run under the smaller limit only takes down what waits: no frame changes the
fault or gives it a line, and no state changes any more (`Script.outcome_of_full`).

An evaluation that ends in any other way than by the limit therefore ends in the same way under
every larger one (`Eval.evaluator_of_le`), and so does a run (`Script.larger_limit`). There are runs
that hit the limit however large it is (`Script.hitsLimit_forever`).
-/

namespace ScriptTree

/-- The same options with another limit. -/
def Settings.limitedTo (settings : Settings) (limit : Nat) : Settings :=
  { settings with recursionLimit := limit }

/-! ## One step -/

namespace Moment

variable {moment : Moment} {settings : Settings} {limit small large : Nat}

/-- The evaluation of a node is next, and the evaluations that wait leave no room for it. -/
def Full (limit : Nat) (moment : Moment) : Prop :=
  ∃ code scope, moment.focus = .task (.eval code scope) ∧ limit ≤ moment.frames.length

/-- Where there is no room, the step raises the fault and does nothing else. -/
theorem next_of_full (full : moment.Full limit) :
    (moment.next settings limit).focus = .raise .tooDeep ∧
      (moment.next settings limit).state = moment.state := by
  obtain ⟨focus, frames, state, origins⟩ := moment
  obtain ⟨code, scope, rfl, noRoom⟩ := full
  have refused : ¬ frames.length < limit := Nat.not_lt.mpr noRoom
  simp only [next, Task.begin, refused, decide_false, Bool.false_eq_true, if_false]
  exact ⟨rfl, rfl⟩

/-- Where there is room under the smaller limit, the step is the same under the larger one. -/
theorem next_eq_of_le (le : small ≤ large) (room : ¬ moment.Full small) :
    moment.next settings large = moment.next settings small := by
  obtain ⟨focus, frames, state, origins⟩ := moment
  match focus with
  | .answer completion => cases frames <;> cases completion <;> rfl
  | .raise fault => cases frames <;> rfl
  | .task (.eval code scope) =>
      have fits : frames.length < small := by
        by_contra noRoom
        exact room ⟨code, scope, rfl, Nat.not_lt.mp noRoom⟩
      have fitsLarge : frames.length < large := by omega
      simp only [next, Task.begin, fits, fitsLarge]
  | .task (.elements [] _) | .task (.elements (_ :: _) _) | .task (.fields _ [] _)
  | .task (.fields _ (_ :: _) _) | .task (.arguments _ _ _ _ [] _)
  | .task (.arguments _ _ _ _ (_ :: _) _) | .task (.invoke ..) => rfl

/-- A step that raises the fault found no room. -/
theorem full_of_raises (raises : moment.Raises settings .tooDeep)
    (raised : (moment.next settings limit).focus = .raise .tooDeep) : moment.Full limit := by
  -- whatever else is begun gives other faults
  have evaluates : ∃ code scope, moment.focus = .task (.eval code scope) := by
    cases raises with
    | refuse refuses =>
        cases refuses with
        | tooDeep => exact ⟨_, _, rfl⟩
        | notFunction _ fails => cases fails
        | builtin _ raises => cases raises
    | reject rejects =>
        cases rejects with
        | mismatch _ fails => cases fails
  obtain ⟨code, scope, evaluates⟩ := evaluates
  by_contra room
  obtain ⟨focus, frames, state, origins⟩ := moment
  cases evaluates
  have fits : frames.length < limit := by
    by_contra noRoom
    exact room ⟨code, scope, rfl, Nat.not_lt.mp noRoom⟩
  simp only [next, Task.begin, fits, decide_true, if_true] at raised
  obtain ⟨place, node⟩ := code
  cases node with
  | function line name => cases name <;> cases raised
  | _ => cases raised

/-! ## Any number of steps -/

/-- From one moment on, the steps are the same under both limits as long as there is room under the
smaller one. -/
theorem iterate_eq_of_le (le : small ≤ large) {n : Nat}
    (room : ∀ k < n, ¬ ((next settings small)^[k] moment).Full small) :
    (next settings large)^[n] moment = (next settings small)^[n] moment := by
  induction n with
  | zero => rfl
  | succ n ih =>
      have before := ih fun k earlier => room k (Nat.lt_succ_of_lt earlier)
      rw [Function.iterate_succ_apply', Function.iterate_succ_apply', before]
      exact next_eq_of_le le (room n (Nat.lt_succ_self n))

/-- Once there was no room, an evaluation that ends has ended in the fault, and in the state of that
moment. -/
theorem eq_of_full {k n : Nat} {origins : Ref → Place}
    {outcome : EStateM.Result Fault State (Completion Value)}
    (full : ((next settings limit)^[k] moment).Full limit)
    (reached : (next settings limit)^[n] moment = ended [] origins outcome) :
    outcome = .error .tooDeep ((next settings limit)^[k] moment).state := by
  obtain ⟨raised, same⟩ := @next_of_full _ settings limit full
  rw [← Function.iterate_succ_apply' (f := next settings limit)] at raised same
  rw [← same]
  exact eq_of_raise rfl raised reached

end Moment

/-! ## Evaluations -/

/-- An evaluation has its limit from its depth, and looks at the tracing of calls only. -/
theorem Eval.evaluator_limitedTo (settings : Settings) (n depth : Nat) :
    evaluator (settings.limitedTo n) depth = evaluator settings depth := by
  induction depth with
  | zero => rfl
  | succ depth ih =>
      rw [evaluator_succ, evaluator_succ, ih]
      rfl

/-- An evaluation that does not end by the limit ends in the same way when more evaluations may be
nested. -/
theorem Eval.evaluator_of_le {settings : Settings} {small large : Nat} (le : small ≤ large)
    {node : Expr} {scope : Ref} {state : State}
    (inside : ∀ after, evaluator settings small node scope state ≠ .error .tooDeep after) :
    evaluator settings large node scope state = evaluator settings small node scope state := by
  have arrives (depth : Nat) := Moment.arrives_evaluator settings depth depth ⟨[], node⟩ scope []
    state (fun _ => []) (Nat.zero_add depth)
  obtain ⟨n, origins, reached⟩ := arrives small
  obtain ⟨m, origins', reached'⟩ := arrives large
  have room (k : Nat) : ¬ ((Moment.next settings small)^[k]
      ⟨.task (.eval ⟨[], node⟩ scope), [], state, fun _ => []⟩ : Moment).Full small :=
    fun full => inside _ (Moment.eq_of_full full reached)
  rw [Moment.iterate_eq_of_le le fun k _ => room k] at reached'
  exact Moment.outcome_unique reached' reached

/-- A sequence goes on with its rest in the state that its first element has left. -/
theorem Eval.sequence_of_value {self : Evaluator} {scope : Ref} {node : Expr} {rest : List Expr}
    {state after : State} {value : Value}
    (given : self node scope state = .ok (.value value) after) :
    sequence self scope (node :: rest) state = sequence self scope rest after := by
  rw [sequence_cons, Action.bind_apply, given]
  rfl

/-- A sequence ends with the fault of its first element. -/
theorem Eval.sequence_of_error {self : Evaluator} {scope : Ref} {node : Expr} {rest : List Expr}
    {state after : State} {fault : Fault} (failed : self node scope state = .error fault after) :
    sequence self scope (node :: rest) state = .error fault after := by
  rw [sequence_cons, Action.bind_apply, failed]

/-- A call of a function by its name, when its arguments are there and calls are not traced. -/
theorem Eval.evaluator_call_of_values {settings : Settings} {depth : Nat} {line : Line}
    {name : String} {scope ref : Ref} {exprs : List Expr} {values : List Value} {state : State}
    {body : Body} (untraced : settings.traceCalls = false)
    (named : state.heap.lookup scope name = .obj ref)
    (has : (state.heap.get? ref).bind Object.body = some body)
    (given : arguments (evaluator settings (depth + 1)) scope exprs state =
      .ok (.value values) state) :
    evaluator settings (depth + 2) (.call line (.var none name) exprs) scope state =
      match invoked (evaluator settings (depth + 1)) ref .undefined values (some body) state with
      | .ok completion after => .ok (.value completion.called) after
      | .error fault after => .error ((Frame.call line).failed fault) after := by
  have callee : evaluator settings (depth + 1) (.var none name) scope state =
      .ok (.value (.obj ref)) state := by
    rw [← named]
    rfl
  have checked : function line (.obj ref) state = .ok ref state := by
    obtain ⟨object, found, own⟩ := Option.bind_eq_some_iff.mp has
    have isFunction : state.heap.isFunction ref = true := by
      rw [Heap.isFunction, found, Option.any_some, Object.isFunction, own, Option.isSome_some]
    rw [function, Action.bind_apply]
    dsimp only [Action.view]
    rw [if_pos isFunction]
    rfl
  have called : call settings (evaluator settings (depth + 1)) line ref .undefined values state =
      match invoked (evaluator settings (depth + 1)) ref .undefined values (some body) state with
      | .ok completion after => .ok completion.called after
      | .error fault after => .error ((Frame.call line).failed fault) after := by
    rw [call, untraced]
    change Action.orAt line (invoke _ _ _ _) state = _
    rw [Action.orAt, invoke_eq, Action.bind_apply]
    dsimp only [Action.view]
    rw [has, Action.map_apply]
    rcases invoked (evaluator settings (depth + 1)) ref .undefined values (some body) state with
      - | fault
    · rfl
    · cases fault <;> rfl
  rw [evaluator_succ, rules, Action.bind_apply, callee]
  dsimp only [Completion.andThen]
  rw [Action.bind_apply, checked]
  dsimp only
  rw [Action.bind_apply, given]
  dsimp only
  rw [Action.bind_apply, called]
  cases invoked (evaluator settings (depth + 1)) ref .undefined values (some body) state <;> rfl

namespace Script

variable (script : Script) (settings : Settings) (sink : Sink) (log : Log)

/-- At some moment of a run an evaluation is next for which the limit leaves no room. -/
def HitsLimit : Prop :=
  ∃ n, (script.moment settings sink log n).Full settings.depth

variable {script settings sink log}

/-- A run that hits the limit does so for a first time. -/
theorem HitsLimit.exists_first (hits : script.HitsLimit settings sink log) :
    ∃ n, (script.moment settings sink log n).Full settings.depth ∧
      ∀ k < n, ¬ (script.moment settings sink log k).Full settings.depth := by
  classical exact ⟨Nat.find hits, Nat.find_spec hits, fun _ => Nat.find_min hits⟩

/-- A run without room at some moment ends in the fault, and in the state of that moment. -/
theorem outcome_of_full {k : Nat}
    (full : (script.moment settings sink log k).Full settings.depth) :
    script.outcome settings sink log =
      .error .tooDeep (script.moment settings sink log k).state := by
  obtain ⟨n, origins, reached⟩ := script.exists_moment_eq_ended settings sink log
  exact Moment.eq_of_full full reached

/-- The evaluation of a program ends in the fault exactly when the run hits the limit. -/
theorem hitsLimit_iff : script.HitsLimit settings sink log ↔
    ∃ after, script.outcome settings sink log = .error .tooDeep after := by
  constructor
  · rintro ⟨k, full⟩
    exact ⟨_, outcome_of_full full⟩
  · rintro ⟨after, failed⟩
    obtain ⟨n, origins, reached⟩ := script.exists_moment_eq_ended settings sink log
    rw [failed] at reached
    have under : (script.moment settings sink log n).focus = .raise .tooDeep :=
      congrArg Moment.focus reached
    obtain ⟨k, given, passed, raises, raised, -, same⟩ := exists_raises under
    have tooDeep : given = .tooDeep := by
      cases given with
      | failure failure =>
          rw [Fault.through_failure] at same
          cases same
      | digitLimit | sinkClosed =>
          rw [Fault.through_of_not rfl] at same
          cases same
      | tooDeep => rfl
    subst tooDeep
    rw [moment_succ] at raised
    exact ⟨k, Moment.full_of_raises raises raised⟩

/-- A run does not hit the limit if its evaluation has room under a smaller one. -/
theorem not_hitsLimit_of_le {depth : Nat} (le : depth ≤ settings.depth)
    (inside : ∀ after, Eval.evaluator settings depth (.block script.body) Heap.root
      (script.begun settings sink log) ≠ .error .tooDeep after) :
    ¬ script.HitsLimit settings sink log := by
  rw [hitsLimit_iff, outcome, Eval.evaluator_of_le le inside]
  exact fun ⟨after, failed⟩ => inside after failed

theorem grows_of_le {n m : Nat} (later : n ≤ m) :
    (script.moment settings sink log n).state.sink.Grows
      (script.moment settings sink log m).state.sink := by
  induction later with
  | refl => exact .refl _
  | step _ ih =>
      rw [moment_succ]
      exact ih.trans (Moment.grows_next _ _ _)

/-- The lines that a run has printed at some moment are the first of those that it leaves. -/
theorem grows_report (n : Nat) :
    (script.moment settings sink log n).state.sink.Grows
      (script.report (script.outcome settings sink log)).state.sink := by
  obtain ⟨last, origins, reached⟩ := script.exists_moment_eq_ended settings sink log
  rw [(state_of_ended reached).2]
  rcases Nat.le_total n last with later | earlier
  · exact grows_of_le later
  · have isOver := Moment.ended_ended origins (script.outcome settings sink log)
    rw [← reached] at isOver
    rw [moment_of_ended isOver earlier]
    exact .refl _

variable {small large : Nat}

/-- Two runs go through the same moments as long as there is room under the smaller limit. -/
theorem moment_eq_of_le (le : small ≤ large) {n : Nat}
    (room : ∀ k < n, ¬ (script.moment (settings.limitedTo small) sink log k).Full
      (settings.limitedTo small).depth) :
    script.moment (settings.limitedTo large) sink log n =
      script.moment (settings.limitedTo small) sink log n := by
  have deeper : (settings.limitedTo small).depth ≤ (settings.limitedTo large).depth :=
    Settings.depth_le_depth le
  exact Moment.iterate_eq_of_le deeper room

/-- Of two limits of which the larger one is admitted, the smaller one is. A run that does not hit
the smaller limit reports the same under the larger one: the same ending, objects, lines and log.
One that does hit it, whatever it is doing then, reports the failure that nesting is too deep, and
no line with it, and has printed the first of the lines that the run under the larger limit
prints. -/
theorem larger_limit (script : Script) (settings : Settings) (sink : Sink) (log : Log)
    {small large : Nat} (le : small ≤ large)
    (admitted : (settings.limitedTo large).effectiveLimit ≤ Settings.greatestLimit) :
    ∃ report report',
      script.run (.sink sink) (settings.limitedTo small) log = .ok report ∧
      script.run (.sink sink) (settings.limitedTo large) log = .ok report' ∧
      (¬ script.HitsLimit (settings.limitedTo small) sink log → report' = report) ∧
      (script.HitsLimit (settings.limitedTo small) sink log →
        report.ending = .error (.failure ⟨.recursionTooDeep, none⟩) ∧
          report.state.sink.Grows report'.state.sink) := by
  have deeper : (settings.limitedTo small).depth ≤ (settings.limitedTo large).depth :=
    Settings.depth_le_depth le
  have smaller : (settings.limitedTo small).effectiveLimit ≤
      (settings.limitedTo large).effectiveLimit := by
    simp only [Settings.effectiveLimit, Settings.limitedTo]
    omega
  refine ⟨_, _, run_of_admitted (Nat.le_trans smaller admitted), run_of_admitted admitted,
    fun fits => ?_, fun hits => ?_⟩
  · have inside (after : State) :
        script.outcome (settings.limitedTo small) sink log ≠ .error .tooDeep after :=
      fun failed => fits (hitsLimit_iff.mpr ⟨after, failed⟩)
    have same : script.outcome (settings.limitedTo large) sink log =
        script.outcome (settings.limitedTo small) sink log := by
      unfold outcome at inside ⊢
      rw [Eval.evaluator_limitedTo] at inside
      rw [Eval.evaluator_limitedTo, Eval.evaluator_limitedTo]
      exact Eval.evaluator_of_le deeper inside
    rw [same]
  · -- the first moment without room is one of both runs
    obtain ⟨first, full, before⟩ := hits.exists_first
    have shared := moment_eq_of_le le before
    rw [outcome_of_full full]
    refine ⟨rfl, ?_⟩
    have later : (script.moment (settings.limitedTo large) sink log first).state.sink.Grows _ :=
      script.grows_report first
    rw [shared] at later
    exact later

/-! ## A run that hits every limit -/

/-- Prints and calls itself, for ever. -/
def forever : Script :=
  ⟨.mk none [
    .function none (some "f") [] (.mk none [
      .call none (.var none "print") [.literal none (.int 1)],
      .call (some 3) (.var none "f") []]),
    .call (some 5) (.var none "f") []]⟩

/-- The function of `forever`. -/
def printsAndCalls : Lambda :=
  ⟨none, "f", [], .mk none [
    .call none (.var none "print") [.literal none (.int 1)],
    .call (some 3) (.var none "f") []]⟩

/-- The objects of `forever` when its function is there. -/
def foreverDefined : Heap :=
  ((Heap.initial .standard).add (.function "f" (.closure printsAndCalls Heap.root))).register
    Heap.root "f" (.obj 13)

/-- Since its function is there, `forever` has added nothing but scopes of calls, and it goes on
with a sink and a log that take what they are given. -/
structure Repeats (state : State) : Prop where
  steps : foreverDefined.Steps none state.heap
  lines : ∃ lines, state.sink = .lines lines
  lenient : state.log.strict = false

namespace Repeats

variable {state : State} (repeats : Repeats state)

include repeats

theorem root : state.heap.get? Heap.root = foreverDefined.get? Heap.root :=
  repeats.steps.kept Heap.root (by decide) nofun

theorem lookup {name : String} {ref : Ref}
    (bound : foreverDefined.lookup Heap.root name = .obj ref) :
    state.heap.lookup Heap.root name = .obj ref := by
  have found : ∃ fields, foreverDefined.get? Heap.root = some (.scope none fields) := ⟨_, rfl⟩
  rcases found with ⟨fields, found⟩
  rw [Heap.lookup_of_top found rfl] at bound
  rw [Heap.lookup_of_top (repeats.root.trans found) rfl, bound]

theorem print : ∃ after, Builtin.print.run [.int 1] state = .ok .undefined after ∧
    after.heap = state.heap ∧ Repeats after := by
  rcases repeats with ⟨steps, ⟨lines, listing⟩, lenient⟩
  rcases state with ⟨heap, sink, ⟨strict, records⟩⟩
  cases listing
  cases lenient
  have one : Decimal.text? 1 = some "1" := by decide +kernel
  have shown : (Value.int 1).display? heap = some "1" := one
  have line : ([Value.int 1].mapM (Value.display? heap)).map (String.intercalate " ") =
      some "1" := by
    simp [shown]
  rw [Builtin.run, Action.bind_apply]
  change ∃ after, (Action.shown _ >>= _) _ = _ ∧ _
  rw [Action.bind_apply, Action.shown, line]
  exact ⟨_, rfl, rfl, steps, ⟨_, rfl⟩, rfl⟩

/-- With room for its callee and its argument, the call of `print` changes no object. -/
theorem callsPrint (depth : Nat) {scope : Ref}
    (named : state.heap.lookup scope "print" = .obj 1) :
    ∃ after, Eval.evaluator .standard (depth + 2)
        (.call none (.var none "print") [.literal none (.int 1)]) scope state =
      .ok (.value .undefined) after ∧ after.heap = state.heap ∧ Repeats after := by
  have has : (state.heap.get? 1).bind Object.body = some (.builtin .print) :=
    repeats.steps.grows.body rfl
  have argument : Eval.arguments (Eval.evaluator .standard (depth + 1)) scope
      [.literal none (.int 1)] state = .ok (.value [.int 1]) state := rfl
  obtain ⟨after, printed, same, repeats'⟩ := repeats.print
  refine ⟨after, ?_, same, repeats'⟩
  rw [Eval.evaluator_call_of_values rfl named has argument]
  dsimp only [Eval.invoked]
  rw [Action.map_apply, printed]
  rfl

/-- The function is entered in one more scope, in which the names of the root scope mean the
same. -/
theorem entered : ∃ inside, Repeats inside ∧
    (∀ self, Eval.invoked self 13 .undefined [] (some (.closure printsAndCalls Heap.root)) state =
      self (.block printsAndCalls.body) state.heap.size inside) ∧
    ∀ {name ref}, name ≠ "this" → foreverDefined.lookup Heap.root name = .obj ref →
      inside.heap.lookup state.heap.size name = .obj ref := by
  have inside : Repeats { state with
      heap := state.heap.add
        (.scope (some Heap.root) (Eval.callBindings printsAndCalls .undefined [])) } :=
    ⟨repeats.steps.trans (.add none _ _), repeats.lines, repeats.lenient⟩
  refine ⟨_, inside, fun self => rfl, fun {name ref} other bound => ?_⟩
  have there : state.heap.ScopeAt Heap.root 0 := .root repeats.root
  have free : (Eval.callBindings printsAndCalls .undefined []).get? name = none :=
    Fields.get?_put_of_ne _ _ other
  dsimp only
  rw [there.lookup_entered, free]
  exact inside.lookup bound

/-- However many evaluations may be nested, the function comes to the point where there is no room
for one more. -/
theorem tooDeep (depth : Nat) {scope : Ref} (named : state.heap.lookup scope "f" = .obj 13)
    (line : Line) :
    ∃ after, Eval.evaluator .standard depth (.call line (.var none "f") []) scope state =
      .error .tooDeep after := by
  -- the function calls itself with two fewer evaluations allowed
  induction depth using Nat.twoStepInduction generalizing state scope line with
  | zero => exact ⟨_, rfl⟩
  | one => exact ⟨_, rfl⟩
  | more depth ih =>
      have has : (state.heap.get? 13).bind Object.body =
          some (.closure printsAndCalls Heap.root) :=
        repeats.steps.grows.body rfl
      obtain ⟨inside, repeats', enters, finds⟩ := repeats.entered
      have body : ∃ after, Eval.sequence (Eval.evaluator .standard depth) state.heap.size
          printsAndCalls.body.instrs inside = .error .tooDeep after := by
        rcases depth with - | - | depth
        · exact ⟨_, Eval.sequence_of_error rfl⟩
        · exact ⟨_, Eval.sequence_of_error rfl⟩
        · obtain ⟨after, printed, same, repeats''⟩ :=
            repeats'.callsPrint depth (finds (by decide) rfl)
          have again : after.heap.lookup state.heap.size "f" = .obj 13 := by
            rw [same]
            exact finds (by decide) rfl
          obtain ⟨last, failed⟩ := ih repeats'' again (some 3)
          exact ⟨last, (Eval.sequence_of_value printed).trans (Eval.sequence_of_error failed)⟩
      obtain ⟨after, failed⟩ := body
      rw [Eval.evaluator_call_of_values rfl named has rfl, enters, Eval.evaluator_succ,
        Eval.rules, failed]
      exact ⟨after, rfl⟩

end Repeats

/-- However large the limit is, `forever` hits it. -/
theorem hitsLimit_forever (limit : Nat) :
    forever.HitsLimit (Settings.standard.limitedTo limit) .empty {} := by
  rw [hitsLimit_iff, outcome, Eval.evaluator_limitedTo]
  have least : 2 ≤ (Settings.standard.limitedTo limit).depth := by
    unfold Settings.depth Settings.effectiveLimit Settings.leastLimit
    omega
  obtain ⟨depth, enough⟩ := Nat.exists_eq_add_of_le' least
  have elements : Eval.evaluator .standard (depth + 2) (.block forever.body) Heap.root =
      Eval.sequence (Eval.evaluator .standard (depth + 1)) Heap.root
        [.function none (some "f") [] printsAndCalls.body, .call (some 5) (.var none "f") []] :=
    rfl
  have defined : ∃ after, Repeats after ∧ Eval.evaluator .standard (depth + 1)
      (.function none (some "f") [] printsAndCalls.body) Heap.root
        (forever.begun (Settings.standard.limitedTo limit) .empty {}) =
      .ok (.value (.obj 13)) after :=
    ⟨_, ⟨.refl none foreverDefined, ⟨_, rfl⟩, rfl⟩, rfl⟩
  obtain ⟨after, repeats, defined⟩ := defined
  obtain ⟨last, failed⟩ := repeats.tooDeep (depth + 1) (repeats.lookup rfl) (some 5)
  rw [enough, elements, Eval.sequence_of_value defined, Eval.sequence_of_error failed]
  exact ⟨last, rfl⟩

/-- Calls a function that returns its argument. -/
def returnsArgument : Script :=
  ⟨.mk none [
    .function none (some "f") ["x"] (.mk none [.returns none (.var none "x")]),
    .call (some 2) (.var none "f") [.literal none (.int 5)]]⟩

theorem fits_returnsArgument :
    ¬ returnsArgument.HitsLimit (Settings.standard.limitedTo 2000) .empty {} := by
  have shallow : 5 ≤ (Settings.standard.limitedTo 2000).depth := by decide
  refine not_hitsLimit_of_le shallow fun after failed => ?_
  have ended : ∃ completion after, Eval.evaluator (Settings.standard.limitedTo 2000) 5
      (.block returnsArgument.body) Heap.root
        (returnsArgument.begun (Settings.standard.limitedTo 2000) .empty {}) =
      .ok completion after :=
    ⟨_, _, rfl⟩
  rw [failed] at ended
  obtain ⟨_, _, ⟨⟩⟩ := ended

/-- The run of `forever` hits the smaller limit, and the other one does not. -/
theorem larger_limit_forever :
    (2000 ≤ 50000 ∧
      (Settings.standard.limitedTo 50000).effectiveLimit ≤ Settings.greatestLimit) ∧
    (∃ report report',
      forever.run (.sink .empty) (Settings.standard.limitedTo 2000) {} = .ok report ∧
      forever.run (.sink .empty) (Settings.standard.limitedTo 50000) {} = .ok report' ∧
      forever.HitsLimit (Settings.standard.limitedTo 2000) .empty {} ∧
      report.ending = .error (.failure ⟨.recursionTooDeep, none⟩) ∧
      report.state.sink.Grows report'.state.sink) ∧
    ∃ report,
      returnsArgument.run (.sink .empty) (Settings.standard.limitedTo 2000) {} = .ok report ∧
      returnsArgument.run (.sink .empty) (Settings.standard.limitedTo 50000) {} = .ok report ∧
      ¬ returnsArgument.HitsLimit (Settings.standard.limitedTo 2000) .empty {} := by
  have le : 2000 ≤ 50000 := by decide
  have admitted : (Settings.standard.limitedTo 50000).effectiveLimit ≤ Settings.greatestLimit := by
    decide
  have hits := hitsLimit_forever 2000
  obtain ⟨report, report', ran, ran', -, beyond⟩ :=
    larger_limit forever .standard .empty {} le admitted
  obtain ⟨within, within', ranWithin, ranWithin', same, -⟩ :=
    larger_limit returnsArgument .standard .empty {} le admitted
  obtain rfl := same fits_returnsArgument
  exact ⟨⟨le, admitted⟩, ⟨report, report', ran, ran', hits, beyond hits⟩,
    within', ranWithin, ranWithin', fits_returnsArgument⟩

end Script

end ScriptTree
