import ScriptTree.Proofs.Display

/-!
# What a step raises

A step that cannot go on raises a fault. This module says once which faults there are and which
line each failure is given, one constructor for each check: `Builtin.Raises` for the functions of
the language, `Task.Refuses` for what is next and `Frame.Rejects` for an evaluation that is given a
value it cannot use. `Moment.Raises` puts them together: a fault that is under way was raised by the
step before, or has passed one more frame since (`Moment.raises_next`).

A check names the line of its node, a function of the program that of its own node, and a function
of the language no line.
-/

namespace ScriptTree

open ScriptTree.Action ScriptTree.Eval

/-! ## Checks -/

namespace Action

variable {α β : Type} {state : State} {P : Fault → Prop}

/-- If the action ends in a fault, the fault has the property. -/
def Says (action : Action α) (state : State) (P : Fault → Prop) : Prop :=
  ∀ ⦃fault after⦄, action state = .error fault after → P fault

theorem says_of_ok {action : Action α} {a : α} {after : State} (ran : action state = .ok a after) :
    action.Says state P := by
  intro fault last raised
  rw [ran] at raised
  cases raised

theorem says_pure (a : α) : (pure a : Action α).Says state P :=
  says_of_ok rfl

theorem says_fail (cause : Cause) (line : Line) (holds : P (.failure ⟨cause, line⟩)) :
    (fail cause line : Action α).Says state P := by
  rintro _ _ ⟨⟩
  exact holds

theorem says_bind {first : Action β} {next : β → Action α} (here : first.Says state P)
    (later : ∀ b after, first state = .ok b after → (next b).Says after P) :
    (first >>= next).Says state P := by
  intro fault after raised
  rw [bind_apply] at raised
  cases ran : first state with
  | ok b between =>
      rw [ran] at raised
      exact later b between ran raised
  | error fault' between =>
      rw [ran] at raised
      cases raised
      exact here ran

theorem says_ite {condition : Prop} [Decidable condition] {yes no : Action α}
    (whenTrue : condition → yes.Says state P) (whenFalse : ¬ condition → no.Says state P) :
    (if condition then yes else no).Says state P := by
  split
  · exact whenTrue ‹_›
  · exact whenFalse ‹_›

theorem says_shown {text? : Heap → Option String}
    (hidden : text? state.heap = none → P .digitLimit) : (shown text?).Says state P := by
  intro fault after raised
  unfold shown at raised
  split at raised
  · cases raised
  · cases raised
    exact hidden ‹_›

/-- A log refuses a record only if it is strict and the record has no message. -/
theorem says_log {record : Heap → LogRecord}
    (refused : state.log.strict = true → (record state.heap).message? = none → P .digitLimit) :
    (log record).Says state P := by
  intro fault after raised
  unfold log at raised
  split at raised
  · cases raised
  · rename_i unwritten
    cases raised
    have both : state.log.strict = true ∧ (record state.heap).message? = none := by
      simpa [Log.write?] using unwritten
    exact refused both.1 both.2

theorem Ends.of_ok {action : Action α} {gives : α → State → Prop} {fails : Fault → State → Prop}
    (ends : action.Ends state gives fails) {a : α} {after : State}
    (ran : action state = .ok a after) : gives a after := by
  unfold Ends at ends
  rwa [ran] at ends

/-- A record is only added to the log. -/
theorem eq_of_log {record : Heap → LogRecord} {after : State}
    (ran : log record state = .ok () after) : ∃ log, after = { state with log } := by
  unfold log at ran
  split at ran
  · cases ran
    exact ⟨_, rfl⟩
  · cases ran

theorem eq_of_shown {text? : Heap → Option String} {text : String} {after : State}
    (ran : shown text? state = .ok text after) : after = state :=
  (ends_shown text?).of_ok ran

end Action

/-- What is said of a value that is not of the kind that a node needs. -/
inductive Value.Mismatch (heap : Heap) (value : Value) (expected : Expected) (line : Line) :
    Fault → Prop
  | shown {text : String} (shows : value.display? heap = some text) :
    Mismatch heap value expected line (.failure ⟨.mismatch text expected, line⟩)
  | hidden (long : value.display? heap = none) : Mismatch heap value expected line .digitLimit

namespace Eval

variable {α : Type} {state : State}

theorem says_mismatch (value : Value) (expected : Expected) (line : Line) :
    (do let text ← Action.shown fun heap => value.display? heap
        Action.fail (.mismatch text expected) line : Action α).Says state
      (value.Mismatch state.heap expected line) := by
  intro fault after raised
  rw [bind_apply, shown] at raised
  cases shows : value.display? state.heap with
  | none =>
      rw [shows] at raised
      cases raised
      exact .hidden shows
  | some text =>
      rw [shows] at raised
      cases raised
      exact .shown shows

theorem says_notFunction (value : Value) (line : Line) :
    (notFunction value line : Action α).Says state
      (value.Mismatch state.heap .function line) :=
  says_mismatch value .function line

theorem says_integer (line : Line) (value : Value) :
    (integer line value).Says state fun fault =>
      (∀ n, value ≠ .int n) ∧ value.Mismatch state.heap .integer line fault := by
  unfold integer
  split
  · exact says_pure _
  · rename_i other
    exact fun fault after raised => ⟨other, says_mismatch _ _ line raised⟩

theorem says_object (line : Line) (value : Value) :
    (object line value).Says state fun fault =>
      (∀ ref, value ≠ .obj ref) ∧ value.Mismatch state.heap .object line fault := by
  unfold object
  split
  · exact says_pure _
  · rename_i other
    exact fun fault after raised => ⟨other, says_mismatch _ _ line raised⟩

theorem says_function (line : Line) (value : Value) :
    (function line value).Says state fun fault =>
      (∀ ref, value = .obj ref → state.heap.isFunction ref = false) ∧
        value.Mismatch state.heap .function line fault := by
  unfold function
  split
  · refine says_bind (says_of_ok rfl) fun isFunction after viewed => ?_
    cases viewed
    refine says_ite (fun _ => says_pure _) fun noFunction fault after raised => ⟨?_, ?_⟩
    · rintro _ ⟨⟩
      exact Bool.eq_false_iff.mpr noFunction
    · exact says_notFunction _ line raised
  · rename_i other
    exact fun fault after raised =>
      ⟨fun ref same => absurd same (other ref), says_notFunction _ line raised⟩

end Eval

/-! ## Functions of the language -/

namespace Builtin

/-- The values that a function of the language has to show: `print` all its arguments, and an
operator the operand that it cannot work on. -/
inductive Shows : Builtin → List Value → Value → Prop
  | print {values : List Value} {value : Value} (given : value ∈ values) : Shows .print values value
  | left {symbol : String} {operation : Arithmetic} {left right : Value}
      (other : ∀ n, left ≠ .int n) : Shows (.arithmetic symbol operation) [left, right] left
  | right {symbol : String} {operation : Arithmetic} {a : Int} {right : Value}
      (other : ∀ n, right ≠ .int n) : Shows (.arithmetic symbol operation) [.int a, right] right
  | incomparable {symbol : String} {comparison : Comparison} {left right value : Value}
      (unordered : left.compare? comparison right = none) (given : value ∈ [left, right]) :
    Shows (.ordering symbol comparison) [left, right] value

/-- What a function of the language raises: a failure of its own, without a line, or that a value
that it has to show is too long, or that the sink is full. -/
inductive Raises (state : State) (builtin : Builtin) (values : List Value) : Fault → Prop
  | failure {cause : Cause} (shallow : cause ≠ .recursionTooDeep) :
    Raises state builtin values (.failure ⟨cause, none⟩)
  | hidden {value : Value} (shows : builtin.Shows values value)
      (long : value.display? state.heap = none) : Raises state builtin values .digitLimit
  | closed {line : String} (full : state.sink.write? line = none) :
    Raises state builtin values .sinkClosed

variable {state : State}

theorem says_operands {builtin : Builtin} (symbol : String) (values given : List Value) :
    (operands symbol values).Says state (Raises state builtin given) := by
  match values with
  | [] | [_] | _ :: _ :: _ :: _ => exact says_fail _ _ (.failure nofun)
  | [_, _] => exact says_pure _

theorem eq_of_operands {symbol : String} {values : List Value} {left right : Value} {after : State}
    (ran : operands symbol values state = .ok (left, right) after) :
    values = [left, right] ∧ after = state := by
  match values with
  | [] | [_] | _ :: _ :: _ :: _ => cases ran
  | [_, _] =>
      cases ran
      exact ⟨rfl, rfl⟩

theorem says_integerOperand {builtin : Builtin} (symbol : String) {value : Value}
    {values : List Value} (shows : (∀ n, value ≠ .int n) → builtin.Shows values value) :
    (integerOperand symbol value).Says state (Raises state builtin values) := by
  unfold integerOperand
  split
  · exact says_pure _
  · rename_i other
    exact says_bind (says_shown fun long => .hidden (shows other) long) fun _ _ _ =>
      says_fail _ _ (.failure nofun)

/-- The only failure of an operation is that of a divisor of zero. -/
theorem says_run (builtin : Builtin) (values : List Value) :
    (builtin.run values).Says state (Raises state builtin values) := by
  cases builtin with
  | print =>
      refine says_bind (says_log fun _ none => ?_) fun _ after logged => ?_
      · obtain ⟨value, given, long⟩ :=
          Value.quotedList?_eq_none_iff.mp (Option.map_eq_none_iff.mp none)
        exact .hidden (.print given) long
      obtain ⟨log, rfl⟩ := eq_of_log logged
      refine says_bind (says_shown fun none => ?_) fun line between shown => ?_
      · obtain ⟨value, given, long⟩ := mapM_eq_none_iff.mp (Option.map_eq_none_iff.mp none)
        exact .hidden (.print given) long
      cases eq_of_shown shown
      refine says_bind (fun fault after raised => ?_) fun _ _ _ => says_pure _
      unfold writeLine at raised
      split at raised
      · cases raised
      · cases raised
        exact .closed ‹_›
  | arithmetic symbol operation =>
      refine says_bind (says_operands _ _ _) fun ⟨left, right⟩ after ran => ?_
      obtain ⟨rfl, rfl⟩ := eq_of_operands ran
      refine says_bind (says_integerOperand _ .left) fun a between checked => ?_
      obtain ⟨rfl, rfl⟩ := (ends_integerOperand symbol left).of_ok checked
      refine says_bind (says_integerOperand _ .right) fun b between checked => ?_
      obtain ⟨rfl, rfl⟩ := (ends_integerOperand symbol right).of_ok checked
      cases applied : operation.apply a b with
      | ok n => exact says_pure _
      | error cause =>
          have other : cause ≠ .recursionTooDeep := by
            rcases Arithmetic.cause_of_apply applied with rfl | rfl <;> exact nofun
          exact says_fail _ _ (.failure other)
  | equality symbol negated =>
      exact says_bind (says_operands _ _ _) fun _ _ _ => says_pure _
  | ordering symbol comparison =>
      refine says_bind (says_operands _ _ _) fun ⟨left, right⟩ after ran => ?_
      obtain ⟨rfl, rfl⟩ := eq_of_operands ran
      dsimp only
      cases unordered : left.compare? comparison right with
      | some holds => exact says_pure _
      | none =>
          have hidden {value : Value} (given : value ∈ [left, right])
              (long : value.display? after.heap = none) :
              Raises after (.ordering symbol comparison) [left, right] .digitLimit :=
            .hidden (.incomparable unordered given) long
          refine says_bind (says_shown (hidden (by simp))) fun _ between shown => ?_
          cases eq_of_shown shown
          refine says_bind (says_shown (hidden (by simp))) fun _ between shown => ?_
          cases eq_of_shown shown
          exact says_bind (says_of_ok rfl) fun _ _ _ => says_fail _ _ (.failure nofun)

end Builtin

/-! ## One step -/

/-- Why a task is not begun. -/
inductive Task.Refuses (settings : Settings) (state : State) : Task → Fault → Prop
  | tooDeep {code : Occurrence} {scope : Ref} : Refuses settings state (.eval code scope) .tooDeep
  | unsupported {place : Place} {line : Line} {kind : String} {scope : Ref} :
    Refuses settings state (.eval ⟨place, .unknown line kind⟩ scope)
      (.failure ⟨.unsupportedKind kind, line⟩)
  | unlogged {line : Line} {callee scope : Ref} {receiver value : Value} {done : List Value}
      (traced : settings.traceCalls = true) (strict : state.log.strict = true)
      (given : value ∈ done) (long : value.display? state.heap = none) :
    Refuses settings state (.arguments line callee receiver done [] scope) .digitLimit
  | notFunction {callee : Ref} {receiver : Value} {values : List Value} {fault : Fault}
      (body : (state.heap.get? callee).bind Object.body = none)
      (fails : Value.Mismatch state.heap (.obj callee) .function none fault) :
    Refuses settings state (.invoke callee receiver values) fault
  | builtin {callee : Ref} {receiver : Value} {values : List Value} {builtin : Builtin}
      {fault : Fault} (body : (state.heap.get? callee).bind Object.body = some (.builtin builtin))
      (raises : builtin.Raises state values fault) :
    Refuses settings state (.invoke callee receiver values) fault
  | closure {callee : Ref} {receiver : Value} {values : List Value} {lambda : Lambda} {scope : Ref}
      (body : (state.heap.get? callee).bind Object.body = some (.closure lambda scope))
      (differs : values.length ≠ lambda.parameters.length) :
    Refuses settings state (.invoke callee receiver values)
      (.failure ⟨.arity lambda.name lambda.parameters.length values.length, lambda.line⟩)
  | external {callee : Ref} {receiver : Value} {values : List Value}
      {call : Ref → Value → List Value → Except Failure Value} {failure : Failure}
      (body : (state.heap.get? callee).bind Object.body = some (.external call))
      (given : call callee receiver values = .error failure) :
    Refuses settings state (.invoke callee receiver values) (.failure failure)

/-- What a waiting evaluation refuses when it is given a value, what it needs and the line that it
names: it refuses the value itself, or the method that it looks up in it. -/
inductive Frame.Checks (heap : Heap) : Frame → Value → Value → Expected → Line → Prop
  | condition {line : Line} {onTrue onFalse : List Occurrence} {scope : Ref} {value : Value}
      (other : ∀ n, value ≠ .int n) :
    Checks heap (.condition line onTrue onFalse scope) value value .integer line
  | field {line : Line} {name : String} {value : Value} (other : ∀ ref, value ≠ .obj ref) :
    Checks heap (.field line name) value value .object line
  | target {line : Line} {name : String} {code : Occurrence} {scope : Ref} {value : Value}
      (other : ∀ ref, value ≠ .obj ref) :
    Checks heap (.target line name code scope) value value .object line
  | callee {line : Line} {rest : List Occurrence} {scope : Ref} {value : Value}
      (other : ∀ ref, value = .obj ref → heap.isFunction ref = false) :
    Checks heap (.callee line rest scope) value value .function line
  | receiver {line : Line} {name : String} {rest : List Occurrence} {scope : Ref} {value : Value}
      (other : ∀ ref, value ≠ .obj ref) :
    Checks heap (.receiver line name rest scope) value value .object line
  | method {line : Line} {name : String} {rest : List Occurrence} {scope holder : Ref}
      (other : ∀ ref, heap.lookup holder name = .obj ref → heap.isFunction ref = false) :
    Checks heap (.receiver line name rest scope) (.obj holder) (heap.lookup holder name) .function
      line

/-- Why a waiting evaluation does not go on with its value. -/
inductive Frame.Rejects (state : State) : Frame → Value → Fault → Prop
  | unknown {line : Line} {name : String} {scope : Ref} {value : Value}
      (unbound : state.heap.lookup scope name = .undefined) :
    Rejects state (.assignment line name false scope) value (.failure ⟨.unknownVariable name, line⟩)
  | mismatch {frame : Frame} {value refused : Value} {expected : Expected} {line : Line}
      {fault : Fault} (checks : frame.Checks state.heap value refused expected line)
      (fails : refused.Mismatch state.heap expected line fault) : Rejects state frame value fault

theorem Occurrence.says_begin (settings : Settings) (code : Occurrence) (scope : Ref)
    (state : State) :
    (code.begin scope).Says state (Task.Refuses settings state (.eval code scope)) := by
  obtain ⟨place, node⟩ := code
  cases node with
  | function line name parameters body => cases name <;> exact says_of_ok rfl
  | unknown line kind => exact says_fail _ _ .unsupported
  | _ => exact says_of_ok rfl

theorem Task.says_invoked (settings : Settings) (origin : Place) (callee : Ref) (receiver : Value)
    (values : List Value) (state : State) :
    (invoked origin callee receiver values ((state.heap.get? callee).bind Object.body)).Says state
      (Refuses settings state (.invoke callee receiver values)) := by
  cases body : (state.heap.get? callee).bind Object.body with
  | none => exact fun fault after raised => .notFunction body (says_notFunction _ _ raised)
  | some found =>
      cases found with
      | builtin builtin =>
          exact says_bind (fun fault after raised => .builtin body (builtin.says_run values raised))
            fun _ _ _ => says_pure _
      | closure lambda scope =>
          refine says_ite (fun _ => says_of_ok rfl) fun differs => ?_
          exact says_fail _ _ (.closure body differs)
      | external call =>
          simp only [invoked]
          cases given : call callee receiver values with
          | ok result => exact says_pure _
          | error failure =>
              rintro _ _ ⟨⟩
              exact .external body given

theorem Task.says_begin (settings : Settings) (origins : Ref → Place) (allowed : Bool)
    (task : Task) (state : State) :
    (task.begin settings origins allowed).Says state (task.Refuses settings state) := by
  cases task with
  | eval code scope =>
      refine says_ite (fun _ => code.says_begin settings scope state) fun _ => ?_
      rintro _ _ ⟨⟩
      exact .tooDeep
  | elements rest scope => cases rest <;> exact says_of_ok rfl
  | fields done rest scope => cases rest <;> exact says_of_ok rfl
  | arguments line callee receiver done rest scope =>
      cases rest with
      | nil =>
          refine says_ite (fun traced => ?_) fun _ => says_of_ok rfl
          refine says_bind (says_log fun strict none => ?_) fun _ _ _ => says_pure _
          obtain ⟨value, given, long⟩ :=
            Value.quotedList?_eq_none_iff.mp (Option.map_eq_none_iff.mp none)
          exact .unlogged traced strict given long
      | cons code rest => exact says_of_ok rfl
  | invoke callee receiver values =>
      refine says_bind (says_of_ok rfl) fun body after viewed => ?_
      cases viewed
      exact says_invoked _ _ _ _ _ _

theorem Frame.says_resume (frame : Frame) (value : Value) (state : State) :
    (frame.resume value).Says state (frame.Rejects state value) := by
  cases frame with
  | assignment line name declares scope =>
      refine says_bind (says_of_ok rfl) fun found after looked => ?_
      refine says_ite (fun unknown => ?_) fun _ => says_of_ok rfl
      cases looked
      simp only [Bool.and_eq_true, Bool.not_eq_true', decide_eq_true_eq] at unknown
      obtain ⟨rfl, unbound⟩ := unknown
      exact says_fail _ _ (.unknown unbound)
  | condition line onTrue onFalse scope =>
      refine says_bind (fun fault after raised => ?_) fun _ _ _ => says_pure _
      obtain ⟨other, fails⟩ := says_integer line value raised
      exact .mismatch (.condition other) fails
  | field line name =>
      refine says_bind (fun fault after raised => ?_) fun _ _ _ => says_of_ok rfl
      obtain ⟨other, fails⟩ := says_object line value raised
      exact .mismatch (.field other) fails
  | target line name code scope =>
      refine says_bind (fun fault after raised => ?_) fun _ _ _ => says_pure _
      obtain ⟨other, fails⟩ := says_object line value raised
      exact .mismatch (.target other) fails
  | callee line rest scope =>
      refine says_bind (fun fault after raised => ?_) fun _ _ _ => says_pure _
      obtain ⟨other, fails⟩ := says_function line value raised
      exact .mismatch (.callee other) fails
  | receiver line name rest scope =>
      refine says_bind (fun fault after raised => ?_) fun holder after checked => ?_
      · obtain ⟨other, fails⟩ := says_object line value raised
        exact .mismatch (.receiver other) fails
      · obtain ⟨rfl, rfl⟩ := (ends_object line value).of_ok checked
        refine says_bind (says_of_ok rfl) fun found between looked => ?_
        cases looked
        refine says_bind (fun fault after raised => ?_) fun _ _ _ => says_pure _
        obtain ⟨other, fails⟩ := says_function line _ raised
        exact .mismatch (.method other) fails
  | _ => exact says_of_ok rfl

theorem Task.Does.focus_ne_raise {origins : Ref → Place} {heap heap' : Heap} {task : Task}
    {next : Next} {fault : Fault} (does : task.Does origins heap next heap') :
    next.focus ≠ .raise fault := by
  cases does with
  | eval begins => cases begins <;> exact nofun
  | _ => exact nofun

theorem Frame.Resumes.focus_ne_raise {heap heap' : Heap} {frame : Frame} {value : Value}
    {next : Next} {fault : Fault} (resumes : frame.Resumes heap value next heap') :
    next.focus ≠ .raise fault := by
  cases resumes <;> exact nofun

namespace Moment

variable {moment : Moment} {settings : Settings} {limit : Nat}

/-- The step after the moment raises a fault. -/
inductive Raises (settings : Settings) : Moment → Fault → Prop
  | refuse {task : Task} {frames : List Frame} {state : State} {origins : Ref → Place}
      {fault : Fault} (refuses : task.Refuses settings state fault) :
    Raises settings ⟨.task task, frames, state, origins⟩ fault
  | reject {value : Value} {frame : Frame} {frames : List Frame} {state : State}
      {origins : Ref → Place} {fault : Fault} (rejects : frame.Rejects state value fault) :
    Raises settings ⟨.answer (.value value), frame :: frames, state, origins⟩ fault

/-- A fault that is under way was raised by the step, or has passed the frame on top. -/
theorem raises_next {fault : Fault} (raised : (moment.next settings limit).focus = .raise fault) :
    moment.Raises settings fault ∨
      (∃ earlier frame, moment.focus = .raise earlier ∧
        moment.frames = frame :: (moment.next settings limit).frames ∧
        fault = frame.failed earlier) ∨
      moment.next settings limit = moment := by
  obtain ⟨focus, frames, state, origins⟩ := moment
  cases focus with
  | task task =>
      refine .inl (.refuse ?_)
      have noted : (noting ⟨.task task, frames, state, origins⟩ task).state = state := by
        cases task <;> rfl
      unfold Moment.next after at raised
      dsimp only at raised
      rw [noted] at raised
      cases ran : task.begin settings origins (frames.length < limit) state with
      | ok decided after =>
          rw [ran] at raised
          exact absurd raised ((task.ends_begin settings origins _ state).of_ok ran).focus_ne_raise
      | error fault' after =>
          rw [ran] at raised
          cases raised
          exact task.says_begin settings origins _ state ran
  | answer completion =>
      cases frames with
      | nil => cases completion <;> exact .inr (.inr rfl)
      | cons frame frames =>
          cases completion with
          | value value =>
              refine .inl (.reject ?_)
              unfold Moment.next after at raised
              dsimp only at raised
              cases ran : frame.resume value state with
              | ok decided after =>
                  rw [ran] at raised
                  exact absurd raised ((frame.ends_resume value state).of_ok ran).focus_ne_raise
              | error fault' after =>
                  rw [ran] at raised
                  cases raised
                  exact frame.says_resume value state ran
          | returning value => cases raised
  | raise earlier =>
      cases frames with
      | nil => exact .inr (.inr rfl)
      | cons frame frames =>
          refine .inr (.inl ⟨earlier, frame, rfl, rfl, ?_⟩)
          exact (Focus.raise.inj raised).symm

end Moment

end ScriptTree
