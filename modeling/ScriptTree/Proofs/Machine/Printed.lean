import ScriptTree.Proofs.Machine.Moves

/-!
# What a step prints

All that an action does to the sink is to give it lines (`Action.Prints`), and so all that a run
does to its sink (`Script.grows_moment`). In particular a sink stays of the kind that it was handed
in as.
-/

namespace ScriptTree

/-! ## Sinks that were given lines -/

namespace Sink

/-- What a sink is after it was given some more lines. -/
def Grows (before after : Sink) : Prop :=
  ∃ lines : List String, lines.foldlM write? before = some after

theorem Grows.refl (sink : Sink) : sink.Grows sink :=
  ⟨[], rfl⟩

theorem Grows.trans {before between after : Sink} (first : before.Grows between)
    (second : between.Grows after) : before.Grows after := by
  obtain ⟨lines, given⟩ := first
  obtain ⟨more, later⟩ := second
  refine ⟨lines ++ more, ?_⟩
  rw [List.foldlM_append, given]
  exact later

theorem Grows.of_write? {before after : Sink} {line : String}
    (written : before.write? line = some after) : before.Grows after := by
  refine ⟨[line], ?_⟩
  rw [List.foldlM_cons, written]
  rfl

/-- Lines never make a bounded sink of another one. -/
theorem Grows.exists_bounded {before : Sink} {capacity : Nat} {written : Array String}
    (grows : before.Grows (.bounded capacity written)) :
    ∃ earlier, before = .bounded capacity earlier := by
  obtain ⟨lines, given⟩ := grows
  induction lines generalizing before with
  | nil => exact ⟨written, Option.some.inj given⟩
  | cons line lines ih =>
      rw [List.foldlM_cons] at given
      obtain ⟨between, once, rest⟩ := Option.bind_eq_some_iff.mp given
      obtain ⟨earlier, rfl⟩ := ih rest
      cases before with
      | lines | stream => cases once
      | bounded =>
          simp only [write?] at once
          split at once
          · cases once
          · cases once
            exact ⟨_, rfl⟩

/-- Only a bounded sink refuses a line. -/
theorem exists_bounded_of_write?_eq_none {sink : Sink} {line : String}
    (full : sink.write? line = none) : ∃ capacity written, sink = .bounded capacity written := by
  cases sink with
  | lines | stream => cases full
  | bounded capacity written => exact ⟨capacity, written, rfl⟩

end Sink

/-! ## Actions that print -/

namespace Action

variable {α β : Type}

/-- However the action ends, all that it did to the sink is to give it lines. -/
def Prints (action : Action α) : Prop :=
  ∀ state, action.Ends state (fun _ after => state.sink.Grows after.sink)
    fun _ after => state.sink.Grows after.sink

theorem Prints.bind {first : Action β} {next : β → Action α} (here : first.Prints)
    (later : ∀ b, (next b).Prints) : (first >>= next).Prints := by
  intro state
  refine (ends_bind first next).mpr ((here state).mono (fun b after given => ?_) fun _ _ => id)
  exact (later b after).mono (fun _ _ => given.trans) fun _ _ => given.trans

theorem prints_ite {condition : Prop} [Decidable condition] {yes no : Action α}
    (whenTrue : yes.Prints) (whenFalse : no.Prints) :
    (if condition then yes else no).Prints := by
  split
  · exact whenTrue
  · exact whenFalse

theorem prints_pure (a : α) : (pure a : Action α).Prints :=
  fun state => .refl state.sink

theorem prints_throw (fault : Fault) : (throw fault : Action α).Prints :=
  fun state => .refl state.sink

theorem prints_view (look : State → α) : (view look).Prints :=
  fun state => .refl state.sink

theorem prints_add (object : Object) : (add object).Prints :=
  fun state => .refl state.sink

theorem prints_register (ref : Ref) (key : String) (value : Value) :
    (register ref key value).Prints :=
  fun state => .refl state.sink

theorem prints_shown (text? : Heap → Option String) : (shown text?).Prints := by
  intro state
  unfold Ends shown
  cases text? state.heap <;> exact .refl state.sink

theorem prints_log (record : Heap → LogRecord) : (log record).Prints := by
  intro state
  unfold Ends log
  cases state.log.write? (record state.heap) <;> exact .refl state.sink

theorem prints_writeLine (line : String) : (writeLine line).Prints := by
  intro state
  unfold Ends writeLine
  cases written : state.sink.write? line with
  | none => exact .refl state.sink
  | some sink => exact .of_write? written

theorem prints_mismatch (value : Value) (expected : Expected) (line : Line) :
    (do let text ← shown fun heap => value.display? heap
        fail (.mismatch text expected) line : Action α).Prints :=
  (prints_shown _).bind fun _ => prints_throw _

theorem prints_integer (line : Line) (value : Value) : (Eval.integer line value).Prints := by
  unfold Eval.integer
  split
  · exact prints_pure _
  · exact prints_mismatch _ _ line

theorem prints_object (line : Line) (value : Value) : (Eval.object line value).Prints := by
  unfold Eval.object
  split
  · exact prints_pure _
  · exact prints_mismatch _ _ line

theorem prints_notFunction (value : Value) (line : Line) :
    (Eval.notFunction value line : Action α).Prints :=
  prints_mismatch value .function line

theorem prints_function (line : Line) (value : Value) : (Eval.function line value).Prints := by
  unfold Eval.function
  split
  · exact (prints_view _).bind fun _ => prints_ite (prints_pure _) (prints_notFunction _ line)
  · exact prints_notFunction _ line

theorem prints_operands (symbol : String) (values : List Value) :
    (Builtin.operands symbol values).Prints := by
  match values with
  | [] | [_] | _ :: _ :: _ :: _ => exact prints_throw _
  | [_, _] => exact prints_pure _

theorem prints_integerOperand (symbol : String) (value : Value) :
    (Builtin.integerOperand symbol value).Prints := by
  unfold Builtin.integerOperand
  split
  · exact prints_pure _
  · exact (prints_shown _).bind fun _ => prints_throw _

theorem prints_run (builtin : Builtin) (values : List Value) : (builtin.run values).Prints := by
  cases builtin with
  | print =>
      refine (prints_log _).bind fun _ => (prints_shown _).bind fun line => ?_
      exact (prints_writeLine line).bind fun _ => prints_pure _
  | arithmetic symbol operation =>
      refine (prints_operands _ _).bind fun ⟨left, right⟩ => ?_
      refine (prints_integerOperand _ _).bind fun a => (prints_integerOperand _ _).bind fun b => ?_
      cases operation.apply a b with
      | ok n => exact prints_pure _
      | error cause => exact prints_throw _
  | equality symbol negated => exact (prints_operands _ _).bind fun _ => prints_pure _
  | ordering symbol comparison =>
      refine (prints_operands _ _).bind fun ⟨left, right⟩ => ?_
      dsimp only
      cases left.compare? comparison right with
      | some holds => exact prints_pure _
      | none =>
          refine (prints_shown _).bind fun _ => (prints_shown _).bind fun _ => ?_
          exact (prints_view _).bind fun _ => prints_throw _

end Action

/-! ## What a step does to the sink -/

section Parts

open ScriptTree.Action

theorem Occurrence.prints_begin (code : Occurrence) (scope : Ref) : (code.begin scope).Prints := by
  obtain ⟨place, node⟩ := code
  cases node with
  | var line name => exact (prints_view _).bind fun _ => prints_pure _
  | function line name parameters body =>
      refine (prints_add _).bind fun ref => ?_
      cases name with
      | none => exact prints_pure _
      | some name => exact (prints_register _ _ _).bind fun _ => prints_pure _
  | unknown line kind => exact prints_throw _
  | _ => exact prints_pure _

theorem Task.prints_invoked (origin : Place) (callee : Ref) (receiver : Value) (values : List Value)
    (body : Option Body) : (invoked origin callee receiver values body).Prints := by
  cases body with
  | none => exact prints_notFunction _ _
  | some body =>
      cases body with
      | builtin builtin => exact (prints_run builtin values).bind fun _ => prints_pure _
      | closure lambda scope =>
          exact prints_ite ((prints_add _).bind fun _ => prints_pure _) (prints_throw _)
      | external call =>
          simp only [invoked]
          cases call callee receiver values with
          | ok result => exact prints_pure _
          | error failure => exact prints_throw _

theorem Task.prints_begin (settings : Settings) (origins : Ref → Place) (allowed : Bool)
    (task : Task) : (task.begin settings origins allowed).Prints := by
  cases task with
  | eval code scope => exact prints_ite (code.prints_begin scope) (prints_throw _)
  | elements rest scope => cases rest <;> exact prints_pure _
  | fields done rest scope =>
      cases rest with
      | nil => exact (prints_add _).bind fun _ => prints_pure _
      | cons field rest => exact prints_pure _
  | arguments line callee receiver done rest scope =>
      cases rest with
      | nil => exact prints_ite ((prints_log _).bind fun _ => prints_pure _) (prints_pure _)
      | cons code rest => exact prints_pure _
  | invoke callee receiver values =>
      exact (prints_view _).bind fun _ => prints_invoked _ _ _ _ _

theorem Frame.prints_resume (frame : Frame) (value : Value) : (frame.resume value).Prints := by
  cases frame with
  | assignment line name declares scope =>
      refine (prints_view _).bind fun found => prints_ite (prints_throw _) ?_
      exact (prints_register _ _ _).bind fun _ => prints_pure _
  | condition line onTrue onFalse scope =>
      exact (prints_integer line value).bind fun _ => prints_pure _
  | field line name =>
      exact (prints_object line value).bind fun _ => (prints_view _).bind fun _ => prints_pure _
  | target line name code scope => exact (prints_object line value).bind fun _ => prints_pure _
  | write ref name => exact (prints_register _ _ _).bind fun _ => prints_pure _
  | callee line rest scope => exact (prints_function line value).bind fun _ => prints_pure _
  | receiver line name rest scope =>
      refine (prints_object line value).bind fun holder => (prints_view _).bind fun found => ?_
      exact (prints_function line found).bind fun _ => prints_pure _
  | _ => exact prints_pure _

end Parts

namespace Moment

/-- An action that is done after a moment gives lines to its sink. -/
theorem grows_after {action : Action Next} (prints : action.Prints) (moment : Moment)
    (frames : List Frame) : moment.state.sink.Grows (moment.after frames action).state.sink := by
  have ends := prints moment.state
  unfold Action.Ends at ends
  unfold after
  cases ran : action moment.state with
  | ok next state =>
      rw [ran] at ends
      exact ends
  | error fault state =>
      rw [ran] at ends
      exact ends

/-- All that a step does to the sink is to give it lines. -/
theorem grows_next (settings : Settings) (limit : Nat) (moment : Moment) :
    moment.state.sink.Grows (moment.next settings limit).state.sink := by
  obtain ⟨focus, frames, state, origins⟩ := moment
  cases focus with
  | task task =>
      have noted : (noting ⟨.task task, frames, state, origins⟩ task).state = state := by
        cases task <;> rfl
      have grows := grows_after (task.prints_begin settings origins (frames.length < limit))
        (noting ⟨.task task, frames, state, origins⟩ task) frames
      rwa [noted] at grows
  | answer completion =>
      cases frames with
      | nil => cases completion <;> exact .refl _
      | cons frame frames =>
          cases completion with
          | value value => exact grows_after (frame.prints_resume value) _ _
          | returning value => exact .refl _
  | raise fault => cases frames <;> exact .refl _

end Moment

/-- All that a run does to its sink is to give it lines. -/
theorem Script.grows_moment (script : Script) (settings : Settings) (sink : Sink) (log : Log)
    (n : Nat) : sink.Grows (script.moment settings sink log n).state.sink := by
  induction n with
  | zero => exact .refl sink
  | succ n ih =>
      rw [moment_succ]
      exact ih.trans (Moment.grows_next _ _ _)

end ScriptTree
