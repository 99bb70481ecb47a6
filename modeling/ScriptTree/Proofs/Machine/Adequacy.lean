import ScriptTree.Proofs.Machine
import ScriptTree.Proofs.Outcome

/-!
# The steps of an evaluation come to its outcome

Started on a node, with any frames waiting, a run in single steps arrives at the outcome that
`Eval.evaluator` gives for the node, with the same frames waiting (`arrives_evaluator`). The number
of evaluations that may still be nested is the limit less the number of waiting frames.

`Script.exists_moment_of_run` is the same for a whole program: the moments of an admitted run come
to the heap, the printed lines and the kind of ending that `Script.run` reports.
-/

namespace ScriptTree

open Eval

/-! ## Continuing after a completion -/

section Chains

variable {α β γ : Type}

/-- Two continuations after a completion are one. -/
theorem Completion.andThen_assoc (first : Action (Completion α))
    (second : α → Action (Completion β)) (third : β → Action (Completion γ)) :
    ((first >>= fun a => a.andThen second) >>= fun b => b.andThen third) =
      first >>= fun a => a.andThen fun x => second x >>= fun b => b.andThen third := by
  rw [bind_assoc]
  congr 1
  funext completion
  cases completion with
  | value a => rfl
  | returning result => exact pure_bind _ _

/-- A value is continued with at once. -/
theorem Completion.pure_value_andThen (a : α) (next : α → Action (Completion β)) :
    ((pure (.value a) : Action (Completion α)) >>= fun completion => completion.andThen next) =
      next a :=
  pure_bind _ _

end Chains

/-- A block goes on with its rest after the value of an element. -/
theorem Eval.sequence_cons (self : Evaluator) (scope : Ref) (node : Expr) (rest : List Expr) :
    sequence self scope (node :: rest) =
      self node scope >>= fun completion =>
        completion.andThen fun _ => sequence self scope rest := by
  rw [sequence]
  congr 1
  funext completion
  cases completion <;> rfl

/-! ## What is invoked -/

/-- What a call makes of how the body of its function completes. -/
def Completion.called : Completion Value → Value
  | .value _ => .undefined
  | .returning result => result

namespace Eval

/-- How the body of what is invoked completes. A function that is not one of the program completes
as if its result were returned. -/
def invoked (self : Evaluator) (callee : Ref) (receiver : Value) (values : List Value) :
    Option Body → Action (Completion Value)
  | none => notFunction (.obj callee)
  | some (.builtin builtin) => .returning <$> builtin.run values
  | some (.closure lambda scope) =>
      if values.length = lambda.parameters.length then do
        let inner ← .add (.scope (some scope) (callBindings lambda receiver values))
        self (.block lambda.body) inner
      else .fail (.arity lambda.name lambda.parameters.length values.length) lambda.line
  | some (.external call) =>
      match call callee receiver values with
      | .ok result => pure (.returning result)
      | .error failure => throw (.failure failure)

theorem map_notFunction {α β : Type} (f : α → β) (value : Value) :
    f <$> (notFunction value : Action α) = notFunction value := by
  rw [notFunction, notFunction, map_bind]
  rfl

theorem invoke_eq (self : Evaluator) (callee : Ref) (receiver : Value) (values : List Value) :
    Eval.invoke self callee receiver values =
      (Action.view fun state => (state.heap.get? callee).bind Object.body) >>= fun body =>
        Completion.called <$> invoked self callee receiver values body := by
  rw [Eval.invoke]
  congr 1
  funext body
  match body with
  | none => exact (map_notFunction Completion.called _).symm
  | some (.builtin builtin) =>
      rw [invoked, ← comp_map]
      exact (id_map _).symm
  | some (.closure lambda scope) =>
      change enter self lambda scope receiver values = _
      by_cases fits : values.length = lambda.parameters.length
      · simp only [enter, invoked, fits, if_true, map_bind]
        congr 1
        funext inner
        rw [map_eq_pure_bind]
        congr 1
        funext completion
        cases completion <;> rfl
      · simp only [enter, invoked, fits, if_false]
        rfl
  | some (.external call) =>
      simp only [invoked]
      cases call callee receiver values <;> rfl

end Eval

namespace Moment

variable {settings : Settings} {limit : Nat}

/-! ## Arriving at an outcome -/

/-- The moment at which an evaluation has the outcome, with the frames that wait for it. -/
def ended (frames : List Frame) (origins : Ref → Place) :
    EStateM.Result Fault State (Completion Value) → Moment
  | .ok completion state => { focus := .answer completion, frames, state, origins }
  | .error fault state => { focus := .raise fault, frames, state, origins }

/-- A run comes from a moment to an outcome, with the frames that wait for it. -/
def Arrives (settings : Settings) (limit : Nat) (moment : Moment) (frames : List Frame)
    (outcome : EStateM.Result Fault State (Completion Value)) : Prop :=
  ∃ n origins, (next settings limit)^[n] moment = ended frames origins outcome

theorem Arrives.of_next {moment : Moment} {frames : List Frame}
    {outcome : EStateM.Result Fault State (Completion Value)}
    (later : (moment.next settings limit).Arrives settings limit frames outcome) :
    moment.Arrives settings limit frames outcome := by
  obtain ⟨n, origins, reached⟩ := later
  exact ⟨n + 1, origins, reached⟩

/-- An outcome on the way, and then another one. -/
theorem Arrives.trans {moment : Moment} {inner frames : List Frame}
    {first outcome : EStateM.Result Fault State (Completion Value)}
    (arrives : moment.Arrives settings limit inner first)
    (onward : ∀ origins,
      (Moment.ended inner origins first).Arrives settings limit frames outcome) :
    moment.Arrives settings limit frames outcome := by
  obtain ⟨n, origins, reached⟩ := arrives
  obtain ⟨m, origins', reached'⟩ := onward origins
  refine ⟨m + n, origins', ?_⟩
  rw [Function.iterate_add_apply, reached, reached']

/-- A frame other than a call waits for an evaluation: it resumes with a value, and hands on all
else. -/
theorem Arrives.andThen {moment : Moment} {frame : Frame} {frames : List Frame} {state : State}
    {first : Action (Completion Value)} {rest : Value → Action (Completion Value)}
    (inside : ∀ line, frame ≠ .call line)
    (arrives : moment.Arrives settings limit (frame :: frames) (first state))
    (resumed : ∀ value state origins,
      (⟨.answer (.value value), frame :: frames, state, origins⟩ : Moment).Arrives
        settings limit frames (rest value state)) :
    moment.Arrives settings limit frames
      ((first >>= fun completion => completion.andThen rest) state) := by
  refine arrives.trans fun origins => ?_
  rw [Action.bind_apply]
  cases first state with
  | ok completion after =>
      cases completion with
      | value result => exact resumed result after origins
      | returning result =>
          refine .of_next ⟨0, origins, ?_⟩
          cases frame with
          | call line => exact absurd rfl (inside line)
          | _ => rfl
  | error fault after =>
      refine .of_next ⟨0, origins, ?_⟩
      cases frame with
      | call line => exact absurd rfl (inside line)
      | _ => rfl

/-- An action that ends the evaluation of a node arrives at its outcome. -/
theorem Arrives.after {moment : Moment} {frames : List Frame} {action : Action Next}
    {completion : Action (Completion Value)}
    (same : action = (fun result => ⟨.answer result, []⟩) <$> completion) :
    (moment.after frames action).Arrives settings limit frames (completion moment.state) := by
  refine ⟨0, moment.origins, ?_⟩
  subst same
  rw [Function.iterate_zero, id, Moment.after, Action.map_apply]
  cases completion moment.state <;> rfl

/-- A part of a step that decides on how the rest goes on. -/
theorem Arrives.bind {α : Type} {moment : Moment} {frames : List Frame} {part : Action α}
    {action : α → Action Next} {rest : α → Action (Completion Value)}
    (each : ∀ a state, (({ moment with state }).after frames (action a)).Arrives settings limit
      frames (rest a state)) :
    (moment.after frames (part >>= action)).Arrives settings limit frames
      ((part >>= rest) moment.state) := by
  rw [Moment.after, Action.bind_apply, Action.bind_apply]
  cases part moment.state with
  | ok a state => exact each a state
  | error fault state => exact ⟨0, moment.origins, rfl⟩

/-- A call takes the value that leaves its function, and gives its line to a failure without one. -/
theorem Arrives.call {moment : Moment} {line : Line} {frames : List Frame} {state : State}
    {inner : Action (Completion Value)}
    (arrives : moment.Arrives settings limit (.call line :: frames) (inner state)) :
    moment.Arrives settings limit frames
      ((Completion.value <$> Action.orAt line (Completion.called <$> inner)) state) := by
  refine arrives.trans fun origins => .of_next ⟨0, origins, ?_⟩
  rw [Action.map_apply, Action.orAt, Action.map_apply]
  cases inner state with
  | ok completion after => cases completion <;> rfl
  | error fault after => cases fault <;> rfl

/-! ## Parts of a node -/

/-- Evaluations with a given number of further ones inside arrive at their outcomes, whatever frames
wait for them. -/
def Simulates (settings : Settings) (limit depth : Nat) : Prop :=
  ∀ (code : Occurrence) (scope : Ref) (frames : List Frame) (state : State)
    (origins : Ref → Place), frames.length + depth = limit →
    (⟨.task (.eval code scope), frames, state, origins⟩ : Moment).Arrives settings limit frames
      (evaluator settings depth code.node scope state)

/-- What is invoked, from the moment on at which its call waits for it. -/
theorem arrives_invoked {depth : Nat} {frames : List Frame}
    (nested : Simulates settings limit depth) (room : frames.length + depth = limit)
    (callee : Ref) (receiver : Value) (values : List Value) (state : State)
    (origins : Ref → Place) :
    (⟨.task (.invoke callee receiver values), frames, state, origins⟩ : Moment).Arrives
      settings limit frames
        (invoked (evaluator settings depth) callee receiver values
          ((state.heap.get? callee).bind Object.body) state) := by
  refine .of_next ?_
  change (after ⟨_, frames, state, origins⟩ frames (Task.invoked (origins callee) callee receiver
    values ((state.heap.get? callee).bind Object.body))).Arrives settings limit frames _
  cases (state.heap.get? callee).bind Object.body with
  | none => exact .after (map_notFunction _ _).symm
  | some body =>
      cases body with
      | builtin builtin =>
          refine .after ?_
          rw [invoked, ← comp_map]
          rfl
      | closure lambda scope =>
          by_cases fits : values.length = lambda.parameters.length
          · simp only [Task.invoked, invoked, fits, if_true]
            exact nested ⟨0 :: origins callee, .block lambda.body⟩ _ frames _ origins room
          · simp only [Task.invoked, invoked, fits, if_false]
            exact ⟨0, origins, rfl⟩
      | external call =>
          simp only [Task.invoked, invoked]
          cases call callee receiver values <;> exact ⟨0, origins, rfl⟩

/-- An invocation, from the moment on at which its call waits for it. -/
theorem arrives_invoke {depth : Nat} {frames : List Frame}
    (nested : Simulates settings limit depth) (room : frames.length + 1 + depth = limit)
    (line : Line) (callee : Ref) (receiver : Value) (values : List Value) (state : State)
    (origins : Ref → Place) :
    (⟨.task (.invoke callee receiver values), .call line :: frames, state, origins⟩ :
      Moment).Arrives settings limit frames
        ((Completion.value <$>
          Action.orAt line (Eval.invoke (evaluator settings depth) callee receiver values))
          state) := by
  have waiting : (Frame.call line :: frames).length + depth = limit := room
  have arrives := (arrives_invoked nested waiting callee receiver values state origins).call
  have same : (Completion.value <$>
      Action.orAt line (Eval.invoke (evaluator settings depth) callee receiver values)) state =
        (Completion.value <$> Action.orAt line (Completion.called <$>
          invoked (evaluator settings depth) callee receiver values
            ((state.heap.get? callee).bind Object.body))) state := by
    rw [Action.map_apply, Action.map_apply, Action.orAt, Action.orAt, invoke_eq]
    rfl
  exact same ▸ arrives

/-- A call, after its arguments. -/
theorem arrives_call {depth : Nat} {frames : List Frame}
    (nested : Simulates settings limit depth) (room : frames.length + 1 + depth = limit)
    (line : Line) (callee : Ref) (receiver : Value) (values : List Value) (scope : Ref)
    (state : State) (origins : Ref → Place) :
    (⟨.task (.arguments line callee receiver values [] scope), frames, state, origins⟩ :
      Moment).Arrives settings limit frames
        ((Completion.value <$>
          call settings (evaluator settings depth) line callee receiver values) state) := by
  refine .of_next ?_
  unfold call
  by_cases traced : settings.traceCalls = true
  · simp only [traced, if_true, next, noting, after, Task.begin, Action.bind_apply, map_bind]
    cases Action.log _ state with
    | ok result after => exact arrives_invoke nested room line callee receiver values after origins
    | error fault after => exact ⟨0, origins, rfl⟩
  · simp only [traced, next, noting, after, Task.begin]
    exact arrives_invoke nested room line callee receiver values state origins

section Parts

variable {depth : Nat} {frames : List Frame} (nested : Simulates settings limit depth)
  (room : frames.length + 1 + depth = limit)

include nested room

/-- The rest of a block. -/
theorem arrives_elements (code : Occurrence) (scope : Ref) (nodes : List Expr) :
    ∀ (position : Nat) (state : State) (origins : Ref → Place),
      (⟨.task (.elements (code.children position nodes) scope), frames, state, origins⟩ :
        Moment).Arrives settings limit frames
          (sequence (evaluator settings depth) scope nodes state) := by
  induction nodes with
  | nil => exact fun position state origins => .of_next ⟨0, origins, rfl⟩
  | cons node rest ih =>
      intro position state origins
      have first := nested (code.child position node) scope
        (.element (code.children (position + 1) rest) scope :: frames) state origins room
      rw [sequence_cons]
      refine .of_next (Arrives.andThen (by simp) first fun value after origins => ?_)
      exact .of_next (ih (position + 1) after origins)

/-- The rest of a record. -/
theorem arrives_fields (code : Occurrence) (scope : Ref) (fields : List (String × Expr)) :
    ∀ (position : Nat) (done : List (String × Value)) (state : State) (origins : Ref → Place),
      (⟨.task (.fields done (code.named position fields) scope), frames, state, origins⟩ :
        Moment).Arrives settings limit frames
          ((fieldValues (evaluator settings depth) scope fields >>= fun completion =>
            completion.andThen fun bindings => do
              let ref ← .add (.record (.ofList (done ++ bindings)))
              pure (.value (.obj ref))) state) := by
  induction fields with
  | nil =>
      intro position done state origins
      rw [fieldValues, Completion.pure_value_andThen, List.append_nil]
      exact .of_next ⟨0, origins, rfl⟩
  | cons field rest ih =>
      intro position done state origins
      obtain ⟨name, node⟩ := field
      have first := nested (code.child position node) scope
        (.initializer name done (code.named (position + 1) rest) scope :: frames) state origins room
      rw [fieldValues, Completion.andThen_assoc]
      refine .of_next (Arrives.andThen (by simp) first fun value after origins => ?_)
      rw [Completion.andThen_assoc]
      have others := ih (position + 1) (done ++ [(name, value)]) after origins
      simp only [Completion.pure_value_andThen]
      simp only [List.append_assoc, List.cons_append, List.nil_append] at others
      exact .of_next others

/-- The rest of the arguments of a call, and the call. -/
theorem arrives_arguments (code : Occurrence) (scope : Ref) (line : Line) (callee : Ref)
    (receiver : Value) (nodes : List Expr) :
    ∀ (position : Nat) (done : List Value) (state : State) (origins : Ref → Place),
      (⟨.task (.arguments line callee receiver done (code.children position nodes) scope), frames,
        state, origins⟩ : Moment).Arrives settings limit frames
          ((arguments (evaluator settings depth) scope nodes >>= fun completion =>
            completion.andThen fun values =>
              Completion.value <$>
                call settings (evaluator settings depth) line callee receiver (done ++ values))
            state) := by
  induction nodes with
  | nil =>
      intro position done state origins
      rw [arguments, Completion.pure_value_andThen, List.append_nil]
      exact arrives_call nested room line callee receiver done scope state origins
  | cons node rest ih =>
      intro position done state origins
      have first := nested (code.child position node) scope
        (.argument line callee receiver done (code.children (position + 1) rest) scope :: frames)
        state origins room
      rw [arguments, Completion.andThen_assoc]
      refine .of_next (Arrives.andThen (by simp) first fun value after origins => ?_)
      rw [Completion.andThen_assoc]
      have others := ih (position + 1) (done ++ [value]) after origins
      simp only [Completion.pure_value_andThen]
      simp only [List.append_assoc, List.cons_append, List.nil_append] at others
      exact .of_next others

/-- The rule for a node, when the evaluations inside arrive at their outcomes. -/
theorem arrives_rules (code : Occurrence) (scope : Ref) (state : State) (origins : Ref → Place) :
    (⟨.task (.eval code scope), frames, state, origins⟩ : Moment).Arrives settings limit frames
      (rules settings (evaluator settings depth) code.node scope state) := by
  obtain ⟨place, node⟩ := code
  have allowed : frames.length < limit := by omega
  -- the first child is evaluated under one more frame, which says what follows
  have first (frame : Frame) (child : Expr) (origins : Ref → Place) :=
    nested ⟨0 :: place, child⟩ scope (frame :: frames) state origins room
  refine .of_next ?_
  simp only [next, Task.begin, allowed, decide_true, if_true]
  cases node with
  | block body => exact arrives_elements nested room ⟨place, _⟩ scope body.instrs 0 state _
  | literal line literal => exact ⟨0, _, rfl⟩
  | var line name => exact ⟨0, _, rfl⟩
  | assignment line name expr declares =>
      refine Arrives.andThen (by simp) (first _ expr _) fun value after origins => ?_
      refine .of_next (Arrives.after ?_)
      simp only [Frame.resume, map_bind]
      congr 1
      funext bound
      split <;> rfl
  | function line name parameters body => cases name <;> exact ⟨0, _, rfl⟩
  | returns line expr =>
      refine Arrives.andThen (by simp) (first _ expr _) fun value after origins => ?_
      exact .of_next ⟨0, _, rfl⟩
  | branch line condition onTrue onFalse =>
      refine Arrives.andThen (by simp) (first _ condition _) fun value after origins => ?_
      refine .of_next (Arrives.bind fun n state => ?_)
      by_cases zero : n = 0
      · rw [if_pos zero, if_pos zero]
        exact arrives_elements nested room ⟨2 :: place, .block onFalse⟩ scope onFalse.instrs 0
          state _
      · rw [if_neg zero, if_neg zero]
        exact arrives_elements nested room ⟨1 :: place, .block onTrue⟩ scope onTrue.instrs 0
          state _
  | record line fields => exact arrives_fields nested room ⟨place, _⟩ scope fields 0 [] state _
  | field line receiver name =>
      refine Arrives.andThen (by simp) (first _ receiver _) fun value after origins => ?_
      exact .of_next (Arrives.bind fun ref state => ⟨0, _, rfl⟩)
  | fieldAssignment line receiver name expr =>
      refine Arrives.andThen (by simp) (first _ receiver _) fun target after origins => ?_
      refine .of_next (Arrives.bind fun ref state => ?_)
      have second := nested ⟨1 :: place, expr⟩ scope (.write ref name :: frames) state origins room
      exact Arrives.andThen (by simp) second fun value after origins => .of_next ⟨0, _, rfl⟩
  | call line callee exprs =>
      refine Arrives.andThen (by simp) (first _ callee _) fun value after origins => ?_
      refine .of_next (Arrives.bind fun ref state => ?_)
      exact arrives_arguments nested room ⟨place, _⟩ scope line ref .undefined exprs 1 [] state _
  | methodCall line receiver name exprs =>
      refine Arrives.andThen (by simp) (first _ receiver _) fun value after origins => ?_
      refine .of_next (Arrives.bind fun holder state => ?_)
      refine Arrives.bind fun found state => Arrives.bind fun ref state => ?_
      exact arrives_arguments nested room ⟨place, _⟩ scope line ref (.obj holder) exprs 1 [] state _
  | unknown line kind => exact ⟨0, _, rfl⟩

end Parts

/-- A node, with so many evaluations inside as the frames that wait leave of the limit, arrives at
the outcome of its evaluation. -/
theorem arrives_evaluator (settings : Settings) (limit depth : Nat) :
    Simulates settings limit depth := by
  induction depth with
  | zero =>
      intro code scope frames state origins room
      refine .of_next ⟨0, Function.update origins state.heap.size code.place, ?_⟩
      have full : ¬ frames.length < limit := by omega
      simp only [next, Task.begin, full, decide_false, Bool.false_eq_true, if_false]
      rfl
  | succ depth ih =>
      intro code scope frames state origins room
      rw [evaluator_succ]
      exact arrives_rules ih (by omega) code scope state origins

end Moment

/-! ## Whole programs -/

/-- What a run reports when its evaluation has come to its end. A `return` outside of any function
is an error of the program's block. -/
def Focus.reported (line : Line) : Focus → Option (Except Fault Unit)
  | .task _ => none
  | .answer (.value _) => some (.ok ())
  | .answer (.returning _) => some (.error (.failure ⟨.strayReturn, line⟩))
  | .raise fault => some (.error fault.reported)

/-- A run starts with its first record in the log, and ends with its last one when the evaluation
gives a value. -/
theorem Script.execute_apply (script : Script) (settings : Settings) (state : State) :
    script.execute settings state =
      match evaluate settings (.block script.body) Heap.root
        { state with
          log := { state.log with
            records := state.log.records.push (.started script.body.instrs.length) } } with
      | .ok _ after =>
          .ok () { after with
            log := { after.log with records := after.log.records.push .finished } }
      | .error fault after => .error fault after := by
  have started : Action.log (fun _ => .started script.body.instrs.length) state =
      .ok () { state with
        log := { state.log with
          records := state.log.records.push (.started script.body.instrs.length) } } := by
    rw [Action.log, Log.write?_of_message rfl]
  rw [execute, Action.bind_apply, started]
  dsimp only
  rw [Action.bind_apply]
  cases evaluate settings (.block script.body) Heap.root _ with
  | ok value after =>
      dsimp only
      rw [Action.log, Log.write?_of_message rfl]
  | error fault after => rfl

/-- The moments of an admitted run come to its end: to the objects that the run leaves, to the lines
that it printed and to the ending that it reports. -/
theorem Script.exists_moment_of_run {script : Script} {settings : Settings} {sink : Sink}
    {log : Log} {report : Report} (ran : script.run (.sink sink) settings log = .ok report) :
    ∃ n, (script.moment settings sink log n).frames = [] ∧
      (script.moment settings sink log n).focus.reported script.body.line = some report.ending ∧
      (script.moment settings sink log n).state.heap = report.state.heap ∧
      (script.moment settings sink log n).state.sink = report.state.sink := by
  obtain ⟨n, origins, reached⟩ := Moment.arrives_evaluator settings settings.depth settings.depth
    ⟨[], .block script.body⟩ Heap.root []
    (start settings sink
      { log with records := log.records.push (.started script.body.instrs.length) })
    (fun _ => []) (by simp)
  refine ⟨n, ?_⟩
  have here : script.moment settings sink log n = _ := reached
  rw [here]
  unfold run at ran
  dsimp only at ran
  split at ran
  · rw [execute_apply, evaluate, Action.bind_apply] at ran
    unfold start at ran ⊢
    dsimp only at ran ⊢
    generalize evaluator settings settings.depth (.block script.body) Heap.root _ = outcome at ran ⊢
    cases outcome with
    | ok completion after =>
        cases completion <;> cases ran <;> exact ⟨rfl, rfl, rfl, rfl⟩
    | error fault after => cases ran; exact ⟨rfl, rfl, rfl, rfl⟩
  · cases ran

end ScriptTree
