import ScriptTree.Proofs.Machine
import ScriptTree.Proofs.Outcome

/-!
# What a step does

`Moment.next` performs actions. This module says once what these can do to the objects of a run and
how they go on, one constructor for each: `Occurrence.Begins` for the node that is evaluated,
`Task.Does` for any task and `Frame.Resumes` for an evaluation that has the value it waited for.
`Moment.Move` puts them together, and `Moment.move_next` shows that every step is one. What a step
keeps is proved by cases on its move, and nothing else opens an action.
-/

namespace ScriptTree

open ScriptTree.Action ScriptTree.Eval

/-! ## The ways to go on -/

/-- How the evaluation of a node begins. -/
inductive Occurrence.Begins (heap : Heap) (scope : Ref) (place : Place) :
    Expr → Next → Heap → Prop
  | block {body : Block Expr} :
    Begins heap scope place (.block body)
      (.go (.elements (Occurrence.children ⟨place, .block body⟩ 0 body.instrs) scope)) heap
  | literal {line : Line} {literal : Literal} :
    Begins heap scope place (.literal line literal) (.value literal.toValue) heap
  | var {line : Line} {name : String} :
    Begins heap scope place (.var line name) (.value (heap.lookup scope name)) heap
  | assignment {line : Line} {name : String} {expr : Expr} {declares : Bool} :
    Begins heap scope place (.assignment line name expr declares)
      (.eval (.assignment line name declares scope) ⟨0 :: place, expr⟩ scope) heap
  | anonymous {line : Line} {parameters : List String} {body : Block Expr} :
    Begins heap scope place (.function line none parameters body) (.value (.obj heap.size))
      (heap.add (.function "lambda" (.closure ⟨line, "lambda", parameters, body⟩ scope)))
  | named {line : Line} {name : String} {parameters : List String} {body : Block Expr} :
    Begins heap scope place (.function line (some name) parameters body) (.value (.obj heap.size))
      ((heap.add (.function name (.closure ⟨line, name, parameters, body⟩ scope))).register
        scope name (.obj heap.size))
  | returns {line : Line} {expr : Expr} :
    Begins heap scope place (.returns line expr) (.eval .returns ⟨0 :: place, expr⟩ scope) heap
  | branch {line : Line} {condition : Expr} {onTrue onFalse : Block Expr} :
    Begins heap scope place (.branch line condition onTrue onFalse)
      (.eval
        (.condition line (Occurrence.children ⟨1 :: place, .block onTrue⟩ 0 onTrue.instrs)
          (Occurrence.children ⟨2 :: place, .block onFalse⟩ 0 onFalse.instrs) scope)
        ⟨0 :: place, condition⟩ scope) heap
  | record {line : Line} {fields : List (String × Expr)} :
    Begins heap scope place (.record line fields)
      (.go (.fields [] (Occurrence.named ⟨place, .record line fields⟩ 0 fields) scope)) heap
  | field {line : Line} {receiver : Expr} {name : String} :
    Begins heap scope place (.field line receiver name)
      (.eval (.field line name) ⟨0 :: place, receiver⟩ scope) heap
  | fieldAssignment {line : Line} {receiver : Expr} {name : String} {expr : Expr} :
    Begins heap scope place (.fieldAssignment line receiver name expr)
      (.eval (.target line name ⟨1 :: place, expr⟩ scope) ⟨0 :: place, receiver⟩ scope) heap
  | call {line : Line} {callee : Expr} {exprs : List Expr} :
    Begins heap scope place (.call line callee exprs)
      (.eval (.callee line (Occurrence.children ⟨place, .call line callee exprs⟩ 1 exprs) scope)
        ⟨0 :: place, callee⟩ scope) heap
  | methodCall {line : Line} {receiver : Expr} {name : String} {exprs : List Expr} :
    Begins heap scope place (.methodCall line receiver name exprs)
      (.eval
        (.receiver line name
          (Occurrence.children ⟨place, .methodCall line receiver name exprs⟩ 1 exprs) scope)
        ⟨0 :: place, receiver⟩ scope) heap

/-- What doing a task begins with. -/
inductive Task.Does (origins : Ref → Place) (heap : Heap) : Task → Next → Heap → Prop
  | eval {place : Place} {node : Expr} {scope : Ref} {next : Next} {heap' : Heap}
      (begins : Occurrence.Begins heap scope place node next heap') :
    Does origins heap (.eval ⟨place, node⟩ scope) next heap'
  | noElement {scope : Ref} :
    Does origins heap (.elements [] scope) (.value .undefined) heap
  | element {code : Occurrence} {rest : List Occurrence} {scope : Ref} :
    Does origins heap (.elements (code :: rest) scope) (.eval (.element rest scope) code scope) heap
  | record {done : List (String × Value)} {scope : Ref} :
    Does origins heap (.fields done [] scope) (.value (.obj heap.size))
      (heap.add (.record (.ofList done)))
  | field {done : List (String × Value)} {name : String} {code : Occurrence}
      {rest : List (String × Occurrence)} {scope : Ref} :
    Does origins heap (.fields done ((name, code) :: rest) scope)
      (.eval (.initializer name done rest scope) code scope) heap
  | call {line : Line} {callee : Ref} {receiver : Value} {done : List Value} {scope : Ref} :
    Does origins heap (.arguments line callee receiver done [] scope)
      ⟨.task (.invoke callee receiver done), [.call line]⟩ heap
  | argument {line : Line} {callee : Ref} {receiver : Value} {done : List Value}
      {code : Occurrence} {rest : List Occurrence} {scope : Ref} :
    Does origins heap (.arguments line callee receiver done (code :: rest) scope)
      (.eval (.argument line callee receiver done rest scope) code scope) heap
  | builtin {callee : Ref} {receiver : Value} {values : List Value} {builtin : Builtin}
      {result : Value} (body : (heap.get? callee).bind Object.body = some (.builtin builtin))
      (given : result = .undefined ∨ ∃ n, result = .int n) :
    Does origins heap (.invoke callee receiver values) (.returning result) heap
  | closure {callee : Ref} {receiver : Value} {values : List Value} {lambda : Lambda} {scope : Ref}
      (body : (heap.get? callee).bind Object.body = some (.closure lambda scope))
      (fits : values.length = lambda.parameters.length) :
    Does origins heap (.invoke callee receiver values)
      (.go (.eval ⟨0 :: origins callee, .block lambda.body⟩ heap.size))
      (heap.add (.scope (some scope) (callBindings lambda receiver values)))
  | external {callee : Ref} {receiver : Value} {values : List Value}
      {call : Ref → Value → List Value → Except Failure Value} {result : Value}
      (body : (heap.get? callee).bind Object.body = some (.external call))
      (given : call callee receiver values = .ok result) :
    Does origins heap (.invoke callee receiver values) (.returning result) heap

/-- How a waiting evaluation goes on with its value. -/
inductive Frame.Resumes (heap : Heap) : Frame → Value → Next → Heap → Prop
  | element {rest : List Occurrence} {scope : Ref} {value : Value} :
    Resumes heap (.element rest scope) value (.go (.elements rest scope)) heap
  | assignment {line : Line} {name : String} {declares : Bool} {scope : Ref} {value : Value}
      (known : declares = true ∨ heap.lookup scope name ≠ .undefined) :
    Resumes heap (.assignment line name declares scope) value (.value .undefined)
      (heap.register scope name value)
  | returns {value : Value} : Resumes heap .returns value (.returning value) heap
  | condition {line : Line} {onTrue onFalse : List Occurrence} {scope : Ref} {n : Int} :
    Resumes heap (.condition line onTrue onFalse scope) (.int n)
      (.go (.elements (if n = 0 then onFalse else onTrue) scope)) heap
  | initializer {name : String} {done : List (String × Value)} {rest : List (String × Occurrence)}
      {scope : Ref} {value : Value} :
    Resumes heap (.initializer name done rest scope) value
      (.go (.fields (done ++ [(name, value)]) rest scope)) heap
  | field {line : Line} {name : String} {ref : Ref} :
    Resumes heap (.field line name) (.obj ref) (.value (heap.lookup ref name)) heap
  | target {line : Line} {name : String} {code : Occurrence} {scope ref : Ref} :
    Resumes heap (.target line name code scope) (.obj ref) (.eval (.write ref name) code scope) heap
  | write {ref : Ref} {name : String} {value : Value} :
    Resumes heap (.write ref name) value (.value .undefined) (heap.register ref name value)
  | callee {line : Line} {rest : List Occurrence} {scope ref : Ref}
      (function : heap.isFunction ref = true) :
    Resumes heap (.callee line rest scope) (.obj ref)
      (.go (.arguments line ref .undefined [] rest scope)) heap
  | receiver {line : Line} {name : String} {rest : List Occurrence} {scope holder ref : Ref}
      (found : heap.lookup holder name = .obj ref) (function : heap.isFunction ref = true) :
    Resumes heap (.receiver line name rest scope) (.obj holder)
      (.go (.arguments line ref (.obj holder) [] rest scope)) heap
  | argument {line : Line} {callee : Ref} {receiver : Value} {done : List Value}
      {rest : List Occurrence} {scope : Ref} {value : Value} :
    Resumes heap (.argument line callee receiver done rest scope) value
      (.go (.arguments line callee receiver (done ++ [value]) rest scope)) heap
  | call {line : Line} {value : Value} : Resumes heap (.call line) value (.value .undefined) heap

section Frames

variable {heap heap' : Heap} {next : Next}

theorem Task.Does.length_frames_le {origins : Ref → Place} {task : Task}
    (does : task.Does origins heap next heap') : next.frames.length ≤ 1 := by
  cases does with
  | eval begins => cases begins <;> simp [Next.eval, Next.go, Next.value]
  | _ => simp [Next.eval, Next.go, Next.value, Next.returning]

theorem Frame.Resumes.length_frames_le {frame : Frame} {value : Value}
    (resumes : frame.Resumes heap value next heap') : next.frames.length ≤ 1 := by
  cases resumes <;> simp [Next.eval, Next.go, Next.value, Next.returning]

end Frames

/-! ## The actions of a step -/

theorem Occurrence.ends_begin (code : Occurrence) (scope : Ref) (state : State) :
    (code.begin scope).Ends state
      (fun next after => Begins state.heap scope code.place code.node next after.heap)
      fun _ after => after.heap = state.heap := by
  obtain ⟨place, node⟩ := code
  cases node with
  | block body => exact .block
  | literal line literal => exact .literal
  | var line name => exact .var
  | assignment line name expr declares => exact .assignment
  | function line name parameters body =>
      cases name with
      | none => exact .anonymous
      | some name => exact .named
  | returns line expr => exact .returns
  | branch line condition onTrue onFalse => exact .branch
  | record line fields => exact .record
  | field line receiver name => exact .field
  | fieldAssignment line receiver name expr => exact .fieldAssignment
  | call line callee exprs => exact .call
  | methodCall line receiver name exprs => exact .methodCall
  | unknown line kind => exact rfl

theorem Task.ends_invoked {origins : Ref → Place} {callee : Ref} {receiver : Value}
    {values : List Value} {body : Option Body} {state : State}
    (found : (state.heap.get? callee).bind Object.body = body) :
    (Task.invoked (origins callee) callee receiver values body).Ends state
      (fun next after => Does origins state.heap (.invoke callee receiver values) next after.heap)
      fun _ after => after.heap = state.heap := by
  cases body with
  | none => exact (ends_notFunction _ _).mono (fun _ _ => id) fun _ _ same => same ▸ rfl
  | some body =>
      cases body with
      | builtin builtin =>
          refine (ends_bind _ _).mpr
            ((builtin.ends_run values).mono (fun result after ran => ?_) fun _ _ same => same)
          change Does origins state.heap _ _ after.heap
          rw [ran.2]
          exact .builtin found ran.1
      | closure lambda scope =>
          refine (ends_ite _ _ _).mpr ?_
          split
          · exact .closure found ‹_›
          · exact rfl
      | external call =>
          simp only [Task.invoked]
          cases given : call callee receiver values with
          | ok result => exact .external found given
          | error failure => exact rfl

theorem Task.ends_begin (settings : Settings) (origins : Ref → Place) (allowed : Bool)
    (task : Task) (state : State) :
    (task.begin settings origins allowed).Ends state
      (fun next after => task.Does origins state.heap next after.heap)
      fun _ after => after.heap = state.heap := by
  cases task with
  | eval code scope =>
      refine (ends_ite _ _ _).mpr ?_
      split
      · exact (code.ends_begin scope state).mono (fun _ _ begins => .eval begins) fun _ _ => id
      · exact rfl
  | elements rest scope =>
      cases rest with
      | nil => exact .noElement
      | cons code rest => exact .element
  | fields done rest scope =>
      cases rest with
      | nil => exact .record
      | cons field rest => exact .field
  | arguments line callee receiver done rest scope =>
      cases rest with
      | nil =>
          refine (ends_ite _ _ _).mpr ?_
          split
          · refine (ends_bind _ _).mpr
              ((quiet_log _ state).mono (fun _ after same => ?_) fun _ _ same => same)
            change Does origins state.heap _ _ after.heap
            rw [same]
            exact .call
          · exact .call
      | cons code rest => exact .argument
  | invoke callee receiver values => exact ends_invoked rfl

theorem Frame.ends_resume (frame : Frame) (value : Value) (state : State) :
    (frame.resume value).Ends state
      (fun next after => frame.Resumes state.heap value next after.heap)
      fun _ after => after.heap = state.heap := by
  cases frame with
  | element rest scope => exact .element
  | assignment line name declares scope =>
      refine (ends_ite _ _ _).mpr ?_
      split
      · exact rfl
      · rename_i known
        refine .assignment ?_
        by_cases declared : declares = true
        · exact .inl declared
        · exact .inr (by simpa [declared] using known)
  | returns => exact .returns
  | condition line onTrue onFalse scope =>
      refine (ends_bind _ _).mpr
        ((ends_integer line value).mono (fun n after checked => ?_) fun _ _ same => same ▸ rfl)
      obtain ⟨rfl, rfl⟩ := checked
      exact .condition
  | initializer name done rest scope => exact .initializer
  | field line name =>
      refine (ends_bind _ _).mpr
        ((ends_object line value).mono (fun ref after checked => ?_) fun _ _ same => same ▸ rfl)
      obtain ⟨rfl, rfl⟩ := checked
      exact .field
  | target line name code scope =>
      refine (ends_bind _ _).mpr
        ((ends_object line value).mono (fun ref after checked => ?_) fun _ _ same => same ▸ rfl)
      obtain ⟨rfl, rfl⟩ := checked
      exact .target
  | write ref name => exact .write
  | callee line rest scope =>
      refine (ends_bind _ _).mpr
        ((ends_function line value).mono (fun ref after checked => ?_) fun _ _ same => same ▸ rfl)
      obtain ⟨rfl, function, rfl⟩ := checked
      exact .callee function
  | receiver line name rest scope =>
      refine (ends_bind _ _).mpr
        ((ends_object line value).mono (fun holder after checked => ?_) fun _ _ same => same ▸ rfl)
      obtain ⟨rfl, rfl⟩ := checked
      refine (ends_bind _ _).mpr ((ends_lookup _ _).mpr ((ends_bind _ _).mpr
        ((ends_function line _).mono (fun ref after checked => ?_) fun _ _ same => same ▸ rfl)))
      obtain ⟨found, function, rfl⟩ := checked
      exact .receiver found function
  | argument line callee receiver done rest scope => exact .argument
  | call line => exact .call

/-- An invocation comes from the arguments of a call, when all of them have their values. -/
theorem Task.Does.arguments_of_invoke {origins : Ref → Place} {heap heap' : Heap} {task : Task}
    {next : Next} (does : task.Does origins heap next heap') {callee : Ref} {receiver : Value}
    {values : List Value} (invokes : next.focus = .task (.invoke callee receiver values)) :
    ∃ line scope, task = .arguments line callee receiver values [] scope := by
  cases does with
  | call =>
      cases invokes
      exact ⟨_, _, rfl⟩
  | eval begins => cases begins <;> cases invokes
  | _ => cases invokes

theorem Frame.Resumes.focus_ne_invoke {heap heap' : Heap} {frame : Frame} {value : Value}
    {next : Next} (resumes : frame.Resumes heap value next heap') (callee : Ref) (receiver : Value)
    (values : List Value) : next.focus ≠ .task (.invoke callee receiver values) := by
  cases resumes <;> exact nofun

/-! ## One step -/

namespace Moment

/-- What one step does to a moment. A state stands for any state with its objects: what a step
prints and logs is not said here. -/
inductive Move : Moment → Moment → Prop
  | perform {task : Task} {frames : List Frame} {state state' : State} {origins : Ref → Place}
      {next : Next} (does : task.Does origins state.heap next state'.heap) :
    Move ⟨.task task, frames, state, origins⟩
      ⟨next.focus, next.frames ++ frames, state',
        (noting ⟨.task task, frames, state, origins⟩ task).origins⟩
  | refuse {task : Task} {frames : List Frame} {state state' : State} {origins : Ref → Place}
      {fault : Fault} (same : state'.heap = state.heap) :
    Move ⟨.task task, frames, state, origins⟩
      ⟨.raise fault, frames, state', (noting ⟨.task task, frames, state, origins⟩ task).origins⟩
  | resume {value : Value} {frame : Frame} {frames : List Frame} {state state' : State}
      {origins : Ref → Place} {next : Next}
      (resumes : frame.Resumes state.heap value next state'.heap) :
    Move ⟨.answer (.value value), frame :: frames, state, origins⟩
      ⟨next.focus, next.frames ++ frames, state', origins⟩
  | reject {value : Value} {frame : Frame} {frames : List Frame} {state state' : State}
      {origins : Ref → Place} {fault : Fault} (same : state'.heap = state.heap) :
    Move ⟨.answer (.value value), frame :: frames, state, origins⟩
      ⟨.raise fault, frames, state', origins⟩
  | pass {value : Value} {frame : Frame} {frames : List Frame} {state : State}
      {origins : Ref → Place} :
    Move ⟨.answer (.returning value), frame :: frames, state, origins⟩
      ⟨.answer (frame.passed value), frames, state, origins⟩
  | unwind {fault : Fault} {frame : Frame} {frames : List Frame} {state : State}
      {origins : Ref → Place} :
    Move ⟨.raise fault, frame :: frames, state, origins⟩
      ⟨.raise (frame.failed fault), frames, state, origins⟩
  | rest {moment : Moment} (ended : moment.Ended) : Move moment moment

variable {settings : Settings} {limit : Nat}

/-- Every step is one of the moves. -/
theorem move_next (moment : Moment) : Move moment (moment.next settings limit) := by
  obtain ⟨focus, frames, state, origins⟩ := moment
  cases focus with
  | task task =>
      have noted : (noting ⟨.task task, frames, state, origins⟩ task).state = state := by
        cases task <;> rfl
      have ends := task.ends_begin settings origins (frames.length < limit) state
      unfold Action.Ends at ends
      unfold next after
      dsimp only
      rw [noted]
      cases ran : task.begin settings origins (frames.length < limit) state with
      | ok next state' =>
          rw [ran] at ends
          exact .perform ends
      | error fault state' =>
          rw [ran] at ends
          exact .refuse ends
  | answer completion =>
      cases frames with
      | nil => cases completion <;> exact .rest ⟨rfl, nofun⟩
      | cons frame frames =>
          cases completion with
          | value value =>
              have ends := frame.ends_resume value state
              unfold Action.Ends at ends
              unfold next after
              dsimp only
              cases ran : frame.resume value state with
              | ok next state' =>
                  rw [ran] at ends
                  exact .resume ends
              | error fault state' =>
                  rw [ran] at ends
                  exact .reject ends
          | returning value => exact .pass
  | raise fault =>
      cases frames with
      | nil => exact .rest ⟨rfl, nofun⟩
      | cons frame frames => exact .unwind

/-- What every move keeps is kept by any number of steps. -/
theorem holds_iterate {P : Moment → Prop} (kept : ∀ {a b}, Move a b → P a → P b)
    {moment : Moment} (holds : P moment) (n : Nat) : P ((next settings limit)^[n] moment) := by
  induction n with
  | zero => exact holds
  | succ n ih =>
      rw [Function.iterate_succ_apply']
      exact kept (move_next _) ih

/-- A moment at the end stays as it is. -/
theorem Move.eq_of_ended {moment next : Moment} (move : Move moment next)
    (ended : moment.Ended) : next = moment := by
  cases move with
  | perform | refuse => exact absurd rfl (ended.2 _)
  | resume | reject | pass | unwind => cases ended.1
  | rest => rfl

/-- After its end an evaluation stays as it is. -/
theorem iterate_of_ended {moment : Moment} {n m : Nat}
    (isOver : ((next settings limit)^[n] moment).Ended)
    (later : n ≤ m) : (next settings limit)^[m] moment = (next settings limit)^[n] moment := by
  obtain ⟨k, rfl⟩ := Nat.exists_eq_add_of_le later
  rw [Nat.add_comm, Function.iterate_add_apply]
  refine holds_iterate (P := fun other => other = (next settings limit)^[n] moment) ?_ rfl k
  intro before after move same
  exact (move.eq_of_ended (same ▸ isOver)).trans same

theorem Move.arguments_of_invoke {moment next : Moment} (move : Move moment next)
    {callee : Ref} {receiver : Value} {values : List Value}
    (invokes : next.focus = .task (.invoke callee receiver values)) :
    ∃ line scope, moment.focus = .task (.arguments line callee receiver values [] scope) := by
  cases move with
  | perform does =>
      obtain ⟨line, scope, rfl⟩ := does.arguments_of_invoke invokes
      exact ⟨line, scope, rfl⟩
  | resume resumes => exact absurd invokes (resumes.focus_ne_invoke _ _ _)
  | rest ended => exact absurd invokes (ended.2 _)
  | _ => cases invokes

/-! ## Where closures come from -/

/-- A function that is next is where a closure comes from that the step may add. -/
theorem Move.origins_of_eval {moment next : Moment} (move : Move moment next) {code : Occurrence}
    {scope : Ref} (evaluates : moment.focus = .task (.eval code scope)) :
    next.origins = Function.update moment.origins moment.state.heap.size code.place := by
  cases move with
  | perform | refuse =>
      cases evaluates
      rfl
  | rest ended => exact absurd evaluates (ended.2 _)
  | resume | reject | pass | unwind => cases evaluates

/-- A step remembers where the closures of before came from. -/
theorem Move.origins_of_lt {moment next : Moment} (move : Move moment next) {ref : Ref}
    (inside : ref < moment.state.heap.size) : next.origins ref = moment.origins ref := by
  cases move with
  | @perform task | @refuse task =>
      cases task with
      | eval => exact Function.update_of_ne (Nat.ne_of_lt inside) _ _
      | _ => rfl
  | _ => rfl

/-! ## What waits

A step takes one frame off at most and then puts one on at most. So a frame that waits has waited
from the beginning, or ever since the step at which it was put on (`exists_push`). -/

theorem Move.exists_frames {moment next : Moment} (move : Move moment next) :
    ∃ pushed kept, next.frames = pushed ++ kept ∧ kept <:+ moment.frames ∧ pushed.length ≤ 1 := by
  cases move with
  | perform does => exact ⟨_, _, rfl, List.suffix_refl _, does.length_frames_le⟩
  | resume resumes => exact ⟨_, _, rfl, List.suffix_cons _ _, resumes.length_frames_le⟩
  | refuse | rest => exact ⟨[], _, rfl, List.suffix_refl _, Nat.zero_le 1⟩
  | reject | pass | unwind => exact ⟨[], _, rfl, List.suffix_cons _ _, Nat.zero_le 1⟩

/-- A frame that waits after a step has waited before it, on top of the same frames, or is what the
step puts on top. -/
theorem Move.suffix_or_eq {moment next : Moment} (move : Move moment next) {frame : Frame}
    {frames : List Frame} (waits : frame :: frames <:+ next.frames) :
    frame :: frames <:+ moment.frames ∨ next.frames = frame :: frames := by
  obtain ⟨pushed, kept, same, before, atMostOne⟩ := move.exists_frames
  rw [same] at waits ⊢
  match pushed, atMostOne with
  | [], _ => exact .inl (waits.trans before)
  | [_], _ =>
      rcases List.suffix_cons_iff.mp waits with top | below
      · exact .inr top.symm
      · exact .inl (below.trans before)

/-- What a step puts on top it decides on: by a task, or by the frame that waited there. -/
theorem Move.pushed {moment next : Moment} (move : Move moment next) {frame : Frame}
    {frames : List Frame} (top : next.frames = frame :: frames)
    (new : ¬ frame :: frames <:+ moment.frames) :
    (∃ task decided heap, moment.focus = .task task ∧ moment.frames = frames ∧
      task.Does moment.origins moment.state.heap decided heap ∧ decided.frames = [frame]) ∨
    ∃ value waiting decided heap, moment.focus = .answer (.value value) ∧
      moment.frames = waiting :: frames ∧
      waiting.Resumes moment.state.heap value decided heap ∧ decided.frames = [frame] := by
  -- with nothing put on top, the frame has waited before
  have split {pushed kept : List Frame} (atMostOne : pushed.length ≤ 1)
      (same : pushed ++ kept = frame :: frames) (before : kept <:+ moment.frames) :
      pushed = [frame] ∧ kept = frames := by
    match pushed, atMostOne with
    | [], _ => exact absurd (same ▸ before) new
    | [_], _ => exact ⟨congrArg (· :: []) (List.cons.inj same).1, (List.cons.inj same).2⟩
  cases move with
  | perform does =>
      obtain ⟨pushed, rfl⟩ := split does.length_frames_le top (List.suffix_refl _)
      exact .inl ⟨_, _, _, rfl, rfl, does, pushed⟩
  | resume resumes =>
      obtain ⟨pushed, rfl⟩ := split resumes.length_frames_le top (List.suffix_cons _ _)
      exact .inr ⟨_, _, _, _, rfl, rfl, resumes, pushed⟩
  | refuse | rest => exact absurd (top ▸ List.suffix_refl _) new
  | reject | pass | unwind => exact absurd (top ▸ List.suffix_cons _ _) new

theorem exists_push {run : Nat → Moment} (moves : ∀ k, Move (run k) (run (k + 1)))
    {frame : Frame} {frames : List Frame} {m : Nat} (waits : frame :: frames <:+ (run m).frames) :
    frame :: frames <:+ (run 0).frames ∨
      ∃ k < m, (run (k + 1)).frames = frame :: frames ∧ ¬ frame :: frames <:+ (run k).frames ∧
        ∀ i, k < i → i ≤ m → frame :: frames <:+ (run i).frames := by
  induction m with
  | zero => exact .inl waits
  | succ m ih =>
      by_cases before : frame :: frames <:+ (run m).frames
      · refine (ih before).imp_right fun ⟨k, earlier, pushed, new, since⟩ => ?_
        refine ⟨k, Nat.lt_succ_of_lt earlier, pushed, new, fun i after within => ?_⟩
        rcases Nat.le_succ_iff.mp within with within | rfl
        · exact since i after within
        · exact waits
      · refine .inr ⟨m, Nat.lt_succ_self m, ?_, before, fun i after within => ?_⟩
        · exact ((moves m).suffix_or_eq waits).resolve_left before
        · exact Nat.le_antisymm within after ▸ waits

end Moment

namespace Script

variable (script : Script) (settings : Settings) (sink : Sink) (log : Log)

theorem moment_succ (n : Nat) :
    script.moment settings sink log (n + 1) =
      (script.moment settings sink log n).next settings settings.depth :=
  Function.iterate_succ_apply' _ _ _

/-- A run goes on from any of its moments. -/
theorem moment_add (n k : Nat) :
    script.moment settings sink log (n + k) =
      (Moment.next settings settings.depth)^[k] (script.moment settings sink log n) := by
  rw [Nat.add_comm]
  exact Function.iterate_add_apply _ k n _

/-- A run goes on by moves. -/
theorem move_moment (n : Nat) :
    (script.moment settings sink log n).Move (script.moment settings sink log (n + 1)) :=
  moment_succ script settings sink log n ▸ Moment.move_next _

variable {script settings sink log}

/-- What every move keeps holds from some moment of a run on. -/
theorem holds_from {P : Moment → Prop} (kept : ∀ {a b}, Moment.Move a b → P a → P b) {m n : Nat}
    (later : m ≤ n) (holds : P (script.moment settings sink log m)) :
    P (script.moment settings sink log n) := by
  induction later with
  | refl => exact holds
  | step _ ih => exact kept (script.move_moment settings sink log _) ih

end Script

end ScriptTree
