import ScriptTree.Proofs.CallScopes
import ScriptTree.Proofs.Machine.Spans

/-!
# How a call goes

A call evaluates its head, which is its callee or the receiver of a method, and checks what comes of
it. Then it evaluates its arguments one after another, in the scope in which it is evaluated itself,
and invokes the function that it has found before, whatever has become of the names and fields in
between. A function of the program that takes as many arguments evaluates its body in a new child of
the scope in which the function itself was evaluated.

`Call.Runs` has a rule for each thing that can happen next, with the moments at which it begins and
ends. Every call of a run goes by these rules, from the moment at which it is begun to the moment at
which it is over (`Script.call_protocol`).
-/

namespace ScriptTree

/-! ## Calls -/

/-- A call, of a function or of a method. Its head is the callee or the receiver. -/
structure Call where
  line : Line
  head : Expr
  method : Option String
  arguments : List Expr

/-- The call that a node is. -/
def Expr.call? : Expr → Option Call
  | .call line callee arguments => some ⟨line, callee, none, arguments⟩
  | .methodCall line receiver name arguments => some ⟨line, receiver, some name, arguments⟩
  | _ => none

namespace Call

variable {call : Call} {heap heap' : Heap} {code : Occurrence} {scope : Ref} {decided : Next}

/-- How the call waits for its head. -/
def waiting (call : Call) (code : Occurrence) (scope : Ref) : Frame :=
  match call.method with
  | none => .callee call.line (code.children 1 call.arguments) scope
  | some name => .receiver call.line name (code.children 1 call.arguments) scope

/-- The function and the receiver that the value of the head gives. -/
inductive Finds (heap : Heap) (call : Call) : Value → Ref → Value → Prop
  | callee {ref : Ref} (plain : call.method = none) (function : heap.isFunction ref = true) :
    Finds heap call (.obj ref) ref .undefined
  | method {name : String} {holder ref : Ref} (named : call.method = some name)
      (found : heap.lookup holder name = .obj ref) (function : heap.isFunction ref = true) :
    Finds heap call (.obj holder) ref (.obj holder)

theorem waiting_ne_call (call : Call) (code : Occurrence) (scope : Ref) (line : Line) :
    call.waiting code scope ≠ .call line := by
  unfold waiting
  split <;> exact nofun

/-- A call begins with its head. -/
theorem of_begins {place : Place} {node : Expr} (is : node.call? = some call)
    (begins : Occurrence.Begins heap scope place node decided heap') :
    decided = .eval (call.waiting ⟨place, node⟩ scope)
      (Occurrence.child ⟨place, node⟩ 0 call.head) scope ∧ heap' = heap := by
  cases begins with
  | call | methodCall =>
      cases is
      exact ⟨rfl, rfl⟩
  | _ => cases is

/-- What is not found to be a function is refused. -/
theorem finds_of_resumes {value : Value}
    (resumes : (call.waiting code scope).Resumes heap value decided heap') :
    ∃ ref receiver, call.Finds heap value ref receiver ∧ heap' = heap ∧ decided =
      .go (.arguments call.line ref receiver [] (code.children 1 call.arguments) scope) := by
  unfold waiting at resumes
  split at resumes
  · rename_i plain
    cases resumes with
    | callee function => exact ⟨_, _, .callee plain function, rfl, rfl⟩
  · rename_i named
    cases resumes with
    | receiver found function => exact ⟨_, _, .method named found function, rfl, rfl⟩

/-- What is found to be a function has a body. -/
theorem Finds.exists_body {value receiver : Value} {function : Ref}
    (finds : call.Finds heap value function receiver) :
    ∃ body, (heap.get? function).bind Object.body = some body := by
  have isFunction : heap.isFunction function = true := by
    cases finds <;> assumption
  unfold Heap.isFunction at isFunction
  cases found : heap.get? function with
  | none =>
      rw [found] at isFunction
      cases isFunction
  | some object =>
      rw [found] at isFunction
      exact Option.isSome_iff_exists.mp isFunction

end Call

/-! ## The rules -/

/-- The step at moment `n` of a run changes no object and begins with a node, for which a frame
waits on top of others; the evaluation of the node is over at moment `m`. -/
structure Evaluates (run : Nat → Moment) (code : Occurrence) (scope : Ref) (frame : Frame)
    (frames : List Frame) (n m : Nat) : Prop where
  same : (run (n + 1)).state.heap = (run n).state.heap
  lasts : Lasts run (.eval code scope) (frame :: frames) (n + 1) m

/-- The step at moment `n` of a run changes no object and invokes a function, and the call waits for
it. -/
structure Invokes (run : Nat → Moment) (call : Call) (function : Ref) (receiver : Value)
    (values : List Value) (frames : List Frame) (n : Nat) : Prop where
  same : (run (n + 1)).state.heap = (run n).state.heap
  focus : (run (n + 1)).focus = .task (.invoke function receiver values)
  frames : (run (n + 1)).frames = .call call.line :: frames

/-- What a call makes of the body of its function, which is evaluated from moment `n` to moment `m`:
undefined, if the body ends without a `return`, the value of the `return` that was reached, or a
failure with a line to fall back on. -/
inductive Yields (run : Nat → Moment) (line : Line) (frames : List Frame) (n m : Nat) : Prop
  | ends {value : Value} (given : (run m).focus = .answer (.value value))
      (yields : (run (m + 1)).focus = .answer (.value .undefined))
  | returns {result : Value} (reached : Returns run line frames n m result)
      (yields : (run (m + 1)).focus = .answer (.value result))
  | fails {fault : Fault} (raised : (run m).focus = .raise fault)
      (yields : (run (m + 1)).focus = .raise ((Frame.call line).failed fault))

/-- What a call has to do next. -/
inductive Call.Stage
  | head
  /-- A function is found, with the body that it has at this moment, and some of the arguments have
  their values. -/
  | arguments (function : Ref) (body : Body) (receiver : Value) (done : List Value)
      (rest : List Occurrence)

/-- How a call goes on from moment `n` of a run until it is over, at moment `m`. -/
inductive Call.Runs (settings : Settings) (run : Nat → Moment) (call : Call) (code : Occurrence)
    (scope : Ref) (frames : List Frame) : Stage → Nat → Nat → Prop
  /-- There is no room for the evaluation. -/
  | tooDeep {n : Nat} (full : settings.depth ≤ frames.length)
      (raised : (run (n + 1)).focus = .raise .tooDeep) :
    Runs settings run call code scope frames .head n (n + 1)
  /-- The head fails or leaves the function. -/
  | headLeaves {n h : Nat}
      (head : Evaluates run (code.child 0 call.head) scope (call.waiting code scope) frames n h)
      (leaves : HandedOn run frames h) :
    Runs settings run call code scope frames .head n (h + 1)
  /-- The check fails, and nothing is evaluated any more. -/
  | refused {n h : Nat} {value : Value} {fault : Fault}
      (head : Evaluates run (code.child 0 call.head) scope (call.waiting code scope) frames n h)
      (given : (run h).focus = .answer (.value value))
      (rejects : (call.waiting code scope).Rejects (run h).state value fault)
      (raised : (run (h + 1)).focus = .raise fault)
      (same : (run (h + 1)).state.heap = (run h).state.heap)
      (still : ∀ i > h, ∀ task, (run i).focus ≠ .task task) :
    Runs settings run call code scope frames .head n (h + 1)
  /-- The function is found, and the arguments come next. -/
  | found {n h m : Nat} {value receiver : Value} {function : Ref} {body : Body}
      (head : Evaluates run (code.child 0 call.head) scope (call.waiting code scope) frames n h)
      (given : (run h).focus = .answer (.value value))
      (finds : call.Finds (run h).state.heap value function receiver)
      (has : ((run h).state.heap.get? function).bind Object.body = some body)
      (same : (run (h + 1)).state.heap = (run h).state.heap)
      (onward : Runs settings run call code scope frames
        (.arguments function body receiver [] (code.children 1 call.arguments)) (h + 1) m) :
    Runs settings run call code scope frames .head n m
  /-- An argument fails or leaves the function. -/
  | argumentLeaves {n a : Nat} {function : Ref} {body : Body} {receiver : Value}
      {done : List Value} {argument : Occurrence} {rest : List Occurrence}
      (evaluates : Evaluates run argument scope
        (.argument call.line function receiver done rest scope) frames n a)
      (leaves : HandedOn run frames a) :
    Runs settings run call code scope frames
      (.arguments function body receiver done (argument :: rest)) n (a + 1)
  /-- An argument has its value, and the others come next. -/
  | argument {n a m : Nat} {function : Ref} {body : Body} {receiver value : Value}
      {done : List Value} {argument : Occurrence} {rest : List Occurrence}
      (evaluates : Evaluates run argument scope
        (.argument call.line function receiver done rest scope) frames n a)
      (given : (run a).focus = .answer (.value value))
      (same : (run (a + 1)).state.heap = (run a).state.heap)
      (onward : Runs settings run call code scope frames
        (.arguments function body receiver (done ++ [value]) rest) (a + 1) m) :
    Runs settings run call code scope frames
      (.arguments function body receiver done (argument :: rest)) n m
  /-- The call is to be logged, but a strict log does not take an argument that cannot be shown. -/
  | unlogged {n : Nat} {function : Ref} {body : Body} {receiver value : Value}
      {values : List Value} (traced : settings.traceCalls = true)
      (strict : (run n).state.log.strict = true) (given : value ∈ values)
      (long : value.display? (run n).state.heap = none)
      (raised : (run (n + 1)).focus = .raise .digitLimit)
      (same : (run (n + 1)).state.heap = (run n).state.heap) :
    Runs settings run call code scope frames (.arguments function body receiver values []) n (n + 1)
  /-- A function of the language gives its result. -/
  | gives {n : Nat} {function : Ref} {builtin : Builtin} {receiver result : Value}
      {values : List Value} (invokes : Invokes run call function receiver values frames n)
      (ran : builtin.run values (run (n + 1)).state = .ok result (run (n + 2)).state)
      (yields : (run (n + 3)).focus = .answer (.value result)) :
    Runs settings run call code scope frames
      (.arguments function (.builtin builtin) receiver values []) n (n + 3)
  /-- A function of the language fails. -/
  | fails {n : Nat} {function : Ref} {builtin : Builtin} {receiver : Value} {fault : Fault}
      {values : List Value} (invokes : Invokes run call function receiver values frames n)
      (ran : builtin.run values (run (n + 1)).state = .error fault (run (n + 2)).state)
      (yields : (run (n + 3)).focus = .raise ((Frame.call call.line).failed fault)) :
    Runs settings run call code scope frames
      (.arguments function (.builtin builtin) receiver values []) n (n + 3)
  /-- A function of the program takes another number of arguments. No object changes, and nothing is
  evaluated any more. -/
  | arity {n : Nat} {function captured : Ref} {lambda : Lambda} {receiver : Value}
      {values : List Value} (invokes : Invokes run call function receiver values frames n)
      (differs : values.length ≠ lambda.parameters.length)
      (raised : (run (n + 2)).focus = .raise (.failure
        ⟨.arity lambda.name lambda.parameters.length values.length, lambda.line⟩))
      (yields : (run (n + 3)).focus = .raise (.failure
        ⟨.arity lambda.name lambda.parameters.length values.length, lambda.line <|> call.line⟩))
      (same : (run (n + 3)).state.heap = (run n).state.heap)
      (still : ∀ i > n + 1, ∀ task, (run i).focus ≠ .task task) :
    Runs settings run call code scope frames
      (.arguments function (.closure lambda captured) receiver values []) n (n + 3)
  /-- A function of the program is entered: a scope is added as a child of the one in which the
  function was evaluated, and its body is evaluated there. -/
  | entered {n b : Nat} {function captured : Ref} {lambda : Lambda} {receiver : Value}
      {values : List Value} {place : Place} {fields : Fields Value}
      (invokes : Invokes run call function receiver values frames n)
      (fits : values.length = lambda.parameters.length)
      (made : ∃ j < n, Makes run j function place lambda captured)
      (adds : (run (n + 2)).state.heap =
        (run n).state.heap.add (.scope (some captured) fields))
      (means : ∀ name, lambda.Means receiver values ((run (n + 2)).state.heap.lookup captured) name
        ((run (n + 2)).state.heap.lookup (run n).state.heap.size name))
      (body : Lasts run (.eval ⟨0 :: place, .block lambda.body⟩ (run n).state.heap.size)
        (.call call.line :: frames) (n + 2) b)
      (yields : Yields run call.line frames (n + 2) b) :
    Runs settings run call code scope frames
      (.arguments function (.closure lambda captured) receiver values []) n (b + 1)

/-! ## What is invoked -/

section Invoked

variable {heap heap' : Heap} {function captured : Ref} {receiver : Value} {values : List Value}
  {lambda : Lambda}

theorem Task.Does.begins {origins : Ref → Place} {decided : Next} {code : Occurrence} {scope : Ref}
    (does : Does origins heap (.eval code scope) decided heap') :
    Occurrence.Begins heap scope code.place code.node decided heap' := by
  cases does
  assumption

theorem Frame.Resumes.of_call {line : Line} {value : Value} {decided : Next}
    (resumes : (Frame.call line).Resumes heap value decided heap') :
    decided = .value .undefined ∧ heap' = heap := by
  cases resumes
  exact ⟨rfl, rfl⟩

theorem Task.Does.of_argument {origins : Ref → Place} {decided : Next} {line : Line}
    {argument : Occurrence} {rest : List Occurrence} {scope : Ref}
    (does : Does origins heap (.arguments line function receiver values (argument :: rest) scope)
      decided heap') :
    decided = .eval (.argument line function receiver values rest scope) argument scope ∧
      heap' = heap := by
  cases does
  exact ⟨rfl, rfl⟩

theorem Frame.Resumes.of_argument {line : Line} {rest : List Occurrence} {scope : Ref}
    {value : Value} {decided : Next}
    (resumes : (Frame.argument line function receiver values rest scope).Resumes heap value decided
      heap') :
    decided = .go (.arguments line function receiver (values ++ [value]) rest scope) ∧
      heap' = heap := by
  cases resumes
  exact ⟨rfl, rfl⟩

theorem Task.Does.of_closure {origins : Ref → Place} {decided : Next}
    (does : Does origins heap (.invoke function receiver values) decided heap')
    (has : (heap.get? function).bind Object.body = some (.closure lambda captured)) :
    values.length = lambda.parameters.length ∧
      decided = .go (.eval ⟨0 :: origins function, .block lambda.body⟩ heap.size) ∧
      heap' = heap.add (.scope (some captured) (Eval.callBindings lambda receiver values)) := by
  cases does with
  | closure body fits =>
      cases has.symm.trans body
      exact ⟨fits, rfl, rfl⟩
  | builtin body | external body => cases has.symm.trans body

theorem Task.Refuses.of_closure {settings : Settings} {state : State} {fault : Fault}
    (refuses : Refuses settings state (.invoke function receiver values) fault)
    (has : (state.heap.get? function).bind Object.body = some (.closure lambda captured)) :
    values.length ≠ lambda.parameters.length ∧ fault = .failure
      ⟨.arity lambda.name lambda.parameters.length values.length, lambda.line⟩ := by
  cases refuses with
  | closure body differs =>
      cases has.symm.trans body
      exact ⟨differs, rfl⟩
  | notFunction body | builtin body | external body => cases has.symm.trans body

/-- A function of the language runs in one step. -/
theorem Moment.next_of_builtin (settings : Settings) (limit : Nat) {moment : Moment}
    {builtin : Builtin} (invokes : moment.focus = .task (.invoke function receiver values))
    (has : (moment.state.heap.get? function).bind Object.body = some (.builtin builtin)) :
    (∃ result, (moment.next settings limit).focus = .answer (.returning result) ∧
      builtin.run values moment.state = .ok result (moment.next settings limit).state) ∨
    ∃ fault, (moment.next settings limit).focus = .raise fault ∧
      builtin.run values moment.state = .error fault (moment.next settings limit).state := by
  rcases moment with ⟨focus, frames, state, origins⟩
  cases invokes
  have begins : Task.begin settings origins (frames.length < limit)
      (.invoke function receiver values) state =
        (builtin.run values >>= fun result => pure (.returning result)) state := by
    change Task.invoked (origins function) function receiver values
      ((state.heap.get? function).bind Object.body) state = _
    rw [has]
    rfl
  unfold next after noting
  dsimp only
  rw [begins, Action.bind_apply]
  cases builtin.run values state with
  | ok result after => exact .inl ⟨result, rfl, rfl⟩
  | error fault after => exact .inr ⟨fault, rfl, rfl⟩

end Invoked

/-! ## Every call goes by the rules -/

namespace Script

variable {script : Script} {settings : Settings} {sink : Sink} {log : Log} {n m : Nat}
  {call : Call} {code : Occurrence} {scope function : Ref} {receiver : Value} {frames : List Frame}

/-- Whatever its function comes to, the call is over after it. -/
theorem over_of_call {line : Line}
    (isOver : (script.moment settings sink log m).Over (.call line :: frames)) :
    (script.moment settings sink log (m + 1)).Over frames ∧
      (script.moment settings sink log (m + 1)).state.heap =
        (script.moment settings sink log m).state.heap ∧
      (∀ completion, (script.moment settings sink log m).focus = .answer completion →
        (script.moment settings sink log (m + 1)).focus = .answer (.value completion.called)) ∧
      ∀ fault, (script.moment settings sink log m).focus = .raise fault →
        (script.moment settings sink log (m + 1)).focus =
          .raise ((Frame.call line).failed fault) := by
  have move := script.move_moment settings sink log m
  suffices taken : (script.moment settings sink log (m + 1)).frames = frames ∧
      (script.moment settings sink log (m + 1)).state.heap =
        (script.moment settings sink log m).state.heap ∧
      ((∃ completion, (script.moment settings sink log m).focus = .answer completion ∧
        (script.moment settings sink log (m + 1)).focus = .answer (.value completion.called)) ∨
      ∃ fault, (script.moment settings sink log m).focus = .raise fault ∧
        (script.moment settings sink log (m + 1)).focus =
          .raise ((Frame.call line).failed fault)) by
    rcases taken with ⟨under, same, ⟨completion, given, yields⟩ | ⟨fault, raised, yields⟩⟩
    · refine ⟨⟨under, yields ▸ nofun⟩, same, fun other given' => ?_, fun fault raised => ?_⟩
      · cases given.symm.trans given'
        exact yields
      · cases given.symm.trans raised
    · refine ⟨⟨under, yields ▸ nofun⟩, same, fun completion given => ?_, fun other raised' => ?_⟩
      · cases raised.symm.trans given
      · cases raised.symm.trans raised'
        exact yields
  rcases isOver.cases with ⟨value, given⟩ | ⟨result, leaves⟩ | ⟨fault, raised⟩
  · rcases move.of_value given isOver.1 with ⟨decided, resumes, focus, under⟩ | ⟨fault, raised, -⟩
    · rcases resumes.of_call with ⟨rfl, same⟩
      exact ⟨under, same, .inl ⟨_, given, focus⟩⟩
    · rcases rejects_of_value given isOver.1 raised with _ | checks
      cases checks
  · rcases move.of_returning leaves isOver.1 with ⟨focus, under, same⟩
    exact ⟨under, congrArg State.heap same, .inl ⟨_, leaves, focus⟩⟩
  · rcases move.of_raise raised isOver.1 with ⟨focus, under, same⟩
    exact ⟨under, congrArg State.heap same, .inr ⟨fault, raised, focus⟩⟩

/-- A call makes something of whatever the body of its function comes to. -/
theorem yields_of_lasts {line : Line}
    (lasts : Lasts (script.moment settings sink log) (.eval code scope) (.call line :: frames)
      n m) :
    Yields (script.moment settings sink log) line frames n m := by
  rcases over_of_call lasts.spans.isOver with ⟨-, -, answered, raises⟩
  rcases lasts.spans.isOver.cases with ⟨value, given⟩ | ⟨result, leaves⟩ | ⟨fault, raised⟩
  · exact .ends given (answered _ given)
  · exact .returns (lasts.returns (script.move_moment settings sink log) leaves)
      (answered _ leaves)
  · exact .fails raised (raises fault raised)

/-- A node that is begun with no change is evaluated to its end. -/
theorem exists_evaluates {frame : Frame}
    (focus : (script.moment settings sink log (n + 1)).focus = .task (.eval code scope))
    (top : (script.moment settings sink log (n + 1)).frames = frame :: frames)
    (same : (script.moment settings sink log (n + 1)).state.heap =
      (script.moment settings sink log n).state.heap) :
    ∃ m, Evaluates (script.moment settings sink log) code scope frame frames n m := by
  rcases exists_lasts focus with ⟨m, lasts⟩
  rw [top] at lasts
  exact ⟨m, same, lasts⟩

/-- A call that has the values of its arguments invokes its function, unless it cannot be logged. -/
theorem invokes_or_unlogged {values : List Value}
    (does : (script.moment settings sink log n).focus =
      .task (.arguments call.line function receiver values [] scope))
    (under : (script.moment settings sink log n).frames = frames) :
    Invokes (script.moment settings sink log) call function receiver values frames n ∨
      (script.moment settings sink log (n + 1)).Over frames ∧
        ∀ body, call.Runs settings (script.moment settings sink log) code scope frames
          (.arguments function body receiver values []) n (n + 1) := by
  rcases (script.move_moment settings sink log n).of_task does with
    ⟨decided, begins, focus, top⟩ | ⟨fault, raised, still, same⟩
  · left
    rcases begins.of_arguments with ⟨rfl, same⟩
    rw [under] at top
    exact ⟨same, focus, top⟩
  · right
    have refuses := refuses_of_task does raised
    refine ⟨⟨still.trans under, raised ▸ nofun⟩, fun body => ?_⟩
    cases refuses with
    | unlogged traced strict given long => exact .unlogged traced strict given long raised same

section Invoked

variable {values : List Value}
  (invokes : Invokes (script.moment settings sink log) call function receiver values frames n)

include invokes

/-- The call waits on through the step that begins with its function. -/
theorem frames_of_invokes :
    (script.moment settings sink log (n + 2)).frames = .call call.line :: frames := by
  rcases (script.move_moment settings sink log (n + 1)).of_task invokes.focus with
    ⟨decided, does, -, top⟩ | ⟨fault, -, still, -⟩
  · rw [top, does.of_invoke.1, invokes.frames]
    rfl
  · exact still.trans invokes.frames

/-- What is over after one step. -/
theorem spans_of_invokes
    (isOver : ∀ task, (script.moment settings sink log (n + 2)).focus ≠ .task task) :
    Spans (script.moment settings sink log) (.call call.line :: frames) (n + 1) (n + 2) :=
  (Spans.of_over ⟨frames_of_invokes invokes, isOver⟩).step
    (Moment.busy_of_task invokes.focus invokes.frames)

theorem runs_of_builtin {builtin : Builtin}
    (has : ((script.moment settings sink log n).state.heap.get? function).bind Object.body =
      some (.builtin builtin)) :
    Spans (script.moment settings sink log) (.call call.line :: frames) (n + 1) (n + 2) ∧
      call.Runs settings (script.moment settings sink log) code scope frames
        (.arguments function (.builtin builtin) receiver values []) n (n + 3) := by
  rw [← invokes.same] at has
  rcases Moment.next_of_builtin settings settings.depth invokes.focus has with
    ⟨result, leaves, ran⟩ | ⟨fault, raised, ran⟩
  · rw [← moment_succ] at leaves ran
    have inner := spans_of_invokes invokes (leaves ▸ nofun)
    rcases over_of_call inner.isOver with ⟨-, -, answered, -⟩
    exact ⟨inner, .gives invokes ran (answered _ leaves)⟩
  · rw [← moment_succ] at raised ran
    have inner := spans_of_invokes invokes (raised ▸ nofun)
    rcases over_of_call inner.isOver with ⟨-, -, -, raises⟩
    exact ⟨inner, .fails invokes ran (raises fault raised)⟩

theorem runs_of_closure {lambda : Lambda} {captured : Ref}
    (has : ((script.moment settings sink log n).state.heap.get? function).bind Object.body =
      some (.closure lambda captured)) :
    ∃ b, Spans (script.moment settings sink log) (.call call.line :: frames) (n + 1) b ∧
      call.Runs settings (script.moment settings sink log) code scope frames
        (.arguments function (.closure lambda captured) receiver values []) n (b + 1) := by
  have now := has
  rw [← invokes.same] at now
  rcases (script.move_moment settings sink log (n + 1)).of_task invokes.focus with
    ⟨decided, does, focus, -⟩ | ⟨fault, raised, -, same⟩
  · rcases does.of_closure now with ⟨fits, rfl, adds⟩
    rw [invokes.same] at focus adds
    rcases Option.bind_eq_some_iff.mp has with ⟨object, found, body⟩
    have inside := Heap.lt_size_of_get? found
    rw [(script.move_moment settings sink log n).origins_of_lt inside] at focus
    rcases exists_lasts focus with ⟨b, lasts⟩
    rw [frames_of_invokes invokes] at lasts
    refine ⟨b, lasts.spans.step (Moment.busy_of_task invokes.focus invokes.frames), ?_⟩
    apply Call.Runs.entered invokes fits (exists_makes has) adds _ lasts (yields_of_lasts lasts)
    -- the scope that the function captured is there, so its names are those around the new scope
    intro name
    rcases (script.placed_moment settings sink log n).closures found body with ⟨_, there⟩
    rw [adds, there.scope.lookup_entered]
    exact Eval.means_callBindings fits receiver _ name
  · rcases (refuses_of_task invokes.focus raised).of_closure now with ⟨differs, rfl⟩
    have inner := spans_of_invokes invokes (raised ▸ nofun)
    rcases over_of_call inner.isOver with ⟨-, same', -, raises⟩
    refine ⟨n + 2, inner, .arity invokes differs raised (raises _ raised) ?_ fun i later => ?_⟩
    · exact same'.trans (same.trans invokes.same)
    · exact focus_ne_task_of_raise raised later

end Invoked

/-- A call that has the values of its arguments goes by the rules. -/
theorem runs_of_values {values : List Value} {body : Body}
    (does : (script.moment settings sink log n).focus =
      .task (.arguments call.line function receiver values [] scope))
    (under : (script.moment settings sink log n).frames = frames)
    (has : ((script.moment settings sink log n).state.heap.get? function).bind Object.body =
      some body) :
    ∃ m, Spans (script.moment settings sink log) frames n m ∧
      call.Runs settings (script.moment settings sink log) code scope frames
        (.arguments function body receiver values []) n m := by
  have busy := Moment.busy_of_task does under
  rcases invokes_or_unlogged does under with invokes | ⟨isOver, unlogged⟩
  · suffices invoked : ∃ b,
        Spans (script.moment settings sink log) (.call call.line :: frames) (n + 1) b ∧
        call.Runs settings (script.moment settings sink log) code scope frames
          (.arguments function body receiver values []) n (b + 1) by
      rcases invoked with ⟨b, inner, runs⟩
      exact ⟨b + 1, (inner.after (.of_over (over_of_call inner.isOver).1)).step busy, runs⟩
    cases body with
    | builtin builtin => exact ⟨n + 2, runs_of_builtin invokes has⟩
    | closure lambda captured => exact runs_of_closure invokes has
    | external outside =>
        rcases Option.bind_eq_some_iff.mp has with ⟨object, found, same⟩
        exact absurd same ((script.plain_moment settings sink log n).heap.inside found outside)
  · exact ⟨n + 1, (Spans.of_over isOver).step busy, unlogged body⟩

/-- A call that has arguments to evaluate goes by the rules: the induction is on these. -/
theorem runs_of_arguments {rest : List Occurrence} {done : List Value} {body : Body}
    (does : (script.moment settings sink log n).focus =
      .task (.arguments call.line function receiver done rest scope))
    (under : (script.moment settings sink log n).frames = frames)
    (has : ((script.moment settings sink log n).state.heap.get? function).bind Object.body =
      some body) :
    ∃ m, Spans (script.moment settings sink log) frames n m ∧
      call.Runs settings (script.moment settings sink log) code scope frames
        (.arguments function body receiver done rest) n m := by
  have moves := script.move_moment settings sink log
  induction rest generalizing n done with
  | nil => exact runs_of_values does under has
  | cons argument rest ih =>
      have busy := Moment.busy_of_task does under
      rcases (moves n).of_task does with ⟨decided, begins, focus, top⟩ | ⟨fault, raised, -⟩
      · rcases begins.of_argument with ⟨rfl, same⟩
        rw [under] at top
        rcases exists_evaluates focus top same with ⟨a, evaluates⟩
        rcases HandedOn.of_over moves evaluates.lasts.spans.isOver (fun _ => nofun) with
          ⟨value, given⟩ | leaves
        · rcases (moves a).of_value given evaluates.lasts.spans.isOver.1 with
            ⟨decided, resumes, focus, under⟩ | ⟨fault, raised, -⟩
          · rcases resumes.of_argument with ⟨rfl, still⟩
            have later : n ≤ a + 1 := by
              have := evaluates.lasts.spans.ordered
              omega
            have found := (script.heap_moment_grows settings sink log later).body has
            rcases ih focus under found with ⟨m, spans, runs⟩
            exact ⟨m, (evaluates.lasts.spans.after spans).step busy,
              .argument evaluates given still runs⟩
          · rcases rejects_of_value given evaluates.lasts.spans.isOver.1 raised with _ | checks
            cases checks
        · have isOver := leaves.isOver evaluates.lasts.spans.isOver
          exact ⟨a + 1, (evaluates.lasts.spans.after (.of_over isOver)).step busy,
            .argumentLeaves evaluates leaves⟩
      · cases refuses_of_task does raised

/-- A call that is begun goes by the rules. -/
theorem runs_of_call (is : code.node.call? = some call)
    (evaluates : (script.moment settings sink log n).focus = .task (.eval code scope))
    (under : (script.moment settings sink log n).frames = frames) :
    ∃ m, Spans (script.moment settings sink log) frames n m ∧
      call.Runs settings (script.moment settings sink log) code scope frames .head n m := by
  have moves := script.move_moment settings sink log
  have busy := Moment.busy_of_task evaluates under
  rcases (moves n).of_task evaluates with
    ⟨decided, does, focus, top⟩ | ⟨fault, raised, still, same⟩
  · rcases call.of_begins is does.begins with ⟨rfl, same⟩
    rw [under] at top
    rcases exists_evaluates focus top same with ⟨h, head⟩
    have isOver := head.lasts.spans.isOver
    rcases HandedOn.of_over moves isOver (call.waiting_ne_call code scope) with
      ⟨value, given⟩ | leaves
    · rcases (moves h).of_value given isOver.1 with
        ⟨decided, resumes, focus, below⟩ | ⟨fault, raised, below, same⟩
      · rcases Call.finds_of_resumes resumes with ⟨function, receiver, finds, same, rfl⟩
        rcases finds.exists_body with ⟨body, has⟩
        rw [← same] at has
        rcases runs_of_arguments focus below has with ⟨m, spans, runs⟩
        rw [same] at has
        exact ⟨m, (head.lasts.spans.after spans).step busy, .found head given finds has same runs⟩
      · have ended : (script.moment settings sink log (h + 1)).Over frames :=
          ⟨below, raised ▸ nofun⟩
        refine ⟨h + 1, (head.lasts.spans.after (.of_over ended)).step busy, ?_⟩
        apply Call.Runs.refused head given (rejects_of_value given isOver.1 raised) raised same
        exact fun i later => focus_ne_task_of_raise raised later
    · have ended := leaves.isOver isOver
      exact ⟨h + 1, (head.lasts.spans.after (.of_over ended)).step busy, .headLeaves head leaves⟩
  · have ended : (script.moment settings sink log (n + 1)).Over frames :=
      ⟨still.trans under, raised ▸ nofun⟩
    refine ⟨n + 1, (Spans.of_over ended).step busy, ?_⟩
    have raises := raises_of_raise raised (evaluates ▸ nofun)
    cases refuses_of_task evaluates raised with
    | tooDeep =>
        rcases Moment.full_of_raises raises (moment_succ script settings sink log n ▸ raised) with
          ⟨_, _, _, full⟩
        exact .tooDeep (under ▸ full) raised
    | unsupported => cases is

variable (script settings sink log)

/-- At every moment of a run at which the evaluation of a call begins, in whatever scope: it comes
to an end, and until then it goes by the rules. The head is evaluated and checked, and if the check
fails nothing is evaluated any more. Then the arguments are evaluated, each once and from left to
right, in the scope of the call, and the function that was found before is invoked, with the body
that it had then. A function of the program that takes another number of arguments fails, with all
objects as the arguments left them and without a step of its body. Else its body is evaluated in a
new child of the scope in which the function was evaluated; each name stands there for the last
argument given for it, else for the receiver if it is `this`, else for what it stands for in that
scope. The call gives the value of the `return` that is reached, or undefined. -/
theorem call_protocol {n : Nat} {code : Occurrence} {scope : Ref} {call : Call}
    (evaluates : (script.moment settings sink log n).focus = .task (.eval code scope))
    (is : code.node.call? = some call) :
    ∃ m, Lasts (script.moment settings sink log) (.eval code scope)
        (script.moment settings sink log n).frames n m ∧
      call.Runs settings (script.moment settings sink log) code scope
        (script.moment settings sink log n).frames .head n m := by
  rcases runs_of_call is evaluates rfl with ⟨m, spans, runs⟩
  exact ⟨m, ⟨evaluates, rfl, spans⟩, runs⟩

/-- A function with a parameter that is repeated and one called `this` is called by its name, which
an argument binds to a number before the function is invoked. -/
def rebound : Script :=
  ⟨.mk none [
    .function (some 1) (some "f") ["x", "this", "x"] (.mk none [.returns none (.var none "x")]),
    .call (some 2) (.var none "f")
      [.literal none (.int 1), .assignment none "f" (.literal none (.int 2)) false,
        .literal none (.int 3)]]⟩

theorem call_protocol_rebound : ∃ code call frames,
    (rebound.moment .standard .empty {} 5).focus = .task (.eval code Heap.root) ∧
    code.node.call? = some call ∧ call.arguments.length = 3 ∧
    ∃ m, Lasts (rebound.moment .standard .empty {}) (.eval code Heap.root) frames 5 m ∧
      call.Runs .standard (rebound.moment .standard .empty {}) code Heap.root frames .head 5 m := by
  have begins : (rebound.moment .standard .empty {} 5).focus =
      .task (.eval ⟨[1], .call (some 2) (.var none "f") [.literal none (.int 1),
        .assignment none "f" (.literal none (.int 2)) false, .literal none (.int 3)]⟩
          Heap.root) := rfl
  exact ⟨_, _, _, begins, rfl, rfl, call_protocol rebound .standard .empty {} begins rfl⟩

end Script

end ScriptTree
