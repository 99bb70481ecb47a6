import ScriptTree.Proofs.Machine.Moves

/-!
# Whose evaluation a frame is

A frame keeps what it needs of its node, but not the node. Here every frame of a run is traced back
to the evaluation that put it there: a node whose evaluation has begun under the frames below it and
has not come to its end since (`Script.OpenAt`), and that waits in the way the frame says
(`Frame.Of`). So the frames of a moment are the evaluations that are open at it, innermost first,
and its `call` frames are the calls whose invocations are active (`Script.exists_activeCalls`).
-/

namespace ScriptTree

/-! ## Frames and tasks of a node -/

namespace Expr

/-- The line of a call, for a node that is one. -/
def callLine? : Expr → Option Line
  | .call line .. | .methodCall line .. => some line
  | _ => none

theorem line_of_callLine? {node : Expr} {line : Line} (call : node.callLine? = some line) :
    node.line = line := by
  cases node <;> cases call <;> rfl

end Expr

/-- The frame waits for a part of the node. -/
inductive Frame.Of : Expr → Frame → Prop
  | element {body : Block Expr} {rest : List Occurrence} {scope : Ref} :
    Of (.block body) (.element rest scope)
  /-- The elements of the block that a branch takes are evaluated in its place. -/
  | taken {line : Line} {condition : Expr} {onTrue onFalse : Block Expr} {rest : List Occurrence}
      {scope : Ref} : Of (.branch line condition onTrue onFalse) (.element rest scope)
  | assignment {line : Line} {name : String} {value : Expr} {declares : Bool} {scope : Ref} :
    Of (.assignment line name value declares) (.assignment line name declares scope)
  | returns {line : Line} {value : Expr} : Of (.returns line value) .returns
  | condition {line : Line} {condition : Expr} {onTrue onFalse : Block Expr}
      {whenTrue whenFalse : List Occurrence} {scope : Ref} :
    Of (.branch line condition onTrue onFalse) (.condition line whenTrue whenFalse scope)
  | initializer {line : Line} {fields : List (String × Expr)} {name : String}
      {done : List (String × Value)} {rest : List (String × Occurrence)} {scope : Ref} :
    Of (.record line fields) (.initializer name done rest scope)
  | field {line : Line} {receiver : Expr} {name : String} :
    Of (.field line receiver name) (.field line name)
  | target {line : Line} {receiver value : Expr} {name : String} {code : Occurrence} {scope : Ref} :
    Of (.fieldAssignment line receiver name value) (.target line name code scope)
  | write {line : Line} {receiver value : Expr} {name : String} {ref : Ref} :
    Of (.fieldAssignment line receiver name value) (.write ref name)
  | callee {line : Line} {callee : Expr} {arguments : List Expr} {rest : List Occurrence}
      {scope : Ref} : Of (.call line callee arguments) (.callee line rest scope)
  | receiver {line : Line} {receiver : Expr} {name : String} {arguments : List Expr}
      {rest : List Occurrence} {scope : Ref} :
    Of (.methodCall line receiver name arguments) (.receiver line name rest scope)
  | argument {node : Expr} {line : Line} {callee scope : Ref} {this : Value} {done : List Value}
      {rest : List Occurrence} (call : node.callLine? = some line) :
    Of node (.argument line callee this done rest scope)
  | call {node : Expr} {line : Line} (call : node.callLine? = some line) : Of node (.call line)

/-- The task is part of the evaluation of the node. An invocation is of no node. -/
inductive Task.Of : Expr → Task → Prop
  | eval {place : Place} {node : Expr} {scope : Ref} : Of node (.eval ⟨place, node⟩ scope)
  | elements {body : Block Expr} {rest : List Occurrence} {scope : Ref} :
    Of (.block body) (.elements rest scope)
  | taken {line : Line} {condition : Expr} {onTrue onFalse : Block Expr} {rest : List Occurrence}
      {scope : Ref} : Of (.branch line condition onTrue onFalse) (.elements rest scope)
  | fields {line : Line} {fields : List (String × Expr)} {done : List (String × Value)}
      {rest : List (String × Occurrence)} {scope : Ref} :
    Of (.record line fields) (.fields done rest scope)
  | arguments {node : Expr} {line : Line} {callee scope : Ref} {this : Value} {done : List Value}
      {rest : List Occurrence} (call : node.callLine? = some line) :
    Of node (.arguments line callee this done rest scope)

/-- What is decided on in the evaluation of a node: frames of the node, and a task that begins
something of its own or goes on with the node. -/
structure Next.Of (node : Expr) (next : Next) : Prop where
  frames : ∀ frame ∈ next.frames, frame.Of node
  task : ∀ {task}, next.focus = .task task →
    (∃ code scope, task = .eval code scope) ∨
      (∃ callee receiver values, task = .invoke callee receiver values) ∨
        next.frames = [] ∧ task.Of node

section Parts

variable {node : Expr} {heap heap' : Heap} {next : Next}

theorem Next.Of.eval {frame : Frame} (own : frame.Of node) (code : Occurrence) (scope : Ref) :
    (Next.eval frame code scope).Of node where
  frames := List.forall_mem_singleton.mpr own
  task decided := .inl ⟨code, scope, (Focus.task.inj decided).symm⟩

theorem Next.Of.go {task : Task} (own : task.Of node) : (Next.go task).Of node where
  frames := nofun
  task decided := .inr (.inr ⟨rfl, Focus.task.inj decided ▸ own⟩)

theorem Next.Of.answer (completion : Completion Value) : Next.Of node ⟨.answer completion, []⟩ where
  frames := nofun
  task := nofun

theorem Occurrence.Begins.of {scope : Ref} {place : Place}
    (begins : Begins heap scope place node next heap') : next.Of node := by
  cases begins with
  | block => exact .go .elements
  | literal | var | anonymous | named => exact .answer _
  | assignment => exact .eval .assignment _ _
  | returns => exact .eval .returns _ _
  | branch => exact .eval .condition _ _
  | record => exact .go .fields
  | field => exact .eval .field _ _
  | fieldAssignment => exact .eval .target _ _
  | call => exact .eval .callee _ _
  | methodCall => exact .eval .receiver _ _

/-- A node goes on with frames and tasks of its own. -/
theorem Task.Does.of {origins : Ref → Place} {task : Task}
    (does : task.Does origins heap next heap') (own : task.Of node) : next.Of node := by
  cases does with
  | eval begins =>
      cases own
      exact begins.of
  | noElement | record => exact .answer _
  | element =>
      cases own with
      | elements => exact .eval .element _ _
      | taken => exact .eval .taken _ _
  | field =>
      cases own
      exact .eval .initializer _ _
  | @call line callee receiver done =>
      cases own with
      | arguments call =>
          exact ⟨List.forall_mem_singleton.mpr (.call call), fun decided =>
            .inr (.inl ⟨callee, receiver, done, (Focus.task.inj decided).symm⟩)⟩
  | argument =>
      cases own with
      | arguments call => exact .eval (.argument call) _ _
  | builtin | closure | external => cases own

/-- An invocation begins with the body of a function of the program, or comes to its end. -/
theorem Task.Does.of_invoke {origins : Ref → Place} {callee : Ref} {receiver : Value}
    {values : List Value} (does : Does origins heap (.invoke callee receiver values) next heap') :
    next.frames = [] ∧
      ∀ {task}, next.focus = .task task → ∃ code scope, task = .eval code scope := by
  cases does with
  | builtin | external => exact ⟨rfl, nofun⟩
  | closure => exact ⟨rfl, fun decided => ⟨_, _, (Focus.task.inj decided).symm⟩⟩

theorem Frame.Resumes.of {frame : Frame} {value : Value}
    (resumes : frame.Resumes heap value next heap') (own : frame.Of node) : next.Of node := by
  cases resumes with
  | element =>
      cases own with
      | element => exact .go .elements
      | taken => exact .go .taken
  | assignment | returns | field | write | call => exact .answer _
  | condition =>
      cases own
      exact .go .taken
  | initializer =>
      cases own
      exact .go .fields
  | target =>
      cases own
      exact .eval .write _ _
  | callee =>
      cases own
      exact .go (.arguments rfl)
  | receiver =>
      cases own
      exact .go (.arguments rfl)
  | argument =>
      cases own with
      | argument call => exact .go (.arguments call)

end Parts

/-! ## Evaluations that are open -/

namespace Script

section

variable (script : Script) (settings : Settings) (sink : Sink) (log : Log)

/-- The evaluation of a node under some frames has begun and has not come to its end: at every
moment since, the frames wait for it, and while nothing else waits there is something to do. -/
def OpenAt (n : Nat) (frames : List Frame) (code : Occurrence) : Prop :=
  ∃ k ≤ n, (∃ scope, (script.moment settings sink log k).focus = .task (.eval code scope)) ∧
    (script.moment settings sink log k).frames = frames ∧
    ∀ i, k < i → i ≤ n → frames <:+ (script.moment settings sink log i).frames ∧
      ((script.moment settings sink log i).frames = frames →
        ∃ task, (script.moment settings sink log i).focus = .task task)

/-- The nodes of the calls whose invocations are active, innermost first: of each `call` frame the
node whose evaluation is open there. -/
inductive ActiveCalls (n : Nat) : List Frame → List Occurrence → Prop
  | nil : ActiveCalls n [] []
  | call {line : Line} {frames : List Frame} {code : Occurrence} {calls : List Occurrence}
      (opened : script.OpenAt settings sink log n frames code)
      (node : code.node.callLine? = some line) (outer : ActiveCalls n frames calls) :
    ActiveCalls n (.call line :: frames) (code :: calls)
  | other {frame : Frame} {frames : List Frame} {calls : List Occurrence}
      (inside : ∀ line, frame ≠ .call line) (outer : ActiveCalls n frames calls) :
    ActiveCalls n (frame :: frames) calls

/-- The invariant: what is next, unless it is an invocation, and every frame that waits is of a node
whose evaluation is open. -/
structure Traced (n : Nat) : Prop where
  task : ∀ {task}, (script.moment settings sink log n).focus = .task task →
    (∃ callee receiver values, task = .invoke callee receiver values) ∨
      ∃ code, script.OpenAt settings sink log n (script.moment settings sink log n).frames code ∧
        task.Of code.node
  frames : ∀ {frame frames}, frame :: frames <:+ (script.moment settings sink log n).frames →
    ∃ code, script.OpenAt settings sink log n frames code ∧ frame.Of code.node

end

variable {script : Script} {settings : Settings} {sink : Sink} {log : Log} {n : Nat}
  {frames : List Frame} {code : Occurrence}

theorem openAt_of_eval {scope : Ref}
    (evaluates : (script.moment settings sink log n).focus = .task (.eval code scope)) :
    script.OpenAt settings sink log n (script.moment settings sink log n).frames code :=
  ⟨n, Nat.le_refl n, ⟨scope, evaluates⟩, rfl, fun i after within => by omega⟩

theorem OpenAt.succ (opened : script.OpenAt settings sink log n frames code)
    (waits : frames <:+ (script.moment settings sink log (n + 1)).frames)
    (busy : (script.moment settings sink log (n + 1)).frames = frames →
      ∃ task, (script.moment settings sink log (n + 1)).focus = .task task) :
    script.OpenAt settings sink log (n + 1) frames code := by
  obtain ⟨k, earlier, evaluates, there, since⟩ := opened
  refine ⟨k, Nat.le_succ_of_le earlier, evaluates, there, fun i after within => ?_⟩
  rcases Nat.le_succ_iff.mp within with within | rfl
  · exact since i after within
  · exact ⟨waits, busy⟩

/-- Below a frame that waits nothing comes to its end. -/
theorem OpenAt.below {frame : Frame} (opened : script.OpenAt settings sink log n frames code)
    (waits : frame :: frames <:+ (script.moment settings sink log (n + 1)).frames) :
    script.OpenAt settings sink log (n + 1) frames code := by
  refine opened.succ ((List.suffix_cons frame frames).trans waits) fun same => ?_
  have longer := waits.length_le
  rw [same, List.length_cons] at longer
  omega

/-- A frame that has waited before is of the node that it was of. -/
theorem Traced.of_suffix (traced : script.Traced settings sink log n) {frame : Frame}
    (waits : frame :: frames <:+ (script.moment settings sink log (n + 1)).frames)
    (before : frame :: frames <:+ (script.moment settings sink log n).frames) :
    ∃ code, script.OpenAt settings sink log (n + 1) frames code ∧ frame.Of code.node := by
  obtain ⟨code, opened, own⟩ := traced.frames before
  exact ⟨code, opened.below waits, own⟩

/-- A step that puts nothing on top, and after which nothing is next but an evaluation. -/
theorem Traced.of_frames_suffix (traced : script.Traced settings sink log n)
    (before : (script.moment settings sink log (n + 1)).frames <:+
      (script.moment settings sink log n).frames)
    (fresh : ∀ {task}, (script.moment settings sink log (n + 1)).focus = .task task →
      ∃ code scope, task = .eval code scope) : script.Traced settings sink log (n + 1) where
  task decided := by
    obtain ⟨code, scope, rfl⟩ := fresh decided
    exact .inr ⟨code, openAt_of_eval decided, .eval⟩
  frames waits := traced.of_suffix waits (waits.trans before)

/-- A step that goes on with a node whose evaluation is open. -/
theorem Traced.of_next (traced : script.Traced settings sink log n) {next : Next}
    (own : next.Of code.node) (opened : script.OpenAt settings sink log n frames code)
    (before : frames <:+ (script.moment settings sink log n).frames)
    (focus : (script.moment settings sink log (n + 1)).focus = next.focus)
    (top : (script.moment settings sink log (n + 1)).frames = next.frames ++ frames)
    (atMostOne : next.frames.length ≤ 1) : script.Traced settings sink log (n + 1) where
  task {task} decided := by
    rcases own.task (focus.symm.trans decided) with ⟨code, scope, rfl⟩ | invokes | ⟨none, goesOn⟩
    · exact .inr ⟨code, openAt_of_eval decided, .eval⟩
    · exact .inl invokes
    · rw [none, List.nil_append] at top
      have still := opened.succ (top ▸ List.suffix_refl _) fun _ => ⟨task, decided⟩
      exact .inr ⟨code, top ▸ still, goesOn⟩
  frames {frame below} waits := by
    have pushed := own.frames
    cases decided : next.frames with
    | nil =>
        rw [decided, List.nil_append] at top
        exact traced.of_suffix waits ((top ▸ waits).trans before)
    | cons first others =>
        rw [decided] at atMostOne top pushed
        have none := Nat.le_zero.mp (Nat.le_of_succ_le_succ atMostOne)
        obtain rfl := List.eq_nil_of_length_eq_zero none
        have here := waits
        rw [top, List.singleton_append] at here
        rcases List.suffix_cons_iff.mp here with same | later
        · obtain ⟨rfl, rfl⟩ := List.cons.inj same
          exact ⟨code, opened.below waits, pushed _ List.mem_cons_self⟩
        · exact traced.of_suffix waits (later.trans before)

variable (script settings sink log)

/-- The induction is on the moments of the run, with one case for each move. -/
theorem traced (n : Nat) : script.Traced settings sink log n := by
  induction n with
  | zero =>
      refine ⟨fun {task} decided => ?_, fun waits => ?_⟩
      · cases decided
        exact .inr ⟨_, openAt_of_eval rfl, .eval⟩
      · exact absurd waits.length_le (Nat.not_succ_le_zero _)
  | succ n ih =>
      have moved := script.move_moment settings sink log n
      have traced := ih
      obtain ⟨nextTask, waiting⟩ := ih
      generalize now : script.moment settings sink log n = moment at moved nextTask waiting
      generalize later : script.moment settings sink log (n + 1) = after at moved
      -- the frames and the focus are told before and after the step
      have stays {frames : List Frame} (same : after.frames = frames)
          (before : frames <:+ moment.frames)
          (fresh : ∀ {task}, after.focus = .task task → ∃ code scope, task = .eval code scope) :
          script.Traced settings sink log (n + 1) :=
        traced.of_frames_suffix (by rw [now, later, same]; exact before)
          (by rw [later]; exact fresh)
      have goes {next : Next} {code : Occurrence} {frames : List Frame} (own : next.Of code.node)
          (opened : script.OpenAt settings sink log n frames code)
          (before : frames <:+ moment.frames) (focus : after.focus = next.focus)
          (top : after.frames = next.frames ++ frames) (atMostOne : next.frames.length ≤ 1) :
          script.Traced settings sink log (n + 1) :=
        traced.of_next own opened (by rw [now]; exact before) (by rw [later, focus])
          (by rw [later, top]) atMostOne
      cases moved with
      | perform does =>
          rcases nextTask rfl with ⟨callee, receiver, values, rfl⟩ | ⟨code, opened, own⟩
          · obtain ⟨none, fresh⟩ := does.of_invoke
            exact stays (congrArg (· ++ _) none) (List.suffix_refl _) fresh
          · exact goes (does.of own) opened (List.suffix_refl _) rfl rfl does.length_frames_le
      | resume resumes =>
          obtain ⟨code, opened, own⟩ := waiting (List.suffix_refl _)
          exact goes (resumes.of own) opened (List.suffix_cons _ _) rfl rfl
            resumes.length_frames_le
      | refuse => exact stays rfl (List.suffix_refl _) nofun
      | reject | pass | unwind => exact stays rfl (List.suffix_cons _ _) nofun
      | rest ended => exact stays rfl (List.suffix_refl _) fun decided => absurd decided (ended.2 _)

/-- At every moment of a run there are the calls whose invocations are active. -/
theorem exists_activeCalls (n : Nat) :
    ∃ calls, script.ActiveCalls settings sink log n (script.moment settings sink log n).frames
      calls := by
  have traced := script.traced settings sink log n
  have inside {upper : List Frame} (waits : upper <:+ (script.moment settings sink log n).frames) :
      ∃ calls, script.ActiveCalls settings sink log n upper calls := by
    induction upper with
    | nil => exact ⟨[], .nil⟩
    | cons frame frames ih =>
        obtain ⟨calls, outer⟩ := ih ((List.suffix_cons frame frames).trans waits)
        obtain ⟨⟨place, node⟩, opened, own⟩ := traced.frames waits
        by_cases call : ∃ line, frame = .call line
        · obtain ⟨line, rfl⟩ := call
          cases own with
          | call node => exact ⟨_ :: calls, .call opened node outer⟩
        · exact ⟨calls, .other (fun line same => call ⟨line, same⟩) outer⟩
  exact inside (List.suffix_refl _)

end Script

end ScriptTree
