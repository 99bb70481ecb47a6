import ScriptTree.Proofs.Machine.Faults
import ScriptTree.Proofs.Machine.Open
import ScriptTree.Proofs.Report
import ScriptTree.Proofs.ScopeChains

/-!
# The line of a failure

A failure is raised with the line that the raising check is given, and passes the calls that are
active at that moment, each of which lends its line to a failure that has none. So the failure that
a run reports has the first line that is known, of the one it was raised with and those of the
active calls, innermost first (`Script.failure_lines`). No rule in between touches it, and a fault
that is no failure passes unchanged.
-/

namespace ScriptTree

/-! ## Lines along a stack of calls -/

/-- The first line that is known. -/
def Line.firstKnown (lines : List Line) : Line :=
  lines.findSome? id

namespace Line

theorem firstKnown_cons (line : Line) (rest : List Line) :
    firstKnown (line :: rest) = (line <|> firstKnown rest) := by
  cases line <;> rfl

/-- No line is known only if none of them is. -/
theorem firstKnown_eq_none_iff {lines : List Line} :
    firstKnown lines = none ↔ ∀ line ∈ lines, line = none :=
  List.findSome?_eq_none_iff

end Line

/-- The text of a failure begins with its line exactly when that is known. -/
theorem Failure.report_eq (failure : Failure) :
    failure.report =
      failure.line.elim "" (fun known => "at line " ++ Decimal.text known ++ ", ") ++
        failure.cause.message := by
  obtain ⟨cause, line⟩ := failure
  cases line with
  | none => exact (String.empty_append).symm
  | some known => rfl

/-- Whether a fault is an error of the program. -/
def Fault.isFailure : Fault → Bool
  | .failure _ => true
  | .digitLimit | .sinkClosed | .tooDeep => false

namespace Frame

/-- The lines of the calls among some frames. -/
def callLines : List Frame → List Line
  | [] => []
  | .call line :: frames => line :: callLines frames
  | _ :: frames => callLines frames

theorem callLines_cons_of_ne {frame : Frame} (inside : ∀ line, frame ≠ .call line)
    (frames : List Frame) : callLines (frame :: frames) = callLines frames := by
  cases frame with
  | call line => exact absurd rfl (inside line)
  | _ => rfl

/-- A fault that is no failure passes a frame unchanged. -/
theorem failed_of_not {fault : Fault} (frame : Frame) (other : fault.isFailure = false) :
    frame.failed fault = fault := by
  cases fault with
  | failure => cases other
  | digitLimit | sinkClosed | tooDeep => cases frame <;> rfl

end Frame

namespace Fault

/-- The fault after it has passed some frames, the first one first. -/
def through (fault : Fault) (frames : List Frame) : Fault :=
  frames.foldl (fun fault frame => frame.failed fault) fault

/-- What a failure takes from the frames that it passes is the first known line of the calls among
them, if it has none of its own. -/
theorem through_failure (failure : Failure) (frames : List Frame) :
    through (.failure failure) frames =
      .failure ⟨failure.cause, Line.firstKnown (failure.line :: Frame.callLines frames)⟩ := by
  induction frames generalizing failure with
  | nil =>
      rw [Frame.callLines, Line.firstKnown_cons]
      cases failure with
      | mk cause line => cases line <;> rfl
  | cons frame frames ih =>
      cases frame with
      | call line =>
          have lent : Line.firstKnown ((failure.orAt line).line :: Frame.callLines frames) =
              Line.firstKnown (failure.line :: line :: Frame.callLines frames) := by
            rw [Failure.line_orAt, Line.firstKnown_cons, Line.firstKnown_cons,
              Line.firstKnown_cons]
            cases failure.line <;> rfl
          refine (ih (failure.orAt line)).trans ?_
          rw [lent]
          rfl
      | _ => exact ih failure

/-- A fault that is no failure passes all frames unchanged. -/
theorem through_of_not {fault : Fault} (other : fault.isFailure = false) (frames : List Frame) :
    fault.through frames = fault := by
  induction frames with
  | nil => rfl
  | cons frame frames ih =>
      rw [through, List.foldl_cons, frame.failed_of_not other]
      exact ih

end Fault

/-! ## What is invoked is a function -/

theorem Heap.Grows.isFunction {old new : Heap} {ref : Ref} (grows : old.Grows new)
    (function : old.isFunction ref = true) : new.isFunction ref = true := by
  unfold Heap.isFunction at function ⊢
  cases found : old.get? ref with
  | none =>
      rw [found] at function
      cases function
  | some object =>
      obtain ⟨fields, later⟩ := grows found
      rw [found] at function
      rw [later]
      exact function

/-- A call that is begun is one of what was checked to be a function. -/
theorem Frame.Resumes.isFunction {heap heap' : Heap} {frame : Frame} {value : Value} {next : Next}
    {frames : List Frame} (resumes : frame.Resumes heap value next heap') :
    ∀ call ∈ next.calls frames,
      call ∈ Frame.calls (frame :: frames) ∨ heap.isFunction call.callee = true := by
  intro call pending
  cases resumes with
  | callee function | receiver _ function =>
      rcases List.mem_cons.mp pending with rfl | waiting
      · exact .inr function
      · exact .inl waiting
  | _ => exact .inl pending

namespace Moment

variable {moment next : Moment}

/-- The calls that are to be made are calls of functions. -/
def CallsFunctions (moment : Moment) : Prop :=
  ∀ call ∈ moment.calls, moment.state.heap.isFunction call.callee = true

/-- What is invoked has a body. -/
theorem CallsFunctions.body_ne_none {callee : Ref} {receiver : Value} {values : List Value}
    {frames : List Frame} {state : State} {origins : Ref → Place}
    (functions : CallsFunctions ⟨.task (.invoke callee receiver values), frames, state, origins⟩) :
    (state.heap.get? callee).bind Object.body ≠ none := by
  have function : (state.heap.get? callee).any Object.isFunction = true :=
    functions ⟨callee, receiver, frames.tail⟩ List.mem_cons_self
  cases found : state.heap.get? callee with
  | none =>
      rw [found] at function
      cases function
  | some object =>
      rw [found] at function
      exact Option.isSome_iff_ne_none.mp function

theorem Move.callsFunctions (move : Move moment next) (functions : moment.CallsFunctions) :
    next.CallsFunctions := by
  intro call pending
  refine move.steps.grows.isFunction ?_
  cases move with
  | perform does => exact functions call (does.calls pending)
  | resume resumes =>
      rcases resumes.isFunction call pending with before | function
      · exact functions call before
      · exact function
  | refuse => exact functions call (List.mem_append_right _ pending)
  | @reject _ frame | @pass _ frame | @unwind _ frame =>
      refine functions call ?_
      cases frame <;> first | exact pending | exact List.mem_cons_of_mem _ pending
  | rest => exact functions call pending

/-- Nothing happens under a fault that is no failure but that frames are taken off. -/
theorem Move.raising {fault : Fault} {state : State} (move : Move moment next)
    (other : fault.isFailure = false)
    (raised : moment.focus = .raise fault ∧ moment.state = state) :
    next.focus = .raise fault ∧ next.state = state := by
  obtain ⟨raised, same⟩ := raised
  cases move with
  | @unwind _ frame =>
      cases raised
      exact ⟨congrArg _ (frame.failed_of_not other), same⟩
  | rest => exact ⟨raised, same⟩
  | _ => cases raised

/-- Once a fault that is no failure is raised, an evaluation that ends has ended in it, and in the
state of that moment. -/
theorem eq_of_raise {settings : Settings} {limit k n : Nat} {fault : Fault} {origins : Ref → Place}
    {outcome : EStateM.Result Fault State (Completion Value)} (other : fault.isFailure = false)
    (raised : ((Moment.next settings limit)^[k] moment).focus = .raise fault)
    (reached : (Moment.next settings limit)^[n] moment = ended [] origins outcome) :
    outcome = .error fault ((Moment.next settings limit)^[k] moment).state := by
  have isOver := ended_ended origins outcome
  rw [← reached] at isOver
  have still : ((Moment.next settings limit)^[n] moment).focus = .raise fault ∧
      ((Moment.next settings limit)^[n] moment).state =
        ((Moment.next settings limit)^[k] moment).state := by
    rcases Nat.le_total k n with later | earlier
    · obtain ⟨m, rfl⟩ := Nat.exists_eq_add_of_le later
      rw [Nat.add_comm, Function.iterate_add_apply]
      exact holds_iterate (fun move => move.raising other) ⟨raised, rfl⟩ m
    · rw [← iterate_of_ended isOver earlier]
      exact ⟨raised, rfl⟩
  rw [reached] at still
  cases outcome with
  | ok completion after => cases still.1
  | error fault after =>
      cases still.1
      cases still.2
      rfl

end Moment

/-! ## Where failures are raised -/

/-- A check names the line of its node. -/
theorem Frame.Rejects.line_eq {state : State} {frame : Frame} {value : Value}
    {failure : Failure} {node : Expr} (rejects : frame.Rejects state value (.failure failure))
    (own : frame.Of node) : failure.line = node.line := by
  cases rejects with
  | unknown =>
      cases own
      rfl
  | mismatch checks fails =>
      cases fails
      cases checks <;> cases own <;> rfl

namespace Script

section

variable (script : Script) (settings : Settings) (sink : Sink) (log : Log)

/-- A failure is raised at a moment of a run, with the line that it is given there. -/
inductive FailsAt (n : Nat) : Failure → Prop
  /-- A node cannot use the value that it waited for: the failure has the line of that node. -/
  | check {value : Value} {frame : Frame} {frames : List Frame} {code : Occurrence} {cause : Cause}
      (given : (script.moment settings sink log n).focus = .answer (.value value))
      (waits : (script.moment settings sink log n).frames = frame :: frames)
      (opened : script.OpenAt settings sink log n frames code) (own : frame.Of code.node)
      (rejects : frame.Rejects (script.moment settings sink log n).state value
        (.failure ⟨cause, code.node.line⟩))
      (raised : (script.moment settings sink log (n + 1)).focus =
        .raise (.failure ⟨cause, code.node.line⟩)) :
    FailsAt n ⟨cause, code.node.line⟩
  /-- A function of the program takes another number of arguments: the failure has the line of the
  function. -/
  | arity {callee : Ref} {receiver : Value} {values : List Value} {lambda : Lambda} {scope : Ref}
      {name : Option String}
      (invokes : (script.moment settings sink log n).focus =
        .task (.invoke callee receiver values))
      (body : ((script.moment settings sink log n).state.heap.get? callee).bind Object.body =
        some (.closure lambda scope))
      (stands : script.nodeAt? ((script.moment settings sink log n).origins callee) =
        some (.function lambda.line name lambda.parameters lambda.body))
      (differs : values.length ≠ lambda.parameters.length)
      (raised : (script.moment settings sink log (n + 1)).focus = .raise (.failure
        ⟨.arity lambda.name lambda.parameters.length values.length, lambda.line⟩)) :
    FailsAt n ⟨.arity lambda.name lambda.parameters.length values.length, lambda.line⟩
  /-- A function of the language fails: it knows no line. -/
  | builtin {callee : Ref} {receiver : Value} {values : List Value} {builtin : Builtin}
      {cause : Cause}
      (invokes : (script.moment settings sink log n).focus =
        .task (.invoke callee receiver values))
      (body : ((script.moment settings sink log n).state.heap.get? callee).bind Object.body =
        some (.builtin builtin))
      (raises : builtin.Raises (script.moment settings sink log n).state values
        (.failure ⟨cause, none⟩))
      (raised : (script.moment settings sink log (n + 1)).focus =
        .raise (.failure ⟨cause, none⟩)) :
    FailsAt n ⟨cause, none⟩
  /-- A node is of no kind that the language has: the failure has its line. -/
  | unsupported {place : Place} {line : Line} {kind : String} {scope : Ref}
      (evaluates : (script.moment settings sink log n).focus =
        .task (.eval ⟨place, .unknown line kind⟩ scope))
      (raised : (script.moment settings sink log (n + 1)).focus =
        .raise (.failure ⟨.unsupportedKind kind, line⟩)) :
    FailsAt n ⟨.unsupportedKind kind, line⟩
  /-- A `return` leaves the program: the failure has the line of the node that was evaluated. -/
  | strayReturn {result : Value}
      (leaves : (script.moment settings sink log n).focus = .answer (.returning result))
      (outside : (script.moment settings sink log n).frames = []) :
    FailsAt n ⟨.strayReturn, script.body.line⟩

end

variable {script : Script} {settings : Settings} {sink : Sink} {log : Log} {n : Nat}

theorem callsFunctions_moment (n : Nat) : (script.moment settings sink log n).CallsFunctions :=
  holds_from Moment.Move.callsFunctions (Nat.zero_le n) nofun

/-- A failure that a step raises is one of these: what is invoked is a function, and no function is
one of the embedding program. -/
theorem failsAt_of_raises {failure : Failure}
    (raises : (script.moment settings sink log n).Raises settings (.failure failure))
    (raised : (script.moment settings sink log (n + 1)).focus = .raise (.failure failure)) :
    script.FailsAt settings sink log n failure := by
  have plain := (script.plain_moment settings sink log n).heap
  have closures := (script.placed_moment settings sink log n).closures
  have functions : (script.moment settings sink log n).CallsFunctions := callsFunctions_moment n
  have traced := script.traced settings sink log n
  generalize now : script.moment settings sink log n = moment at raises plain closures functions
  cases raises with
  | @refuse task frames state origins _ refuses =>
      cases refuses with
      | unsupported => exact .unsupported (by rw [now]) raised
      | notFunction body => exact absurd body functions.body_ne_none
      | builtin body raises =>
          cases raises with
          | failure shallow =>
              exact .builtin (by rw [now]) (by rw [now]; exact body) (.failure shallow) raised
      | closure body differs =>
          obtain ⟨object, found, made⟩ := Option.bind_eq_some_iff.mp body
          obtain ⟨name, stands⟩ := closures found made
          exact .arity (by rw [now]) (by rw [now]; exact body) (by rw [now]; exact stands.node)
            differs raised
      | external body given =>
          obtain ⟨object, found, made⟩ := Option.bind_eq_some_iff.mp body
          exact absurd made (plain.inside found _)
  | @reject value frame frames state origins _ rejects =>
      have waits : (script.moment settings sink log n).frames = frame :: frames := by rw [now]
      have last : frame :: frames <:+ (script.moment settings sink log n).frames :=
        ⟨[], waits.symm⟩
      obtain ⟨code, opened, own⟩ := traced.frames last
      obtain ⟨cause, line⟩ := failure
      obtain rfl : line = code.node.line := rejects.line_eq own
      exact .check (by rw [now]) waits opened own (by rw [now]; exact rejects) raised

/-- Too deep nesting is no failure where it is met. -/
theorem FailsAt.cause_ne {failure : Failure} (fails : script.FailsAt settings sink log n failure) :
    failure.cause ≠ .recursionTooDeep := by
  cases fails with
  | @check _ _ _ _ cause _ _ _ _ rejects =>
      rintro rfl
      cases rejects with
      | mismatch _ fails => cases fails
  | arity | unsupported | strayReturn => exact nofun
  | builtin _ _ raises =>
      cases raises with
      | failure shallow => exact shallow

/-! ## From there to the end of the run -/

/-- A fault that is under way was raised at some moment before, and has passed since all the frames
that waited then and do not wait any more. -/
theorem exists_raises {fault : Fault}
    (raised : (script.moment settings sink log n).focus = .raise fault) :
    ∃ k given passed, (script.moment settings sink log k).Raises settings given ∧
      (script.moment settings sink log (k + 1)).focus = .raise given ∧
      (script.moment settings sink log (k + 1)).frames =
        passed ++ (script.moment settings sink log n).frames ∧
      fault = given.through passed := by
  induction n generalizing fault with
  | zero => cases raised
  | succ n ih =>
      have stepped := moment_succ script settings sink log n
      have here := raised
      rw [stepped] at here
      rcases Moment.raises_next here with raises | ⟨earlier, frame, before, waited, rfl⟩ | rests
      · exact ⟨n, fault, [], raises, raised, rfl, rfl⟩
      · obtain ⟨k, given, passed, raises, focus, waits, rfl⟩ := ih before
        refine ⟨k, given, passed ++ [frame], raises, focus, ?_, ?_⟩
        · rw [waits, waited, stepped, List.append_assoc, List.singleton_append]
        · rw [Fault.through, Fault.through, List.foldl_append]
          rfl
      · rw [rests] at here
        rw [stepped, rests]
        exact ih here

/-- How a run ends: with a value, with a `return` that leaves the program, or with what was raised
at some moment, after it has passed all the frames that waited then. -/
theorem ending_of_run {report : Report} (ran : script.run (.sink sink) settings log = .ok report) :
    report.ending = .ok () ∨
      (∃ n result, (script.moment settings sink log n).focus = .answer (.returning result) ∧
        (script.moment settings sink log n).frames = [] ∧
        report.ending = .error (.failure ⟨.strayReturn, script.body.line⟩)) ∨
      ∃ n given, (script.moment settings sink log n).Raises settings given ∧
        (script.moment settings sink log (n + 1)).focus = .raise given ∧
        report.ending =
          .error (given.through (script.moment settings sink log (n + 1)).frames).reported := by
  obtain ⟨last, ended, reported, -⟩ := exists_moment_of_run ran
  cases focus : (script.moment settings sink log last).focus with
  | task task =>
      rw [focus] at reported
      cases reported
  | answer completion =>
      rw [focus] at reported
      cases completion with
      | value result => exact .inl (Option.some.inj reported).symm
      | returning result =>
          exact .inr (.inl ⟨last, result, focus, ended, (Option.some.inj reported).symm⟩)
  | raise fault =>
      rw [focus] at reported
      obtain ⟨n, given, passed, raises, raised, waits, rfl⟩ := exists_raises focus
      -- the frames that have been passed are all of them
      rw [ended, List.append_nil] at waits
      rw [← waits] at reported
      exact .inr (.inr ⟨n, given, raises, raised, (Option.some.inj reported).symm⟩)

/-- What is raised passes every call that is active at that moment. -/
theorem callLines_succ_of_raises {given : Fault}
    (raises : (script.moment settings sink log n).Raises settings given)
    (raised : (script.moment settings sink log (n + 1)).focus = .raise given) :
    Frame.callLines (script.moment settings sink log (n + 1)).frames =
      Frame.callLines (script.moment settings sink log n).frames := by
  have moved := script.move_moment settings sink log n
  generalize script.moment settings sink log n = moment at raises moved
  generalize script.moment settings sink log (n + 1) = after at raised moved
  cases moved with
  | perform does => exact absurd raised does.focus_ne_raise
  | resume resumes => exact absurd raised resumes.focus_ne_raise
  | refuse => rfl
  | @reject value frame frames =>
      refine (Frame.callLines_cons_of_ne (fun line call => ?_) frames).symm
      cases raises with
      | reject rejects =>
          subst call
          cases rejects with
          | mismatch checks => cases checks
  | pass => cases raised
  | unwind => cases raises
  | rest ended =>
      cases raises with
      | refuse => exact absurd rfl (ended.2 _)
      | reject => cases ended.1

/-- The lines of the active calls are those of their nodes, and the nodes stand in the program. -/
theorem ActiveCalls.callLines_eq {frames : List Frame} {calls : List Occurrence}
    (active : script.ActiveCalls settings sink log n frames calls) :
    Frame.callLines frames = calls.map (·.node.line) ∧
      ∀ call ∈ calls, script.nodeAt? call.place = some call.node := by
  induction active with
  | nil => exact ⟨rfl, nofun⟩
  | call opened node outer ih =>
      obtain ⟨k, -, ⟨scope, evaluates⟩, -, -⟩ := opened
      have stands := (script.placed_moment settings sink log k).focus
      rw [evaluates] at stands
      refine ⟨?_, List.forall_mem_cons.mpr ⟨stands.node, ih.2⟩⟩
      rw [Frame.callLines, ih.1, List.map_cons, Expr.line_of_callLine? node]
  | other inside outer ih =>
      exact ⟨(Frame.callLines_cons_of_ne inside _).trans ih.1, ih.2⟩

/-- While a fault is under way nothing is evaluated. -/
theorem focus_ne_task_of_raise {fault : Fault}
    (raised : (script.moment settings sink log n).focus = .raise fault) {m : Nat} (later : n ≤ m)
    (task : Task) : (script.moment settings sink log m).focus ≠ .task task := by
  have still : ∃ fault, (script.moment settings sink log m).focus = .raise fault := by
    refine holds_from (P := fun moment => ∃ fault, moment.focus = .raise fault) ?_ later ⟨_, raised⟩
    rintro before after move ⟨fault, raised⟩
    cases move with
    | unwind => exact ⟨_, rfl⟩
    | rest => exact ⟨fault, raised⟩
    | _ => cases raised
  obtain ⟨fault, raised⟩ := still
  rw [raised]
  exact nofun

/-- A fault that is no failure is what the run ends in, in the state in which it was raised. -/
theorem outcome_of_raise {fault : Fault} (other : fault.isFailure = false)
    (raised : (script.moment settings sink log n).focus = .raise fault) :
    script.outcome settings sink log =
      .error fault (script.moment settings sink log n).state := by
  obtain ⟨last, origins, reached⟩ := script.exists_moment_eq_ended settings sink log
  exact Moment.eq_of_raise other raised reached

/-- The failure that a run reports, unless nesting was too deep, was raised at some moment, and
nothing was evaluated after it. Its cause is the one that it was raised with, and its line is the
first one known of the line that it was given there and those of the calls active at that moment,
innermost first; so it has none only if all of these are unknown, and only then its text does not
begin with a line. A fault that is no failure is reported as it was raised, whatever calls were
active. -/
theorem failure_lines {report : Report} (ran : script.run (.sink sink) settings log = .ok report) :
    (∀ failure, report.ending = .error (.failure failure) → failure.cause ≠ .recursionTooDeep →
      ∃ n line calls,
        script.FailsAt settings sink log n ⟨failure.cause, line⟩ ∧
        script.ActiveCalls settings sink log n (script.moment settings sink log n).frames calls ∧
        (∀ call ∈ calls, script.nodeAt? call.place = some call.node) ∧
        (∀ m > n, ∀ task, (script.moment settings sink log m).focus ≠ .task task) ∧
        failure.line = Line.firstKnown (line :: calls.map (·.node.line)) ∧
        (failure.line = none ↔ line = none ∧ ∀ call ∈ calls, call.node.line = none) ∧
        failure.report =
          failure.line.elim "" (fun known => "at line " ++ Decimal.text known ++ ", ") ++
            failure.cause.message) ∧
    ∀ fault, report.ending = .error fault →
      (∀ failure, fault = .failure failure → failure.cause = .recursionTooDeep) →
        ∃ n given, (script.moment settings sink log n).Raises settings given ∧
          (script.moment settings sink log (n + 1)).focus = .raise given ∧
          given.isFailure = false ∧ fault = given.reported := by
  refine ⟨fun failure failed shallow => ?_, fun fault failed other => ?_⟩
  · -- the line and the calls decide on the rest
    suffices attributed : ∃ n line calls,
        script.FailsAt settings sink log n ⟨failure.cause, line⟩ ∧
        script.ActiveCalls settings sink log n (script.moment settings sink log n).frames calls ∧
        (∀ m > n, ∀ task, (script.moment settings sink log m).focus ≠ .task task) ∧
        failure.line = Line.firstKnown (line :: calls.map (·.node.line)) by
      obtain ⟨n, line, calls, fails, active, still, first⟩ := attributed
      refine ⟨n, line, calls, fails, active, active.callLines_eq.2, still, first, ?_,
        failure.report_eq⟩
      rw [first, Line.firstKnown_eq_none_iff, List.forall_mem_cons, List.forall_mem_map]
    rcases ending_of_run ran with none | ⟨n, result, leaves, outside, stray⟩ |
      ⟨n, given, raises, raised, ending⟩
    · cases failed.symm.trans none
    · cases failed.symm.trans stray
      have ended : (script.moment settings sink log n).Ended := ⟨outside, leaves ▸ nofun⟩
      refine ⟨n, script.body.line, [], .strayReturn leaves outside, outside ▸ .nil, ?_, ?_⟩
      · exact fun m later => moment_of_ended ended (Nat.le_of_lt later) ▸ ended.2
      · rw [List.map_nil, Line.firstKnown_cons]
        cases script.body.line <;> rfl
    · have same := failed.symm.trans ending
      cases given with
      | failure given =>
          rw [Fault.through_failure, callLines_succ_of_raises raises raised] at same
          cases same
          obtain ⟨calls, active⟩ := script.exists_activeCalls settings sink log n
          refine ⟨n, given.line, calls, failsAt_of_raises raises raised, active, ?_, ?_⟩
          · exact fun m later => focus_ne_task_of_raise raised later
          · rw [active.callLines_eq.1]
      | tooDeep =>
          rw [Fault.through_of_not rfl] at same
          cases same
          exact absurd rfl shallow
      | digitLimit | sinkClosed =>
          rw [Fault.through_of_not rfl] at same
          cases same
  · rcases ending_of_run ran with none | ⟨n, result, leaves, outside, stray⟩ |
      ⟨n, given, raises, raised, ending⟩
    · cases failed.symm.trans none
    · cases failed.symm.trans stray
      cases other _ rfl
    · have same := failed.symm.trans ending
      cases unlike : given.isFailure with
      | false =>
          rw [Fault.through_of_not unlike] at same
          exact ⟨n, given, raises, raised, unlike, Except.error.inj same⟩
      | true =>
          cases given with
          | failure failure =>
              rw [Fault.through_failure] at same
              have met : fault = .failure ⟨failure.cause, _⟩ := Except.error.inj same
              have deep := other _ met
              exact absurd deep (failsAt_of_raises raises raised).cause_ne
          | digitLimit | sinkClosed | tooDeep => cases unlike

/-- An operator fails in a call without a line, in a function that is called at line 0, in one that
is called at line 7. -/
def mixedLines : Script :=
  ⟨.mk none [
    .function (some 1) (some "f") []
      (.mk none [.call none (.var none "+") [.literal none (.str "x"), .literal none (.int 1)]]),
    .function (some (-2)) (some "g") [] (.mk none [.call (some 0) (.var none "f") []]),
    .call (some 7) (.var none "g") []]⟩

theorem failure_lines_mixedLines :
    ∃ report failure, mixedLines.run (.sink .empty) .standard {} = .ok report ∧
      report.ending = .error (.failure failure) ∧
      failure.report = "at line 0, type error x is not a integer (operand of +)" ∧
      ∃ n line calls, mixedLines.FailsAt .standard .empty {} n ⟨failure.cause, line⟩ ∧
        mixedLines.ActiveCalls .standard .empty {} n
          (mixedLines.moment .standard .empty {} n).frames calls ∧
        failure.line = Line.firstKnown (line :: calls.map (·.node.line)) := by
  have ran : mixedLines.run (.sink .empty) .standard {} =
      .ok ⟨.error (.failure ⟨.operandMismatch "x" "+", some 0⟩), _⟩ := rfl
  obtain ⟨n, line, calls, fails, active, -, -, first, -⟩ := (failure_lines ran).1 _ rfl nofun
  exact ⟨_, _, ran, rfl, by decide, n, line, calls, fails, active, first⟩

end Script

end ScriptTree
