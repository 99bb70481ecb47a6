import ScriptTree.Proofs.RecursionLimit

/-!
# From the beginning of an evaluation to its end

The evaluation of a node under some frames is one stretch of a run: from the moment at which it
begins there is work above these frames, or next, until it is over and what comes of it is handed to
the frame on top of them. `Spans` says this of two moments of a run and `Lasts` of a task that is
begun at the first one. Every evaluation has such an end (`Script.exists_lasts`). Stretches that
follow one another are put together by `Spans.step` and `Spans.after`.

A step at the end of a stretch goes on with a value, or hands on what is not one (`HandedOn`). A
value that leaves a function does so from a `return` of this very function (`Lasts.exists_returns`).
-/

namespace ScriptTree

/-! ## What passes a frame -/

namespace Frame

variable {frame : Frame}

/-- Only a call takes a value that leaves a function. -/
theorem passed_of_ne (inside : ∀ line, frame ≠ .call line) (value : Value) :
    frame.passed value = .returning value := by
  cases frame with
  | call line => exact absurd rfl (inside line)
  | _ => rfl

theorem of_passed {value result : Value} (passed : frame.passed value = .returning result) :
    (∀ line, frame ≠ .call line) ∧ value = result := by
  cases frame with
  | call line => cases passed
  | _ =>
      cases passed
      refine ⟨fun line same => ?_, rfl⟩
      cases same

/-- Only a call gives a line to a failure. -/
theorem failed_of_ne (inside : ∀ line, frame ≠ .call line) (fault : Fault) :
    frame.failed fault = fault := by
  cases frame with
  | call line => exact absurd rfl (inside line)
  | _ => rfl

end Frame

namespace Moment

variable {moment next : Moment} {frame : Frame} {frames : List Frame}

/-! ## One step, by what it starts from -/

theorem Move.of_task (move : Move moment next) {task : Task} (does : moment.focus = .task task) :
    (∃ decided, task.Does moment.origins moment.state.heap decided next.state.heap ∧
      next.focus = decided.focus ∧ next.frames = decided.frames ++ moment.frames) ∨
    ∃ fault, next.focus = .raise fault ∧ next.frames = moment.frames ∧
      next.state.heap = moment.state.heap := by
  cases move with
  | perform begins =>
      cases does
      exact .inl ⟨_, begins, rfl, rfl⟩
  | refuse same =>
      cases does
      exact .inr ⟨_, rfl, rfl, same⟩
  | rest ended => exact absurd does (ended.2 _)
  | resume | reject | pass | unwind => cases does

theorem Move.of_value (move : Move moment next) {value : Value}
    (given : moment.focus = .answer (.value value)) (waits : moment.frames = frame :: frames) :
    (∃ decided, frame.Resumes moment.state.heap value decided next.state.heap ∧
      next.focus = decided.focus ∧ next.frames = decided.frames ++ frames) ∨
    ∃ fault, next.focus = .raise fault ∧ next.frames = frames ∧
      next.state.heap = moment.state.heap := by
  cases move with
  | resume resumes =>
      cases given
      cases waits
      exact .inl ⟨_, resumes, rfl, rfl⟩
  | reject same =>
      cases given
      cases waits
      exact .inr ⟨_, rfl, rfl, same⟩
  | rest ended => cases ended.1.symm.trans waits
  | perform | refuse | pass | unwind => cases given

theorem Move.of_returning (move : Move moment next) {value : Value}
    (leaves : moment.focus = .answer (.returning value)) (waits : moment.frames = frame :: frames) :
    next.focus = .answer (frame.passed value) ∧ next.frames = frames ∧
      next.state = moment.state := by
  cases move with
  | pass =>
      cases leaves
      cases waits
      exact ⟨rfl, rfl, rfl⟩
  | rest ended => cases ended.1.symm.trans waits
  | perform | refuse | resume | reject | unwind => cases leaves

theorem Move.of_raise (move : Move moment next) {fault : Fault}
    (raised : moment.focus = .raise fault) (waits : moment.frames = frame :: frames) :
    next.focus = .raise (frame.failed fault) ∧ next.frames = frames ∧
      next.state = moment.state := by
  cases move with
  | unwind =>
      cases raised
      cases waits
      exact ⟨rfl, rfl, rfl⟩
  | rest ended => cases ended.1.symm.trans waits
  | perform | refuse | resume | reject | pass => cases raised

/-- A step takes one frame off at most. -/
theorem Move.tail_suffix (move : Move moment next) : moment.frames.tail <:+ next.frames := by
  cases move with
  | perform => exact (List.tail_suffix _).trans (List.suffix_append _ _)
  | resume => exact List.suffix_append _ _
  | refuse | rest => exact List.tail_suffix _
  | reject | pass | unwind => exact List.suffix_refl _

/-! ## At work -/

/-- There is work above the frames: others wait there, or there is something to do. -/
def Busy (frames : List Frame) (moment : Moment) : Prop :=
  frames <:+ moment.frames ∧ (moment.frames = frames → ∃ task, moment.focus = .task task)

/-- The work above the frames is over. -/
def Over (frames : List Frame) (moment : Moment) : Prop :=
  moment.frames = frames ∧ ∀ task, moment.focus ≠ .task task

theorem busy_of_suffix (waits : frame :: frames <:+ moment.frames) : moment.Busy frames := by
  refine ⟨(List.suffix_cons frame frames).trans waits, fun same => ?_⟩
  have longer := waits.length_le
  rw [same, List.length_cons] at longer
  omega

theorem busy_of_task {task : Task} (does : moment.focus = .task task)
    (under : moment.frames = frames) : moment.Busy frames :=
  ⟨under ▸ List.suffix_refl _, fun _ => ⟨task, does⟩⟩

/-- Work goes on until it is over. -/
theorem Move.busy_or_over (move : Move moment next) (busy : moment.Busy frames) :
    next.Busy frames ∨ next.Over frames := by
  have waits : frames <:+ next.frames := by
    rcases eq_or_ne moment.frames frames with same | other
    · rcases busy.2 same with ⟨task, does⟩
      rcases move.of_task does with ⟨decided, -, -, more⟩ | ⟨fault, -, still, -⟩
      · rw [more, same]
        apply List.suffix_append
      · have there : next.frames = frames := still.trans same
        exact there ▸ List.suffix_refl _
    · rcases busy.1 with ⟨upper, split⟩
      cases upper with
      | nil => exact absurd split.symm other
      | cons top upper =>
          have below := move.tail_suffix
          rw [← split, List.cons_append, List.tail_cons] at below
          exact (List.suffix_append upper frames).trans below
  by_cases isOver : next.Over frames
  · exact .inr isOver
  · left
    refine ⟨waits, fun same => ?_⟩
    by_contra nothing
    exact isOver ⟨same, fun task does => nothing ⟨task, does⟩⟩

theorem over_ended (frames : List Frame) (origins : Ref → Place)
    (outcome : EStateM.Result Fault State (Completion Value)) :
    (ended frames origins outcome).Over frames := by
  cases outcome with
  | ok completion after => exact ⟨rfl, nofun⟩
  | error fault after => exact ⟨rfl, nofun⟩

/-- At the end of a stretch there is a value, one that leaves the function, or a fault. -/
theorem Over.cases (isOver : moment.Over frames) :
    (∃ value, moment.focus = .answer (.value value)) ∨
      (∃ value, moment.focus = .answer (.returning value)) ∨
        ∃ fault, moment.focus = .raise fault := by
  cases focus : moment.focus with
  | task task => exact absurd focus (isOver.2 task)
  | answer completion =>
      cases completion with
      | value value => exact .inl ⟨value, rfl⟩
      | returning value => exact .inr (.inl ⟨value, rfl⟩)
  | raise fault => exact .inr (.inr ⟨fault, rfl⟩)

end Moment

/-! ## Stretches of a run -/

/-- From moment `n` of a run on there is work above the frames, and at moment `m` it is over. -/
structure Spans (run : Nat → Moment) (frames : List Frame) (n m : Nat) : Prop where
  ordered : n ≤ m
  busy : ∀ i, n ≤ i → i < m → (run i).Busy frames
  isOver : (run m).Over frames

/-- A task is next at moment `n` of a run, under some frames, and is over at moment `m`. -/
structure Lasts (run : Nat → Moment) (task : Task) (frames : List Frame) (n m : Nat) : Prop where
  begun : (run n).focus = .task task
  under : (run n).frames = frames
  spans : Spans run frames n m

/-- What comes of an evaluation is no value, and the frame on top hands it on as it is. -/
structure HandedOn (run : Nat → Moment) (frames : List Frame) (m : Nat) : Prop where
  noValue : ∀ value, (run m).focus ≠ .answer (.value value)
  focus : (run (m + 1)).focus = (run m).focus
  frames : (run (m + 1)).frames = frames
  state : (run (m + 1)).state = (run m).state

section Stretches

variable {run : Nat → Moment} {frame : Frame} {frames : List Frame} {n m : Nat}

theorem Spans.of_over (isOver : (run n).Over frames) : Spans run frames n n where
  ordered := Nat.le_refl n
  busy i after before := by omega
  isOver := isOver

theorem Spans.step (busy : (run n).Busy frames) (onward : Spans run frames (n + 1) m) :
    Spans run frames n m where
  ordered := by
    have := onward.ordered
    omega
  busy i after before := by
    rcases Nat.eq_or_lt_of_le after with rfl | later
    · exact busy
    · exact onward.busy i later before
  isOver := onward.isOver

/-- A stretch above one frame more, and what follows when that frame is taken off. -/
theorem Spans.after {a : Nat} (inner : Spans run (frame :: frames) n a)
    (onward : Spans run frames (a + 1) m) : Spans run frames n m where
  ordered := by
    have := inner.ordered
    have := onward.ordered
    omega
  busy i after before := by
    rcases Nat.lt_trichotomy i a with earlier | rfl | later
    · exact Moment.busy_of_suffix (inner.busy i after earlier).1
    · have waits : frame :: frames <:+ (run i).frames := inner.isOver.1 ▸ List.suffix_refl _
      exact Moment.busy_of_suffix waits
    · exact onward.busy i later before
  isOver := onward.isOver

/-- A task is not over when it begins. -/
theorem Lasts.lt {task : Task} (lasts : Lasts run task frames n m) : n < m := by
  rcases Nat.eq_or_lt_of_le lasts.spans.ordered with rfl | later
  · exact absurd lasts.begun (lasts.spans.isOver.2 task)
  · exact later

variable (moves : ∀ k, Moment.Move (run k) (run (k + 1)))

include moves

/-- Work that is over at some moment is over for the first time. -/
theorem Spans.of_busy {k : Nat} (busy : (run n).Busy frames) (isOver : (run (n + k)).Over frames) :
    ∃ m, Spans run frames n m := by
  induction k generalizing n with
  | zero => exact ⟨n, .of_over isOver⟩
  | succ k ih =>
      rcases (moves n).busy_or_over busy with still | done
      · have later : n + (k + 1) = n + 1 + k := by omega
        rcases ih still (later ▸ isOver) with ⟨m, onward⟩
        exact ⟨m, onward.step busy⟩
      · exact ⟨n + 1, (Spans.of_over done).step busy⟩

/-- Only a call looks at what is no value. -/
theorem HandedOn.of_over (isOver : (run m).Over (frame :: frames))
    (inside : ∀ line, frame ≠ .call line) :
    (∃ value, (run m).focus = .answer (.value value)) ∨ HandedOn run frames m := by
  rcases isOver.cases with given | ⟨value, leaves⟩ | ⟨fault, raised⟩
  · exact .inl given
  · right
    rcases (moves m).of_returning leaves isOver.1 with ⟨focus, under, same⟩
    rw [Frame.passed_of_ne inside] at focus
    refine ⟨fun other given => ?_, focus.trans leaves.symm, under, same⟩
    cases leaves.symm.trans given
  · right
    rcases (moves m).of_raise raised isOver.1 with ⟨focus, under, same⟩
    rw [Frame.failed_of_ne inside] at focus
    refine ⟨fun other given => ?_, focus.trans raised.symm, under, same⟩
    cases raised.symm.trans given

omit moves in
/-- What is handed on ends the stretch below as well. -/
theorem HandedOn.isOver (handedOn : HandedOn run frames m)
    (inner : (run m).Over (frame :: frames)) : (run (m + 1)).Over frames := by
  refine ⟨handedOn.frames, fun task => ?_⟩
  rw [handedOn.focus]
  exact inner.2 task

end Stretches

/-! ## Where a value leaves from -/

section Returning

variable {heap heap' : Heap} {decided : Next} {result : Value}

/-- A function that is not one of the program gives its result as one that leaves it. -/
theorem Task.Does.invoke_of_returning {origins : Ref → Place} {task : Task}
    (does : task.Does origins heap decided heap')
    (leaves : decided.focus = .answer (.returning result)) :
    ∃ callee receiver values, task = .invoke callee receiver values := by
  cases does with
  | eval begins => cases begins <;> cases leaves
  | builtin | external => exact ⟨_, _, _, rfl⟩
  | _ => cases leaves

/-- Else a value begins to leave at a `return`. -/
theorem Frame.Resumes.of_returning {frame : Frame} {value : Value}
    (resumes : frame.Resumes heap value decided heap')
    (leaves : decided.focus = .answer (.returning result)) :
    frame = .returns ∧ value = result ∧ decided.frames = [] := by
  cases resumes <;> cases leaves
  exact ⟨rfl, rfl, rfl⟩

theorem Moment.Move.cases_returning {moment next : Moment} (move : Move moment next)
    (leaves : next.focus = .answer (.returning result)) (waits : next.frames ≠ []) :
    (∃ callee receiver values, moment.focus = .task (.invoke callee receiver values)) ∨
      (moment.focus = .answer (.value result) ∧ moment.frames = .returns :: next.frames) ∨
        ∃ frame, (∀ line, frame ≠ .call line) ∧ moment.focus = .answer (.returning result) ∧
          moment.frames = frame :: next.frames := by
  cases move with
  | perform does =>
      rcases does.invoke_of_returning leaves with ⟨callee, receiver, values, rfl⟩
      exact .inl ⟨callee, receiver, values, rfl⟩
  | resume resumes =>
      rcases resumes.of_returning leaves with ⟨rfl, rfl, none⟩
      rw [none]
      exact .inr (.inl ⟨rfl, rfl⟩)
  | @pass value frame =>
      rcases frame.of_passed (Focus.answer.inj leaves) with ⟨inside, rfl⟩
      exact .inr (.inr ⟨frame, inside, rfl, rfl⟩)
  | refuse | reject | unwind => cases leaves
  | rest ended => exact absurd ended.1 waits

end Returning

/-- When the arguments have their values, the function is invoked, and the call waits for it. -/
theorem Task.Does.of_arguments {origins : Ref → Place} {heap heap' : Heap} {decided : Next}
    {line : Line} {callee scope : Ref} {receiver : Value} {values : List Value}
    (does : Does origins heap (.arguments line callee receiver values [] scope) decided heap') :
    decided = ⟨.task (.invoke callee receiver values), [.call line]⟩ ∧ heap' = heap := by
  cases does
  exact ⟨rfl, rfl⟩

/-- Between two moments a `return` gives its value, under the call that waits on some frames and
outside of all further calls; from then on the value only leaves. -/
def Returns (run : Nat → Moment) (line : Line) (frames : List Frame) (n m : Nat)
    (result : Value) : Prop :=
  ∃ k passed, n ≤ k ∧ k < m ∧ (run k).focus = .answer (.value result) ∧
    (run k).frames = .returns :: (passed ++ .call line :: frames) ∧
    (∀ other, .call other ∉ passed) ∧
    ∀ i, k < i → i ≤ m → (run i).focus = .answer (.returning result)

section Returns

variable {run : Nat → Moment} {line : Line} {frames : List Frame} {n m : Nat}
  (moves : ∀ k, Moment.Move (run k) (run (k + 1)))

include moves

/-- What is invoked under a call was not begun under it. -/
theorem Spans.call_not_top {i : Nat} {callee : Ref} {receiver : Value} {values : List Value}
    (spans : Spans run (.call line :: frames) n m) (after : n < i) (within : i ≤ m)
    (invokes : (run i).focus = .task (.invoke callee receiver values)) :
    ∃ other below, (run i).frames = .call other :: below ∧ .call line :: frames <:+ below := by
  rcases Nat.exists_eq_add_of_lt after with ⟨k, rfl⟩
  have busy := spans.busy (n + k) (Nat.le_add_right n k) within
  rcases (moves (n + k)).arguments_of_invoke invokes with ⟨other, scope, arguments⟩
  rcases (moves (n + k)).of_task arguments with ⟨decided, does, -, top⟩ | ⟨fault, raised, -⟩
  · refine ⟨other, (run (n + k)).frames, ?_, busy.1⟩
    rw [top, does.of_arguments.1]
    rfl
  · cases invokes.symm.trans raised

/-- The value that leaves the body of a function is that of a `return` in it. -/
theorem Lasts.returns {code : Occurrence} {scope : Ref} {result : Value}
    (lasts : Lasts run (.eval code scope) (.call line :: frames) n m)
    (leaves : (run m).focus = .answer (.returning result)) :
    Returns run line frames n m result := by
  -- the induction goes back from the end; `passed` are the frames that the value passes from `i` on
  suffices back : ∀ i passed, n ≤ i → i ≤ m → (∀ other, Frame.call other ∉ passed) →
      (run i).frames = passed ++ .call line :: frames →
      (∀ j, i ≤ j → j ≤ m → (run j).focus = .answer (.returning result)) →
        Returns run line frames n m result by
    apply back m [] lasts.spans.ordered (Nat.le_refl m) nofun lasts.spans.isOver.1
    intro j after within
    rw [Nat.le_antisymm within after]
    exact leaves
  intro i
  induction i with
  | zero =>
      intro passed after within _ _ since
      have first := since 0 (Nat.le_refl 0) within
      rw [Nat.le_zero.mp after] at lasts
      cases first.symm.trans lasts.begun
  | succ i ih =>
      intro passed after within inside under since
      have here := since (i + 1) (Nat.le_refl _) within
      have begun : n ≤ i := by
        by_contra before
        have first : i + 1 = n := by omega
        rw [first] at here
        cases here.symm.trans lasts.begun
      have waits : (run (i + 1)).frames ≠ [] := by
        rw [under]
        simp
      rcases (moves i).cases_returning here waits with
        ⟨callee, receiver, values, invokes⟩ | ⟨given, returns⟩ | ⟨frame, noCall, leaving, top⟩
      · -- the call of what was invoked is on top, and the stretch has another one under it
        have later : n < i := by
          rcases Nat.eq_or_lt_of_le begun with rfl | later
          · cases invokes.symm.trans lasts.begun
          · exact later
        rcases lasts.spans.call_not_top moves later (by omega) invokes with
          ⟨other, below, top, longer⟩
        rcases (moves i).of_task invokes with ⟨decided, does, -, still⟩ | ⟨fault, raised, -⟩
        · rw [does.of_invoke.1, List.nil_append, top, under] at still
          cases passed with
          | nil =>
              cases still
              have := longer.length_le
              rw [List.length_cons] at this
              omega
          | cons frame passed =>
              cases still
              exact absurd List.mem_cons_self (inside other)
        · cases here.symm.trans raised
      · refine ⟨i, passed, begun, within, given, under ▸ returns, inside, fun j later isEnd => ?_⟩
        exact since j later isEnd
      · apply ih (frame :: passed) begun (by omega)
        · intro other listed
          rcases List.mem_cons.mp listed with same | further
          · exact noCall other same.symm
          · exact inside other further
        · rw [top, under, List.cons_append]
        · intro j later isEnd
          rcases Nat.eq_or_lt_of_le later with rfl | more
          · exact leaving
          · exact since j more isEnd

end Returns

namespace Script

variable {script : Script} {settings : Settings} {sink : Sink} {log : Log} {n : Nat}

/-! ## The stretches of a run -/

/-- A fault that was not under way is raised by the step. -/
theorem raises_of_raise {fault : Fault}
    (raised : (script.moment settings sink log (n + 1)).focus = .raise fault)
    (fresh : ∀ earlier, (script.moment settings sink log n).focus ≠ .raise earlier) :
    (script.moment settings sink log n).Raises settings fault := by
  rw [moment_succ] at raised
  rcases Moment.raises_next raised with raises | ⟨earlier, frame, before, -⟩ | rests
  · exact raises
  · exact absurd before (fresh earlier)
  · rw [rests] at raised
    exact absurd raised (fresh fault)

/-- A fault that is raised instead of doing a task is one with which the task is refused. -/
theorem refuses_of_task {task : Task} {fault : Fault}
    (does : (script.moment settings sink log n).focus = .task task)
    (raised : (script.moment settings sink log (n + 1)).focus = .raise fault) :
    task.Refuses settings (script.moment settings sink log n).state fault := by
  have raises := raises_of_raise raised (does ▸ nofun)
  generalize script.moment settings sink log n = moment at does raises
  cases raises <;> cases does
  assumption

/-- A fault that is raised instead of going on with a value is one with which it is rejected. -/
theorem rejects_of_value {value : Value} {frame : Frame} {frames : List Frame} {fault : Fault}
    (given : (script.moment settings sink log n).focus = .answer (.value value))
    (waits : (script.moment settings sink log n).frames = frame :: frames)
    (raised : (script.moment settings sink log (n + 1)).focus = .raise fault) :
    frame.Rejects (script.moment settings sink log n).state value fault := by
  have raises := raises_of_raise raised (given ▸ nofun)
  generalize script.moment settings sink log n = moment at given waits raises
  cases raises <;> cases given
  cases waits
  assumption

/-- An evaluation for which there is no room is over at once. -/
theorem raises_of_full (full : (script.moment settings sink log n).Full settings.depth) :
    (script.moment settings sink log (n + 1)).focus = .raise .tooDeep ∧
      (script.moment settings sink log (n + 1)).frames =
        (script.moment settings sink log n).frames := by
  have raised : (script.moment settings sink log (n + 1)).focus = .raise .tooDeep := by
    rw [moment_succ]
    exact (Moment.next_of_full full).1
  rcases full with ⟨code, scope, evaluates, -⟩
  rcases (script.move_moment settings sink log n).of_task evaluates with
    ⟨decided, does, focus, -⟩ | ⟨fault, -, still, -⟩
  · exact absurd (focus.symm.trans raised) does.focus_ne_raise
  · exact ⟨raised, still⟩

/-- An evaluation that is begun comes to its end. -/
theorem exists_lasts {code : Occurrence} {scope : Ref}
    (evaluates : (script.moment settings sink log n).focus = .task (.eval code scope)) :
    ∃ m, Lasts (script.moment settings sink log) (.eval code scope)
      (script.moment settings sink log n).frames n m := by
  have moves := script.move_moment settings sink log
  have busy := Moment.busy_of_task evaluates rfl
  suffices isOver : ∃ k, (script.moment settings sink log (n + k)).Over
      (script.moment settings sink log n).frames by
    rcases isOver with ⟨k, isOver⟩
    rcases Spans.of_busy moves busy isOver with ⟨m, spans⟩
    exact ⟨m, evaluates, rfl, spans⟩
  rcases Nat.le_total (script.moment settings sink log n).frames.length settings.depth with
    room | full
  · rcases Nat.exists_eq_add_of_le room with ⟨depth, sum⟩
    have arrives := Moment.arrives_evaluator settings settings.depth depth code scope
      (script.moment settings sink log n).frames (script.moment settings sink log n).state
      (script.moment settings sink log n).origins sum.symm
    rw [← evaluates] at arrives
    rcases arrives with ⟨k, origins, reached⟩
    refine ⟨k, ?_⟩
    rw [script.moment_add, reached]
    apply Moment.over_ended
  · rcases raises_of_full ⟨code, scope, evaluates, full⟩ with ⟨raised, still⟩
    refine ⟨1, still, fun task does => ?_⟩
    cases raised.symm.trans does

end Script

end ScriptTree
