import ScriptTree.Proofs.Machine.Alone
import ScriptTree.Proofs.PlainValues

/-!
# Calls touch no other scope

An evaluation binds names in the scope in which it takes place and in the scopes of the calls that
it makes. Any other object it can write to only as the value of a receiver, and the scope of a call
is never a value (`Proofs/PlainValues.lean`). So an evaluation leaves every scope of a call alone
but its own, and an invocation leaves all of them alone that are there when it begins
(`Moment.Isolated`). When the call that made a scope is over, nothing is evaluated in the scope any
more, and it stays as it is (`Moment.Abandoned`).

The root scope is a value, `global`; outside of its own evaluations it changes through field
assignments to it (`FieldWrite`).
-/

namespace ScriptTree

/-! ## Where a step writes -/

section Written

variable {ref : Ref}

/-- A node begins with writing to its own scope, if to any. -/
theorem Occurrence.eq_of_written? {code : Occurrence} {scope : Ref}
    (written : code.written? scope = some ref) : ref = scope := by
  unfold written? at written
  split at written
  · exact (Option.some.inj written).symm
  · cases written

theorem Task.mem_scopes_of_written? {task : Task} (written : task.written? = some ref) :
    ref ∈ task.scopes := by
  cases task with
  | eval code scope => exact List.mem_singleton.mpr (Occurrence.eq_of_written? written)
  | _ => cases written

/-- A waiting evaluation writes to its own scope, or to the object of a field assignment. -/
theorem Frame.mem_scopes_of_written? {frame : Frame} (written : frame.written? = some ref) :
    ref ∈ frame.scopes ∨ ∃ name, frame = .write ref name := by
  cases frame with
  | assignment => exact .inl (List.mem_singleton.mpr (Option.some.inj written).symm)
  | write target name =>
      cases written
      exact .inr ⟨name, rfl⟩
  | _ => cases written

/-- A step writes to a scope of the moment, or to the object of a field assignment. -/
theorem Moment.mem_scopes_of_written? {moment : Moment} (written : moment.written? = some ref) :
    ref ∈ moment.scopes ∨ ∃ value name frames,
      moment.focus = .answer (.value value) ∧ moment.frames = .write ref name :: frames := by
  obtain ⟨focus, frames, state, origins⟩ := moment
  match focus, frames with
  | .task task, _ => exact .inl (List.mem_append_left _ (Task.mem_scopes_of_written? written))
  | .answer (.value value), frame :: frames =>
      rcases Frame.mem_scopes_of_written? written with scope | ⟨name, rfl⟩
      · left
        change ref ∈ frame.scopes ++ Frame.allScopes frames
        exact List.mem_append_left _ scope
      · exact .inr ⟨value, name, frames, rfl, rfl⟩
  | .answer (.value _), [] | .answer (.returning _), _ | .raise _, _ => cases written

/-- The object of a field assignment has no parent. -/
theorem Moment.Plain.parent_of_write {moment : Moment} (plain : moment.Plain) {value : Value}
    {name : String} {frames : List Frame} {object : Object}
    (answered : moment.focus = .answer (.value value))
    (top : moment.frames = .write ref name :: frames)
    (found : moment.state.heap.get? ref = some object) : object.parent = none := by
  have acts : moment.ActsOn ref := by
    obtain ⟨focus, waiting, state, origins⟩ := moment
    cases answered
    cases top
    exact .assignment
  obtain ⟨there, found', free⟩ := plain.parent_of_actsOn acts
  cases found.symm.trans found'
  exact free

end Written

namespace Moment

variable {moment next : Moment} {base : Heap} {own : Option Ref}

/-! ## An evaluation and the scopes around it -/

/-- A step leaves the scope of a call alone in which nothing is evaluated. -/
theorem Move.get?_eq (move : Move moment next) (plain : moment.Plain) {ref : Ref} {object : Object}
    (found : moment.state.heap.get? ref = some object) (inner : object.parent ≠ none)
    (outside : ref ∉ moment.scopes) : next.state.heap.get? ref = some object := by
  rw [move.steps.kept ref (Heap.lt_size_of_get? found) fun written => ?_]
  · exact found
  · rcases mem_scopes_of_written? written with scope | ⟨value, name, frames, answered, top⟩
    · exact outside scope
    · exact inner (plain.parent_of_write answered top found)

/-- An evaluation that began on the objects `base` in the scope `own`, if in one: it goes on in this
scope and in new ones, and the scopes of other calls are as they were. -/
structure Isolated (base : Heap) (own : Option Ref) (moment : Moment) : Prop where
  plain : moment.Plain
  grows : base.Grows moment.state.heap
  scopes : ∀ scope ∈ moment.scopes, own = some scope ∨ base.size ≤ scope
  kept : ∀ {ref object}, base.get? ref = some object → object.parent ≠ none → own ≠ some ref →
    moment.state.heap.get? ref = some object

theorem Move.isolated (move : Move moment next) (isolated : moment.Isolated base own) :
    next.Isolated base own where
  plain := move.plain isolated.plain
  grows := isolated.grows.trans move.steps.grows
  scopes := by
    intro scope listed
    rcases move.scopes scope listed with before | ⟨rfl, -⟩
    · exact isolated.scopes scope before
    · exact .inr isolated.grows.size_le
  kept := by
    intro ref object found inner other
    have inside := Heap.lt_size_of_get? found
    refine move.get?_eq isolated.plain (isolated.kept found inner other) inner fun listed => ?_
    exact (isolated.scopes ref listed).elim other (Nat.not_le.mpr inside)

theorem Plain.isolated_alone (plain : moment.Plain) (settings : Settings)
    (inOwn : ∀ scope ∈ moment.focus.scopes, own = some scope) (k : Nat) :
    (moment.alone settings k).Isolated moment.state.heap own := by
  have start : ({ moment with frames := [] } : Moment).Isolated moment.state.heap own := by
    refine ⟨⟨plain.heap, fun value held => ?_⟩, .refl _, fun scope listed => ?_, ?_⟩
    · rw [Moment.values, List.flatMap_nil, List.append_nil] at held
      exact plain.values value (List.mem_append_left _ held)
    · rw [Moment.scopes, Frame.allScopes, List.flatMap_nil, List.append_nil] at listed
      exact .inl (inOwn scope listed)
    · exact fun found _ _ => found
  exact holds_iterate Move.isolated start k

/-- A node is evaluated in its own scope. -/
theorem own_of_eval {code : Occurrence} {scope : Ref}
    (evaluates : moment.focus = .task (.eval code scope)) :
    ∀ own ∈ moment.focus.scopes, some scope = some own := by
  rw [evaluates]
  intro own listed
  rw [List.mem_singleton.mp listed]

end Moment

/-! ## Writes to the root scope -/

/-- Step `k` of a run writes to an object for a field assignment, whose receiver it was: the node
was begun at some step before, and its receiver had its value at some step in between. -/
def FieldWrite (run : Nat → Moment) (ref : Ref) (k : Nat) : Prop :=
  ∃ i j place line receiver name expr scope frames value, i < j ∧ j < k ∧
    (run i).focus = .task (.eval ⟨place, .fieldAssignment line receiver name expr⟩ scope) ∧
    (run i).frames = frames ∧
    (∀ l, i < l → l ≤ j →
      .target line name ⟨1 :: place, expr⟩ scope :: frames <:+ (run l).frames) ∧
    (run j).focus = .answer (.value (.obj ref)) ∧
    (run j).frames = .target line name ⟨1 :: place, expr⟩ scope :: frames ∧
    (∀ l, j < l → l ≤ k → .write ref name :: frames <:+ (run l).frames) ∧
    (run k).focus = .answer (.value value) ∧
    (run k).frames = .write ref name :: frames

section Pushes

variable {heap heap' : Heap} {next : Next}

/-- A field assignment waits for its receiver first. -/
theorem Task.Does.pushes_target {origins : Ref → Place} {task : Task} {line : Line} {name : String}
    {code : Occurrence} {scope : Ref} (does : task.Does origins heap next heap')
    (pushes : next.frames = [.target line name code scope]) :
    ∃ place receiver expr, code = ⟨1 :: place, expr⟩ ∧
      task = .eval ⟨place, .fieldAssignment line receiver name expr⟩ scope := by
  cases does with
  | eval begins => cases begins <;> cases pushes; exact ⟨_, _, _, rfl, rfl⟩
  | _ => cases pushes

theorem Task.Does.frames_ne_write {origins : Ref → Place} {task : Task} {ref : Ref} {name : String}
    (does : task.Does origins heap next heap') : next.frames ≠ [.write ref name] := by
  intro pushes
  cases does with
  | eval begins => cases begins <;> cases pushes
  | _ => cases pushes

theorem Frame.Resumes.frames_ne_target {frame : Frame} {value : Value} {line : Line}
    {name : String} {code : Occurrence} {scope : Ref}
    (resumes : frame.Resumes heap value next heap') :
    next.frames ≠ [.target line name code scope] := by
  intro pushes
  cases resumes <;> cases pushes

/-- Then it waits for its value, with the object that the receiver was. -/
theorem Frame.Resumes.pushes_write {frame : Frame} {value : Value} {ref : Ref} {name : String}
    (resumes : frame.Resumes heap value next heap') (pushes : next.frames = [.write ref name]) :
    value = .obj ref ∧ ∃ line code scope, frame = .target line name code scope := by
  cases resumes <;> cases pushes
  exact ⟨rfl, _, _, _, rfl⟩

end Pushes

/-- In a run that starts with no frames waiting, the object of a field assignment is written to for
a node of the run. -/
theorem fieldWrite_of_write {run : Nat → Moment}
    (moves : ∀ k, Moment.Move (run k) (run (k + 1))) (empty : (run 0).frames = []) {k : Nat}
    {ref : Ref} {name : String} {value : Value} {frames : List Frame}
    (answered : (run k).focus = .answer (.value value))
    (top : (run k).frames = .write ref name :: frames) : FieldWrite run ref k := by
  have absent {frame : Frame} {frames : List Frame} : ¬ frame :: frames <:+ (run 0).frames := by
    simp [empty]
  have waits : .write ref name :: frames <:+ (run k).frames := top ▸ List.suffix_refl _
  -- the frame of the write was put on when the receiver had its value
  obtain ⟨j, before, pushed, new, writes⟩ :=
    (Moment.exists_push moves waits).resolve_left absent
  rcases (moves j).pushed pushed new with
    ⟨task, decided, heap, -, -, does, pushes⟩ |
    ⟨target, waiting, decided, heap, received, under, resumes, pushes⟩
  · exact absurd pushes does.frames_ne_write
  obtain ⟨rfl, line, code, scope, rfl⟩ := resumes.pushes_write pushes
  -- and the frame that waited for the receiver, when the node was begun
  have waits : .target line name code scope :: frames <:+ (run j).frames :=
    under ▸ List.suffix_refl _
  obtain ⟨i, earlier, pushed, new, targets⟩ :=
    (Moment.exists_push moves waits).resolve_left absent
  rcases (moves i).pushed pushed new with
    ⟨task, decided, heap, begun, bottom, does, pushes⟩ |
    ⟨value, waiting, decided, heap, -, -, resumes, pushes⟩
  · obtain ⟨place, receiver, expr, rfl, rfl⟩ := does.pushes_target pushes
    exact ⟨i, j, place, line, receiver, name, expr, scope, frames, value, earlier, before, begun,
      bottom, targets, received, under, writes, answered, top⟩
  · exact absurd pushes resumes.frames_ne_target

/-- An evaluation outside of the root scope changes it through field assignments only. -/
theorem Moment.Plain.fieldWrite_root {moment : Moment} (plain : moment.Plain) (settings : Settings)
    {code : Occurrence} {scope : Ref} (evaluates : moment.focus = .task (.eval code scope))
    (inner : scope ≠ Heap.root) {k : Nat}
    (changes : (moment.alone settings (k + 1)).state.heap.get? Heap.root ≠
      (moment.alone settings k).state.heap.get? Heap.root) :
    FieldWrite (moment.alone settings) Heap.root k := by
  have isolated := plain.isolated_alone settings (own_of_eval evaluates) k
  obtain ⟨fields, rooted⟩ := plain.heap.rooted
  have outside : Heap.root ∉ (moment.alone settings k).scopes := fun listed =>
    (isolated.scopes _ listed).elim (fun same => inner (Option.some.inj same))
      (Nat.not_le.mpr (Heap.lt_size_of_get? rooted))
  obtain ⟨fields', here⟩ := isolated.grows rooted
  have written : (moment.alone settings k).written? = some Heap.root := by
    by_contra other
    exact changes ((move_alone settings moment k).steps.kept _ (Heap.lt_size_of_get? here) other)
  obtain ⟨value, name, frames, answered, top⟩ :=
    (mem_scopes_of_written? written).resolve_left outside
  exact fieldWrite_of_write (move_alone settings moment) rfl answered top

/-! ## Scopes of calls that are over -/

namespace Moment

variable {moment next : Moment} {ref : Ref} {object : Object}

/-- The scope of a call was there before a step, or the step begins the call. -/
theorem Move.created (move : Move moment next) (found : next.state.heap.get? ref = some object)
    (inner : object.parent ≠ none) :
    (∃ before, moment.state.heap.get? ref = some before ∧ before.parent ≠ none) ∨
      ref = moment.state.heap.size ∧
        ∃ callee receiver values, moment.focus = .task (.invoke callee receiver values) := by
  rcases move.cases_get? found with ⟨before, there, same⟩ | ⟨last, task, does, adds⟩
  · rw [same] at inner
    exact .inl ⟨before, there, inner⟩
  · cases adds with
    | scope => exact .inr ⟨last, _, _, _, does⟩
    | record | closure => exact absurd rfl inner

/-- Nothing is evaluated in a scope of a call any more. -/
structure Abandoned (ref : Ref) (object : Object) (moment : Moment) : Prop where
  plain : moment.Plain
  found : moment.state.heap.get? ref = some object
  inner : object.parent ≠ none
  outside : ref ∉ moment.scopes

/-- A scope that is there and in which nothing is evaluated is not evaluated in again. -/
theorem Move.not_mem_scopes (move : Move moment next) (inside : ref < moment.state.heap.size)
    (outside : ref ∉ moment.scopes) : ref ∉ next.scopes := by
  intro listed
  rcases move.scopes ref listed with before | ⟨new, -⟩
  · exact outside before
  · exact absurd new (Nat.ne_of_lt inside)

theorem Move.abandoned (move : Move moment next) (abandoned : moment.Abandoned ref object) :
    next.Abandoned ref object where
  plain := move.plain abandoned.plain
  found := move.get?_eq abandoned.plain abandoned.found abandoned.inner abandoned.outside
  inner := abandoned.inner
  outside := move.not_mem_scopes (Heap.lt_size_of_get? abandoned.found) abandoned.outside

/-- Frames wait on while a task is done. -/
theorem Move.suffix_of_task (move : Move moment next) {task : Task}
    (does : moment.focus = .task task) : moment.frames <:+ next.frames := by
  cases move with
  | perform => exact List.suffix_append _ _
  | refuse | rest => exact List.suffix_refl _
  | resume | reject | pass | unwind => cases does

/-- Frames wait on through a step, or the step is on their top. -/
theorem Move.suffix_or_top (move : Move moment next) {waiting : List Frame}
    (waits : waiting <:+ moment.frames) :
    waiting <:+ next.frames ∨ moment.scopes = Frame.allScopes waiting := by
  cases move with
  | perform => exact .inl (waits.trans (List.suffix_append _ _))
  | refuse | rest => exact .inl waits
  | resume =>
      rcases List.suffix_cons_iff.mp waits with rfl | below
      · exact .inr rfl
      · exact .inl (below.trans (List.suffix_append _ _))
  | reject | pass | unwind =>
      rcases List.suffix_cons_iff.mp waits with rfl | below
      · exact .inr rfl
      · exact .inl below

/-- The scope of a call is there, and the call is evaluated under frames that wait for it, or
nothing is evaluated in its scope. -/
structure During (ref : Ref) (waiting : List Frame) (moment : Moment) : Prop where
  there : ∃ object, moment.state.heap.get? ref = some object ∧ object.parent ≠ none
  waitsOrLeft : waiting <:+ moment.frames ∨ ref ∉ moment.scopes

theorem Move.during {waiting : List Frame} (older : ref ∉ Frame.allScopes waiting)
    (move : Move moment next) (during : moment.During ref waiting) : next.During ref waiting := by
  obtain ⟨⟨object, found, inner⟩, waitsOrLeft⟩ := during
  have inside := Heap.lt_size_of_get? found
  obtain ⟨fields, later⟩ := move.steps.grows found
  refine ⟨⟨_, later, inner⟩, ?_⟩
  rcases waitsOrLeft with waits | outside
  · rcases move.suffix_or_top waits with still | top
    · exact .inl still
    · exact .inr (move.not_mem_scopes inside (top ▸ older))
  · exact .inr (move.not_mem_scopes inside outside)

/-- When frames wait no more that waited for a call, the call is over. -/
theorem During.abandoned {waiting : List Frame} (during : moment.During ref waiting)
    (plain : moment.Plain) (gone : moment.frames.length < waiting.length) :
    ∃ object, moment.Abandoned ref object := by
  obtain ⟨⟨object, found, inner⟩, waitsOrLeft⟩ := during
  have outside := waitsOrLeft.resolve_left fun waits => Nat.not_le.mpr gone waits.length_le
  exact ⟨object, plain, found, inner, outside⟩

/-- The scopes of a moment are there. -/
theorem Move.scopes_lt_size (move : Move moment next)
    (inside : ∀ scope ∈ moment.scopes, scope < moment.state.heap.size) :
    ∀ scope ∈ next.scopes, scope < next.state.heap.size := by
  intro scope listed
  rcases move.scopes scope listed with before | ⟨rfl, larger⟩
  · exact Nat.lt_of_lt_of_le (inside scope before) move.steps.grows.size_le
  · exact larger

end Moment

/-! ## The scopes of a run -/

namespace Script

variable (script : Script) (settings : Settings) (sink : Sink) (log : Log)

theorem scopes_moment_lt_size (n : Nat) :
    ∀ scope ∈ (script.moment settings sink log n).scopes,
      scope < (script.moment settings sink log n).state.heap.size := by
  refine holds_from (P := fun moment => ∀ scope ∈ moment.scopes, scope < moment.state.heap.size)
    Moment.Move.scopes_lt_size (Nat.zero_le n) fun scope listed => ?_
  rw [List.mem_singleton.mp listed]
  exact Heap.lt_size_of_get? (Heap.get?_initial_root settings)

variable {script settings sink log}

/-- The scope of a call was made when the call was entered. -/
theorem exists_entry {n : Nat} {ref : Ref} {object : Object}
    (found : (script.moment settings sink log n).state.heap.get? ref = some object)
    (inner : object.parent ≠ none) :
    ∃ m < n, (∃ callee receiver values,
        (script.moment settings sink log m).focus = .task (.invoke callee receiver values)) ∧
      (script.moment settings sink log m).state.heap.size = ref ∧
      ∃ entered, (script.moment settings sink log (m + 1)).state.heap.get? ref = some entered ∧
        entered.parent ≠ none := by
  induction n generalizing object with
  | zero =>
      rcases Heap.eq_of_get?_initial found with rfl | ⟨builtin, rfl⟩
      · cases (Heap.get?_initial_root settings).symm.trans found
        exact absurd rfl inner
      · exact absurd rfl inner
  | succ n ih =>
      rcases (script.move_moment settings sink log n).created found inner with
        ⟨before, earlier, inner⟩ | ⟨rfl, entry⟩
      · obtain ⟨m, le, rest⟩ := ih earlier inner
        exact ⟨m, Nat.lt_succ_of_lt le, rest⟩
      · exact ⟨n, Nat.lt_succ_self n, entry, rfl, object, found, inner⟩

/-- When the call is over that made a scope, the scope stays as it is. -/
theorem get?_eq_of_over {m l k : Nat} {callee ref : Ref} {receiver : Value} {values : List Value}
    {entered : Object}
    (entry : (script.moment settings sink log m).focus = .task (.invoke callee receiver values))
    (size : (script.moment settings sink log m).state.heap.size = ref)
    (found : (script.moment settings sink log (m + 1)).state.heap.get? ref = some entered)
    (inner : entered.parent ≠ none) (after : m < l)
    (gone : (script.moment settings sink log l).frames.length <
      (script.moment settings sink log m).frames.length) (later : l ≤ k) :
    (script.moment settings sink log k).state.heap.get? ref =
      (script.moment settings sink log l).state.heap.get? ref := by
  have older : ref ∉ Frame.allScopes (script.moment settings sink log m).frames := by
    intro listed
    have inside := script.scopes_moment_lt_size settings sink log m ref
      (List.mem_append_right _ listed)
    exact absurd size (Nat.ne_of_gt inside)
  have start : (script.moment settings sink log (m + 1)).During ref
      (script.moment settings sink log m).frames :=
    ⟨⟨entered, found, inner⟩, .inl ((script.move_moment settings sink log m).suffix_of_task entry)⟩
  obtain ⟨object, abandoned⟩ := (holds_from (Moment.Move.during older) after start).abandoned
    (script.plain_moment settings sink log l) gone
  have still := holds_from Moment.Move.abandoned later abandoned
  exact still.found.trans abandoned.found.symm

variable (script settings sink log)

/-- At every moment of a run:
* an evaluation leaves every scope of a call but its own as it is, in whichever way it ends, and if
  it is not one in the root scope, then each of its steps that changes the root scope is a field
  assignment to it;
* an invocation leaves every scope of a call as it is, in whichever way it ends;
* a scope of a call was made when the call was entered, and once the frame of the call is gone, it
  stays as it is. -/
theorem scopes_isolated (n : Nat) :
    (∀ code scope,
      (script.moment settings sink log n).focus = .task (.eval code scope) →
        (∀ ref object, (script.moment settings sink log n).state.heap.get? ref = some object →
          object.parent ≠ none → ref ≠ scope →
            (((script.moment settings sink log n).evaluator settings code.node scope).final
              (script.moment settings sink log n).state).heap.get? ref = some object) ∧
        (∃ last, ((script.moment settings sink log n).alone settings last).Ended ∧
          ((script.moment settings sink log n).alone settings last).state =
            ((script.moment settings sink log n).evaluator settings code.node scope).final
              (script.moment settings sink log n).state) ∧
        (scope ≠ Heap.root → ∀ k,
          ((script.moment settings sink log n).alone settings (k + 1)).state.heap.get? Heap.root ≠
            ((script.moment settings sink log n).alone settings k).state.heap.get? Heap.root →
          FieldWrite ((script.moment settings sink log n).alone settings) Heap.root k)) ∧
    (∀ callee receiver values,
      (script.moment settings sink log n).focus = .task (.invoke callee receiver values) →
        ∀ ref object, (script.moment settings sink log n).state.heap.get? ref = some object →
          object.parent ≠ none →
            ((Eval.invoke ((script.moment settings sink log n).evaluator settings)
              callee receiver values).final
                (script.moment settings sink log n).state).heap.get? ref = some object) ∧
    ∀ ref object, (script.moment settings sink log n).state.heap.get? ref = some object →
      object.parent ≠ none →
        ∃ m < n, (∃ callee receiver values,
            (script.moment settings sink log m).focus = .task (.invoke callee receiver values)) ∧
          (script.moment settings sink log m).state.heap.size = ref ∧
          ∀ l > m, (script.moment settings sink log l).frames.length <
              (script.moment settings sink log m).frames.length →
            ∀ k ≥ l, (script.moment settings sink log k).state.heap.get? ref =
              (script.moment settings sink log l).state.heap.get? ref := by
  have plain := script.plain_moment settings sink log n
  refine ⟨fun code scope evaluates => ⟨fun ref object found inner other => ?_, ?_, ?_⟩,
    fun callee receiver values invokes ref object found inner => ?_,
    fun ref object found inner => ?_⟩
  · obtain ⟨last, -, same⟩ := Moment.exists_alone_evaluated settings evaluates
    have isolated := plain.isolated_alone settings (Moment.own_of_eval evaluates) last
    rw [← same]
    exact isolated.kept found inner fun own => other (Option.some.inj own).symm
  · exact Moment.exists_alone_evaluated settings evaluates
  · exact fun outside k changes => plain.fieldWrite_root settings evaluates outside changes
  · obtain ⟨last, -, same⟩ := Moment.exists_alone_invoked settings invokes
    have inOwn : ∀ own ∈ (script.moment settings sink log n).focus.scopes, none = some own := by
      rw [invokes]
      exact fun own listed => absurd listed List.not_mem_nil
    have isolated := plain.isolated_alone settings inOwn last
    rw [← same]
    exact isolated.kept found inner nofun
  · obtain ⟨m, before, entry, size, entered, there, inner⟩ := exists_entry found inner
    refine ⟨m, before, entry, size, fun l after gone k later => ?_⟩
    obtain ⟨callee, receiver, values, entry⟩ := entry
    exact get?_eq_of_over entry size there inner after gone later

end Script

end ScriptTree
