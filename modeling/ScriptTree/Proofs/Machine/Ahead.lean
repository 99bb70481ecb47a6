import ScriptTree.Proofs.Nodes
import ScriptTree.Proofs.ScopeNames

/-!
# What is left to evaluate

The nodes that a moment has ahead are those of the code that it holds, with all nodes below them
(`Moment.ahead`). As long as the functions that there are are those of the language, no step leads
into another part of the program: what a step has ahead was ahead before it, each node once, and the
node that the step begins is not among them any more (`Moment.Move.sublist_ahead`). So a run that
starts with every place once ahead evaluates no node twice (`eq_of_eval_of_moves`), and the nodes
ahead pay for its steps, so that it comes to its end (`ended_of_moves`). No more evaluations wait
for a node than nodes stand above it (`Moment.Shallow`).

That no other functions come into being is kept by every step as long as no function is ahead
(`Moment.Functionless`): a function can be called by way of any variable, field or argument, but it
is made by the evaluation of its node alone.
-/

namespace ScriptTree

/-! ## The nodes ahead -/

/-- The nodes of some code, with all nodes below them. -/
def nodesOf (codes : List (Occurrence × Ref)) : List Occurrence :=
  codes.flatMap (·.1.nodes)

/-- The node that a task begins to evaluate. -/
def Task.evaluated? : Task → Option Occurrence
  | .eval code _ => some code
  | _ => none

namespace Moment

/-- The nodes that a moment may still evaluate if it calls no function of the program. -/
def ahead (moment : Moment) : List Occurrence :=
  nodesOf moment.codes

/-- The node that the next step begins to evaluate. -/
def evaluated? (moment : Moment) : Option Occurrence :=
  match moment.focus with
  | .task task => task.evaluated?
  | _ => none

end Moment

theorem nodesOf_append (first second : List (Occurrence × Ref)) :
    nodesOf (first ++ second) = nodesOf first ++ nodesOf second :=
  List.flatMap_append

theorem nodesOf_cons (code : Occurrence) (scope : Ref) (codes : List (Occurrence × Ref)) :
    nodesOf ((code, scope) :: codes) = code.nodes ++ nodesOf codes :=
  List.flatMap_cons

theorem nodesOf_map (codes : List Occurrence) (scope : Ref) :
    nodesOf (codes.map (·, scope)) = codes.flatMap Occurrence.nodes :=
  List.flatMap_map _ _ _

theorem mem_nodesOf {held : Occurrence × Ref} {codes : List (Occurrence × Ref)}
    (listed : held ∈ codes) : held.1 ∈ nodesOf codes :=
  List.mem_flatMap.mpr ⟨held, listed, held.1.self_mem_nodes⟩

/-! ## Functions of the language only -/

namespace Heap

/-- The functions among the objects are those of the language, each where it was at the start. -/
def OnlyBuiltins (settings : Settings) (heap : Heap) : Prop :=
  ∀ {ref body}, (heap.get? ref).bind Object.body = some body →
    ∃ builtin : Builtin, body = .builtin builtin ∧
      (initial settings).get? ref = some (.function builtin.name (.builtin builtin))

theorem onlyBuiltins_initial (settings : Settings) : (initial settings).OnlyBuiltins settings := by
  intro ref body has
  obtain ⟨object, found, has⟩ := Option.bind_eq_some_iff.mp has
  rcases eq_of_get?_initial found with rfl | ⟨builtin, rfl⟩
  · obtain rfl := Option.some.inj (found.symm.trans (get?_initial_root settings))
    cases has
  · exact ⟨builtin, (Option.some.inj has).symm, found⟩

theorem OnlyBuiltins.body_ne_closure {settings : Settings} {heap : Heap}
    (builtins : heap.OnlyBuiltins settings) (ref : Ref) (lambda : Lambda) (scope : Ref) :
    (heap.get? ref).bind Object.body ≠ some (.closure lambda scope) := by
  intro has
  obtain ⟨builtin, same, -⟩ := builtins has
  cases same

end Heap

section Parts

variable {heap heap' : Heap} {next : Next}

/-- A node goes on with nodes below it, each of them once. -/
theorem Occurrence.Begins.sublist {scope : Ref} {place : Place} {node : Expr}
    (begins : Begins heap scope place node next heap') :
    (nodesOf next.codes).Sublist ((parts ⟨place, node⟩).flatMap nodes) := by
  cases begins with
  | literal | var | anonymous | named => exact List.nil_sublist _
  | block =>
      rw [Next.codes_go, Task.codes, nodesOf_map]
      exact List.Sublist.refl _
  | @record line fields =>
      have same : ((Occurrence.named ⟨place, .record line fields⟩ 0 fields).map (·.2, scope)) =
          (parts ⟨place, .record line fields⟩).map (·, scope) := by
        rw [parts, Expr.parts, ← map_named, List.map_map]
        rfl
      rw [Next.codes_go, Task.codes, same, nodesOf_map]
  | assignment | returns | field | fieldAssignment =>
      rw [Next.codes_eval]
      exact List.Sublist.refl _
  | call | methodCall =>
      rw [Next.codes_eval, nodesOf_cons, Frame.codes, nodesOf_map]
      exact List.Sublist.refl _
  | @branch line condition onTrue onFalse =>
      -- the blocks themselves are passed over
      have elements (i : Nat) (body : Block Expr) :
          ((children ⟨i :: place, .block body⟩ 0 body.instrs).flatMap nodes).Sublist
            (nodes ⟨i :: place, .block body⟩) := by
        rw [nodes_eq ⟨i :: place, .block body⟩]
        exact List.sublist_cons_self _ _
      rw [Next.codes_eval, nodesOf_cons, Frame.codes, nodesOf_map, List.flatMap_append]
      refine (List.Sublist.refl _).append ((elements 1 onTrue).append ?_)
      exact (elements 2 onFalse).trans (List.sublist_append_left _ _)

/-- A task goes on with what it has ahead, each node once and without the one that it begins. -/
theorem Task.Does.sublist {origins : Ref → Place} {task : Task} {settings : Settings}
    (does : task.Does origins heap next heap') (builtins : heap.OnlyBuiltins settings) :
    (task.evaluated?.toList ++ nodesOf next.codes).Sublist (nodesOf task.codes) := by
  cases does with
  | @eval place node scope _ _ begins =>
      rw [Task.codes, nodesOf_cons, Occurrence.nodes_eq]
      exact (begins.sublist.cons_cons _).trans (List.sublist_append_left _ _)
  | noElement | record | call | builtin | external => exact List.nil_sublist _
  | element | field | argument =>
      rw [Next.codes_eval]
      exact List.Sublist.refl _
  | closure body => exact absurd body (builtins.body_ne_closure _ _ _)

/-- A waiting evaluation goes on with what it holds, or with less. -/
theorem Frame.Resumes.sublist {frame : Frame} {value : Value}
    (resumes : frame.Resumes heap value next heap') :
    (nodesOf next.codes).Sublist (nodesOf frame.codes) := by
  cases resumes with
  | element | initializer | callee | receiver | argument =>
      rw [Next.codes_go]
      exact List.Sublist.refl _
  | target =>
      rw [Next.codes_eval]
      exact List.Sublist.refl _
  | @condition line onTrue onFalse scope n =>
      rw [Next.codes_go, Task.codes, Frame.codes, nodesOf_map, nodesOf_map, List.flatMap_append]
      split
      · exact List.sublist_append_right _ _
      · exact List.sublist_append_left _ _
  | assignment | returns | field | write | call => exact List.nil_sublist _

end Parts

/-- The node that a task begins with is ahead before. -/
theorem Task.sublist_evaluated? (task : Task) :
    task.evaluated?.toList.Sublist (nodesOf task.codes) := by
  cases task with
  | eval code scope => exact List.singleton_sublist.mpr (mem_nodesOf List.mem_cons_self)
  | _ => exact List.nil_sublist _

namespace Moment

/-- No function of a program is ahead, and none is among the objects. -/
structure Functionless (settings : Settings) (moment : Moment) : Prop where
  ahead : ∀ code ∈ moment.ahead, code.node.isFunction = false
  builtins : moment.state.heap.OnlyBuiltins settings

variable {settings : Settings} {moment next : Moment}

theorem ahead_mk (focus : Focus) (frames : List Frame) (state : State) (origins : Ref → Place) :
    ahead ⟨focus, frames, state, origins⟩ =
      nodesOf focus.codes ++ nodesOf (frames.flatMap Frame.codes) :=
  nodesOf_append _ _

theorem mem_ahead_of_eval {code : Occurrence} {scope : Ref}
    (evaluates : moment.focus = .task (.eval code scope)) : code ∈ moment.ahead := by
  obtain ⟨focus, frames, state, origins⟩ := moment
  cases evaluates
  exact mem_nodesOf List.mem_cons_self

/-- What a step has ahead was ahead before it, each node once, and the node that the step begins is
not among them any more. -/
theorem Move.sublist_ahead (move : Move moment next)
    (builtins : moment.state.heap.OnlyBuiltins settings) :
    (moment.evaluated?.toList ++ next.ahead).Sublist moment.ahead := by
  cases move with
  | perform does =>
      rw [ahead, codes_append, nodesOf_append, ← List.append_assoc, ahead_mk]
      exact (does.sublist builtins).append (List.Sublist.refl _)
  | @refuse task =>
      rw [ahead_mk, ahead_mk]
      exact task.sublist_evaluated?.append (List.Sublist.refl _)
  | @resume value frame frames state state' origins decided resumes =>
      rw [ahead, codes_append, nodesOf_append, ahead_mk, List.flatMap_cons, nodesOf_append]
      exact resumes.sublist.append (List.Sublist.refl _)
  | @reject _ frame | @pass _ frame | @unwind _ frame =>
      rw [ahead_mk, ahead_mk, List.flatMap_cons, nodesOf_append]
      exact List.sublist_append_right _ _
  | rest ended =>
      have nothing : moment.evaluated? = none := by
        unfold evaluated?
        split
        · exact absurd ‹_› (ended.2 _)
        · rfl
      rw [nothing]
      exact List.Sublist.refl _

/-- Without a function ahead no step makes one. -/
theorem Move.functionless (move : Move moment next) (functionless : moment.Functionless settings) :
    next.Functionless settings where
  ahead code listed := by
    have fewer := (List.sublist_append_right _ _).trans (move.sublist_ahead functionless.builtins)
    exact functionless.ahead code (fewer.subset listed)
  builtins {ref body} has := by
    obtain ⟨object, found, has⟩ := Option.bind_eq_some_iff.mp has
    rcases move.cases_get? found with ⟨before, there, same⟩ | ⟨-, task, does, adds⟩
    · refine functionless.builtins (Option.bind_eq_some_iff.mpr ⟨before, there, ?_⟩)
      rw [same] at has
      exact has
    · cases adds with
      | closure => cases functionless.ahead _ (mem_ahead_of_eval does)
      | record | scope => cases has

end Moment

section Runs

variable {settings : Settings} {run : Nat → Moment} (moves : ∀ k, (run k).Move (run (k + 1)))
  (start : (run 0).Functionless settings)

include moves start

theorem functionless_of_moves (n : Nat) : (run n).Functionless settings := by
  induction n with
  | zero => exact start
  | succ n ih => exact (moves n).functionless ih

/-- In the course of a run nothing comes to what is ahead. -/
theorem sublist_ahead_of_moves {n m : Nat} (later : n ≤ m) :
    (run m).ahead.Sublist (run n).ahead := by
  induction later with
  | refl => exact List.Sublist.refl _
  | @step m _ ih =>
      have step := (moves m).sublist_ahead (functionless_of_moves moves start m).builtins
      exact ((List.sublist_append_right _ _).trans step).trans ih

/-- What has been evaluated is not ahead any more. -/
theorem not_lt_of_eval (nodup : ((run 0).ahead.map Occurrence.place).Nodup) {n m : Nat}
    {first second : Occurrence} {scope scope' : Ref}
    (evaluates : (run n).focus = .task (.eval first scope))
    (evaluates' : (run m).focus = .task (.eval second scope'))
    (same : first.place = second.place) : ¬ n < m := by
  intro earlier
  have begun : (run n).evaluated? = some first := by
    rw [Moment.evaluated?, evaluates]
    rfl
  have step := (moves n).sublist_ahead (functionless_of_moves moves start n).builtins
  rw [begun] at step
  have sinceStart := step.trans (sublist_ahead_of_moves moves start (Nat.zero_le n))
  have once := (sinceStart.map Occurrence.place).nodup nodup
  have later := (sublist_ahead_of_moves moves start earlier).subset
    (Moment.mem_ahead_of_eval evaluates')
  exact (List.nodup_cons.mp once).1 (same ▸ List.mem_map_of_mem later)

/-- A run that has every place once ahead at its beginning evaluates no node twice. -/
theorem eq_of_eval_of_moves (nodup : ((run 0).ahead.map Occurrence.place).Nodup) {n m : Nat}
    {first second : Occurrence} {scope scope' : Ref}
    (evaluates : (run n).focus = .task (.eval first scope))
    (evaluates' : (run m).focus = .task (.eval second scope'))
    (same : first.place = second.place) : n = m :=
  Nat.le_antisymm
    (Nat.not_lt.mp (not_lt_of_eval moves start nodup evaluates' evaluates same.symm))
    (Nat.not_lt.mp (not_lt_of_eval moves start nodup evaluates evaluates' same))

end Runs

/-! ## What is left to do -/

/-! The weights are such that every step weighs less than what it starts from: the rest of a list
weighs more than the frame that waits for its first element, and less than this frame and its value
together. Six is more than any node begins with. -/

/-- How many steps a task may take apart from the evaluation of nodes. -/
def Task.weight : Task → Nat
  | .eval .. => 0
  | .elements .. | .fields .. | .arguments .. => 5
  | .invoke .. => 3

/-- How many steps a focus may take apart from the evaluation of nodes. -/
def Focus.weight : Focus → Nat
  | .task task' => task'.weight
  | .answer _ | .raise _ => 2

/-- How many steps a waiting evaluation may take when it has its value. -/
def Frame.weight : Frame → Nat
  | .call _ => 1
  | _ => 4

/-- The weight of frames. -/
def Frame.totalWeight : List Frame → Nat
  | [] => 0
  | frame :: frames => frame.weight + totalWeight frames

/-- The weight of what an action decides on. -/
def Next.weight (next : Next) : Nat :=
  next.focus.weight + Frame.totalWeight next.frames

namespace Moment

/-- How many steps may be taken for what has begun at a moment. -/
def weight (moment : Moment) : Nat :=
  moment.focus.weight + Frame.totalWeight moment.frames

/-- How many steps a moment may be away from its end: six for each node ahead, and those of what has
begun. -/
def work (moment : Moment) : Nat :=
  6 * moment.ahead.length + moment.weight

end Moment

section Weights

variable {heap heap' : Heap} {next : Next}

@[simp] theorem Frame.totalWeight_append (first second : List Frame) :
    totalWeight (first ++ second) = totalWeight first + totalWeight second := by
  induction first with
  | nil => exact (Nat.zero_add _).symm
  | cons frame first ih => rw [List.cons_append, totalWeight, ih, totalWeight, Nat.add_assoc]

@[simp] theorem Next.weight_eval (frame : Frame) (code : Occurrence) (scope : Ref) :
    (Next.eval frame code scope).weight = frame.weight := by
  simp [weight, eval, Focus.weight, Task.weight, Frame.totalWeight]

@[simp] theorem Next.weight_go (task : Task) : (Next.go task).weight = task.weight := rfl

@[simp] theorem Next.weight_value (result : Value) : (Next.value result).weight = 2 := rfl

@[simp] theorem Next.weight_returning (result : Value) : (Next.returning result).weight = 2 := rfl

theorem Frame.weight_pos (frame : Frame) : 0 < frame.weight := by
  cases frame <;> exact Nat.succ_pos _

/-- Each step of a task is paid for by the task, or by the node that it begins with. -/
theorem Task.Does.weight_lt {origins : Ref → Place} {task : Task}
    (does : task.Does origins heap next heap') :
    next.weight < 6 * task.evaluated?.toList.length + task.weight := by
  cases does with
  | eval begins => cases begins <;> simp [Task.weight, Frame.weight, Task.evaluated?]
  | call =>
      simp [Next.weight, Focus.weight, Frame.totalWeight, Frame.weight, Task.weight,
        Task.evaluated?]
  | _ => simp [Task.weight, Frame.weight, Task.evaluated?]

/-- Each step of a waiting evaluation is paid for by it and by its value. -/
theorem Frame.Resumes.weight_lt {frame : Frame} {value : Value}
    (resumes : frame.Resumes heap value next heap') : next.weight < 2 + frame.weight := by
  cases resumes <;> simp [Task.weight, Frame.weight]

end Weights

namespace Moment

variable {settings : Settings} {moment next : Moment}

/-- Each step is paid for by what has begun, or by the node that it begins with. -/
theorem Move.weight_lt (move : Move moment next) (goesOn : ¬ moment.Ended) :
    next.weight < 6 * moment.evaluated?.toList.length + moment.weight := by
  cases move with
  | @perform task frames state state' origins decided does =>
      have paid := does.weight_lt
      simp only [weight, Next.weight, evaluated?, Focus.weight, Frame.totalWeight_append] at paid ⊢
      omega
  | @refuse task =>
      cases task <;> simp [weight, Focus.weight, Task.weight, evaluated?, Task.evaluated?]
  | resume resumes =>
      have paid := resumes.weight_lt
      simp only [weight, Next.weight, Focus.weight, Frame.totalWeight_append, Frame.totalWeight]
        at paid ⊢
      omega
  | @reject _ frame | @pass _ frame | @unwind _ frame =>
      have paid := frame.weight_pos
      simp only [weight, Focus.weight, Frame.totalWeight]
      omega
  | rest ended => exact absurd ended goesOn

/-- With every step there is less to do. -/
theorem Move.work_lt (move : Move moment next) (builtins : moment.state.heap.OnlyBuiltins settings)
    (goesOn : ¬ moment.Ended) : next.work < moment.work := by
  have fewer := (move.sublist_ahead builtins).length_le
  have paid := move.weight_lt goesOn
  rw [List.length_append] at fewer
  unfold work
  omega

/-- At every moment there is something left to do, or to hand on. -/
theorem work_pos (moment : Moment) : 0 < moment.work := by
  cases focus : moment.focus with
  | task task =>
      cases task with
      | eval code scope =>
          have listed := List.length_pos_of_mem (mem_ahead_of_eval focus)
          unfold work
          omega
      | _ =>
          simp only [work, weight, focus, Focus.weight, Task.weight]
          omega
  | _ =>
      simp only [work, weight, focus, Focus.weight]
      omega

end Moment

section Runs

variable {settings : Settings} {run : Nat → Moment} (moves : ∀ k, (run k).Move (run (k + 1)))
  (start : (run 0).Functionless settings)

include moves start

/-- A run comes to its end, in as many steps as it has to do at its beginning. -/
theorem ended_of_moves : (run (run 0).work).Ended := by
  have less (n : Nat) : (run n).Ended ∨ (run n).work + n ≤ (run 0).work := by
    induction n with
    | zero => exact .inr (Nat.le_refl _)
    | succ n ih =>
        by_cases ended : (run n).Ended
        · exact .inl ((moves n).eq_of_ended ended ▸ ended)
        · have step := (moves n).work_lt (functionless_of_moves moves start n).builtins ended
          have before := ih.resolve_left ended
          exact .inr (by omega)
  have some := (run (run 0).work).work_pos
  exact (less _).resolve_right (by omega)

end Runs

/-! ## How deep evaluations are nested -/

/-- The nodes of a task stand below more nodes than evaluations wait for the task. One that is next
adds an evaluation itself. -/
def Task.Shallow (waiting : Nat) : Task → Prop
  | .eval code _ => waiting ≤ code.place.length
  | task => ∀ held ∈ task.codes, waiting < held.1.place.length

/-- The nodes of a waiting evaluation stand below more nodes than other evaluations wait for it. -/
def Frame.Shallow (waiting : Nat) (frame : Frame) : Prop :=
  ∀ held ∈ frame.codes, waiting < held.1.place.length

/-- What is decided on, under some evaluations that wait, is shallow below them. -/
structure Next.Shallow (waiting : Nat) (next : Next) : Prop where
  task : ∀ {task}, next.focus = .task task → task.Shallow (next.frames.length + waiting)
  frames : ∀ frame ∈ next.frames, frame.Shallow waiting

/-- At most as many evaluations wait for a node as nodes stand above it. -/
structure Moment.Shallow (moment : Moment) : Prop where
  task : ∀ {task}, moment.focus = .task task → task.Shallow moment.frames.length
  frames : ∀ {frame frames}, frame :: frames <:+ moment.frames → frame.Shallow frames.length

section Parts

variable {heap heap' : Heap} {next : Next} {waiting : Nat}

theorem Next.Shallow.eval {frame : Frame} {code : Occurrence} {scope : Ref}
    (codes : ∀ held ∈ (Next.eval frame code scope).codes, waiting < held.1.place.length) :
    (Next.eval frame code scope).Shallow waiting := by
  rw [Next.codes_eval, List.forall_mem_cons] at codes
  refine ⟨fun decided => ?_, List.forall_mem_singleton.mpr codes.2⟩
  cases decided
  have below : waiting < code.place.length := codes.1
  change 0 + 1 + waiting ≤ code.place.length
  omega

theorem Next.Shallow.go {task : Task} (shallow : task.Shallow waiting) :
    (Next.go task).Shallow waiting where
  task decided := by
    cases decided
    rw [Next.go, List.length_nil, Nat.zero_add]
    exact shallow
  frames := nofun

theorem Next.Shallow.answer (completion : Completion Value) :
    Next.Shallow waiting ⟨.answer completion, []⟩ where
  task := nofun
  frames := nofun

/-- The nodes that a node begins with stand below it. -/
theorem Occurrence.Begins.length_lt {scope : Ref} {place : Place} {node : Expr}
    (begins : Begins heap scope place node next heap') :
    ∀ held ∈ next.codes, place.length < held.1.place.length := by
  intro held listed
  obtain ⟨part, isPart, below⟩ := List.mem_flatMap.mp (begins.sublist.subset (mem_nodesOf listed))
  obtain ⟨i, placed, -⟩ := mem_parts_iff.mp isPart
  have longer := (suffix_of_mem_nodes below).length_le
  rw [placed, List.length_cons] at longer
  exact longer

theorem Task.Does.shallow {origins : Ref → Place} {task : Task} {settings : Settings}
    (does : task.Does origins heap next heap') (builtins : heap.OnlyBuiltins settings)
    (shallow : task.Shallow waiting) : next.Shallow waiting := by
  cases does with
  | @eval place node scope _ _ begins =>
      have room : waiting ≤ place.length := shallow
      have inside (held) (listed : held ∈ next.codes) : waiting < held.1.place.length :=
        Nat.lt_of_le_of_lt room (begins.length_lt held listed)
      cases begins with
      | literal | var | anonymous | named => exact .answer _
      | block | record =>
          rw [Next.codes_go] at inside
          exact .go inside
      | _ => exact .eval inside
  | element | field | argument =>
      refine .eval ?_
      rw [Next.codes_eval]
      exact shallow
  | noElement | record | builtin | external => exact .answer _
  | call =>
      refine ⟨fun decided => ?_, List.forall_mem_singleton.mpr nofun⟩
      cases decided
      exact nofun
  | closure body => exact absurd body (builtins.body_ne_closure _ _ _)

theorem Frame.Resumes.shallow {frame : Frame} {value : Value}
    (resumes : frame.Resumes heap value next heap') (shallow : frame.Shallow waiting) :
    next.Shallow waiting := by
  have inside (held) (listed : held ∈ next.codes) : waiting < held.1.place.length :=
    shallow held (resumes.codes listed)
  cases resumes with
  | assignment | returns | field | write | call => exact .answer _
  | target => exact .eval inside
  | _ =>
      rw [Next.codes_go] at inside
      exact .go inside

end Parts

namespace Moment

variable {settings : Settings} {moment next : Moment}

theorem Shallow.of_next {next : Next} {frames : List Frame} {state : State} {origins : Ref → Place}
    (shallow : next.Shallow frames.length) (atMostOne : next.frames.length ≤ 1)
    (below : ∀ {frame lower}, frame :: lower <:+ frames → frame.Shallow lower.length) :
    Shallow ⟨next.focus, next.frames ++ frames, state, origins⟩ where
  task decided := by
    rw [List.length_append]
    exact shallow.task decided
  frames {frame lower} waits := by
    obtain ⟨focus, pushed⟩ := next
    match pushed, atMostOne with
    | [], _ => exact below waits
    | [top], _ =>
        rcases List.suffix_cons_iff.mp waits with same | later
        · cases same
          exact shallow.frames _ List.mem_cons_self
        · exact below later

/-- Nodes are nested in a run as in the program. -/
theorem Move.shallow (move : Move moment next) (builtins : moment.state.heap.OnlyBuiltins settings)
    (shallow : moment.Shallow) : next.Shallow := by
  cases move with
  | perform does =>
      exact .of_next (does.shallow builtins (shallow.task rfl)) does.length_frames_le shallow.frames
  | resume resumes =>
      have top := resumes.shallow (shallow.frames (List.suffix_refl _))
      exact .of_next top resumes.length_frames_le fun waits =>
        shallow.frames (waits.trans (List.suffix_cons _ _))
  | refuse => exact ⟨nofun, shallow.frames⟩
  | reject | pass | unwind =>
      exact ⟨nofun, fun waits => shallow.frames (waits.trans (List.suffix_cons _ _))⟩
  | rest => exact shallow

end Moment

end ScriptTree
