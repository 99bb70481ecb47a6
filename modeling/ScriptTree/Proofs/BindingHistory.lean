import ScriptTree.Proofs.Machine.Faults
import ScriptTree.Proofs.ScopeNames

/-!
# The history of an object

Nothing that was bound in an object is ever lost. What a step binds in an object is a list of names
and values (`Moment.binds`): one for an assignment, a named function or a field assignment, and all
of its fields for a record or a scope that is added. The lists of the steps of a run, one after
another, are the history of the object (`history`), and its fields are what the history leaves when
it is bound in turn (`fields_eq_putAll_history`, `Script.fields_eq_ofList_bound`).

So an object lists its names in the order of their first bindings, each once, and a name reads back
the value that was bound to it last (`Heap.Holds`). A run that goes on, or the evaluation of any
other node, only adds to the history, and the names listed before stay where they are
(`Script.bindings_kept`).
-/

namespace ScriptTree

/-! ## Fields -/

namespace Fields

variable {α : Type}

theorem putAll_append (fields : Fields α) (first second : List (String × α)) :
    fields.putAll (first ++ second) = (fields.putAll first).putAll second :=
  List.foldl_append

/-- A pair of a name is the last of its name, or one of the later ones is. -/
theorem exists_last {pairs : List (String × α)} {key : String} (listed : key ∈ pairs.map Prod.fst) :
    ∃ before value after, pairs = before ++ (key, value) :: after ∧ key ∉ after.map Prod.fst := by
  induction pairs with
  | nil => cases listed
  | cons pair rest ih =>
      by_cases later : key ∈ rest.map Prod.fst
      · obtain ⟨before, value, after, rfl, last⟩ := ih later
        exact ⟨pair :: before, value, after, rfl, last⟩
      · have here : key = pair.1 := (List.mem_cons.mp listed).resolve_right later
        subst here
        exact ⟨[], pair.2, rest, rfl, later⟩

end Fields

namespace Heap

variable {heap : Heap} {ref : Ref}

theorem fields_add (heap : Heap) (object : Object) (ref : Ref) :
    (heap.add object).fields ref = if ref = heap.size then object.fields else heap.fields ref := by
  rw [fields, get?_add]
  split <;> rfl

/-- A new object without fields changes no fields. -/
theorem fields_add_empty (heap : Heap) {object : Object} (empty : object.fields = []) (ref : Ref) :
    (heap.add object).fields ref = heap.fields ref := by
  rw [fields_add, empty]
  split
  · exact (fields_of_size_le (Nat.le_of_eq ‹ref = heap.size›.symm)).symm
  · rfl

/-- A name that an object holds itself is looked up in this object. -/
theorem lookup_of_own {key : String} {value : Value}
    (own : (heap.fields ref).get? key = some value) : heap.lookup ref key = value := by
  have inside : ref < heap.size := by
    by_contra outside
    rw [fields_of_size_le (Nat.not_lt.mp outside)] at own
    cases own
  obtain ⟨object, found⟩ := exists_get?_of_lt_size inside
  obtain ⟨count, size⟩ := Nat.exists_eq_succ_of_ne_zero (Nat.ne_of_gt (Nat.zero_lt_of_lt inside))
  rw [lookup, find?, chain, size, chainUpTo, found, List.findSome?_cons, own]
  rfl

/-- The object holds what was bound in it, one pair after another: its names stand in the order of
their first bindings, each once, and a name reads back the value that was bound to it last. -/
structure Holds (heap : Heap) (ref : Ref) (bound : List (String × Value)) : Prop where
  keys : (heap.fields ref).keys = (bound.map Prod.fst).eraseDups
  nodup : (heap.fields ref).keys.Nodup
  reads : ∀ key ∈ (heap.fields ref).keys, ∃ before value after,
    bound = before ++ (key, value) :: after ∧ key ∉ after.map Prod.fst ∧
      heap.lookup ref key = value

theorem holds_of_fields {bound : List (String × Value)} (same : heap.fields ref = .ofList bound) :
    heap.Holds ref bound := by
  refine ⟨same ▸ Fields.keys_ofList bound, same ▸ Fields.nodup_keys_ofList bound,
    fun key listed => ?_⟩
  rw [same, Fields.keys_ofList, List.mem_eraseDups] at listed
  obtain ⟨before, value, after, rfl, last⟩ := Fields.exists_last listed
  refine ⟨before, value, after, rfl, last, lookup_of_own ?_⟩
  rw [same, Fields.ofList, Fields.get?_putAll_of_last _ before value last]

end Heap

/-! ## What a step binds -/

/-- The names and values that a task binds in an object. A new record and the scope of a call that
is entered hold theirs when they are added. -/
def Task.binds (heap : Heap) (ref : Ref) : Task → List (String × Value)
  | .eval ⟨_, .function _ (some name) _ _⟩ scope =>
      if ref = scope then [(name, .obj heap.size)] else []
  | .fields done [] _ => if ref = heap.size then done else []
  | .invoke callee receiver values =>
      match (heap.get? callee).bind Object.body with
      | some (.closure lambda _) =>
          if ref = heap.size then ("this", receiver) :: lambda.parameters.zip values else []
      | _ => []
  | _ => []

/-- The name and value that a waiting evaluation binds in an object when it has its value. -/
def Frame.binds (value : Value) (ref : Ref) : Frame → List (String × Value)
  | .assignment _ name _ scope => if ref = scope then [(name, value)] else []
  | .write object name => if ref = object then [(name, value)] else []
  | _ => []

/-- The names and values that the step from one moment to the next binds in an object. A step that
raises a fault binds none. -/
def Moment.binds (moment next : Moment) (ref : Ref) : List (String × Value) :=
  match next.focus, moment.focus, moment.frames with
  | .raise _, _, _ => []
  | _, .task task, _ => task.binds moment.state.heap ref
  | _, .answer (.value value), frame :: _ => frame.binds value ref
  | _, _, _ => []

/-- What the first steps of a run bind in an object, one pair after another. -/
def history (run : Nat → Moment) (ref : Ref) (n : Nat) : List (String × Value) :=
  (List.range n).flatMap fun k => (run k).binds (run (k + 1)) ref

section Parts

variable {heap heap' : Heap} {next : Next} {ref : Ref}

/-- Of the nodes only a named function begins with a binding. -/
theorem Occurrence.Begins.fields {scope : Ref} {place : Place} {node : Expr}
    (begins : Begins heap scope place node next heap') (inside : ref < heap'.size) :
    heap'.fields ref =
      (heap.fields ref).putAll (Task.binds heap ref (.eval ⟨place, node⟩ scope)) := by
  cases begins with
  | anonymous => exact Heap.fields_add_empty heap rfl ref
  | named =>
      rw [Heap.size_register] at inside
      rw [Task.binds]
      split
      · subst ref
        rw [Heap.fields_register inside, Heap.fields_add_empty heap rfl]
        rfl
      · rw [Heap.fields_register_of_ne _ ‹_›, Heap.fields_add_empty heap rfl]
        rfl
  | _ => rfl

theorem Task.Does.fields {origins : Ref → Place} {task : Task}
    (does : task.Does origins heap next heap') (inside : ref < heap'.size) :
    heap'.fields ref = (heap.fields ref).putAll (task.binds heap ref) := by
  -- the fields of an object that is added are all bound at once
  have added {object : Object} {pairs : List (String × Value)}
      (same : object.fields = .ofList pairs) :
      (heap.add object).fields ref =
        (heap.fields ref).putAll (if ref = heap.size then pairs else []) := by
    rw [Heap.fields_add]
    split
    · rw [Heap.fields_of_size_le (Nat.le_of_eq ‹ref = heap.size›.symm)]
      exact same
    · rfl
  cases does with
  | eval begins => exact begins.fields inside
  | record => exact added rfl
  | closure body fits =>
      simp only [Task.binds, body]
      exact added rfl
  | builtin body given | external body given => simp [Task.binds, body, Fields.putAll]
  | _ => rfl

theorem Frame.Resumes.fields {frame : Frame} {value : Value}
    (resumes : frame.Resumes heap value next heap') (inside : ref < heap'.size) :
    heap'.fields ref = (heap.fields ref).putAll (frame.binds value ref) := by
  have bound {target : Ref} {name : String} (inside : ref < heap.size) :
      (heap.register target name value).fields ref =
        (heap.fields ref).putAll (if ref = target then [(name, value)] else []) := by
    split
    · subst ref
      exact Heap.fields_register inside name value
    · exact Heap.fields_register_of_ne heap ‹_› name value
  cases resumes with
  | assignment | write =>
      rw [Heap.size_register] at inside
      exact bound inside
  | _ => rfl

/-- A task binds names in its own scope, or in an object that it adds. -/
theorem Task.Does.lt_size_of_binds {origins : Ref → Place} {task : Task}
    (does : task.Does origins heap next heap') (binds : task.binds heap ref ≠ []) :
    ref ∈ task.scopes ∨ ref < heap'.size := by
  -- the object that is added is the last
  have last {object : Object} {pairs : List (String × Value)}
      (binds : (if ref = heap.size then pairs else []) ≠ []) : ref < (heap.add object).size := by
    rw [Heap.size_add]
    by_contra outside
    exact binds (if_neg fun (same : ref = heap.size) => outside (same ▸ Nat.lt_succ_self _))
  cases does with
  | eval begins =>
      cases begins with
      | named =>
          by_contra outside
          exact binds (if_neg fun same => outside (.inl (List.mem_singleton.mpr same)))
      | _ => exact absurd rfl binds
  | record => exact .inr (last binds)
  | closure body fits =>
      simp only [Task.binds, body] at binds
      exact .inr (last binds)
  | builtin body given | external body given =>
      simp only [Task.binds, body] at binds
      exact absurd rfl binds
  | _ => exact absurd rfl binds

/-- A waiting evaluation binds a name in its own scope, or in the object of a field assignment. -/
theorem Frame.mem_of_binds {frame : Frame} {value : Value} (binds : frame.binds value ref ≠ []) :
    ref ∈ frame.scopes ∨ .obj ref ∈ frame.values := by
  cases frame with
  | assignment line name declares scope =>
      by_contra outside
      exact binds (if_neg fun same => outside (.inl (List.mem_singleton.mpr same)))
  | write object name =>
      by_contra outside
      refine binds (if_neg fun same => outside (.inr ?_))
      subst same
      exact List.mem_cons_self
  | _ => exact absurd rfl binds

end Parts

namespace Moment

variable {moment next : Moment} {ref : Ref}

theorem binds_of_raise {fault : Fault} (raised : next.focus = .raise fault) :
    moment.binds next ref = [] := by
  rw [binds, raised]

theorem binds_of_task {task : Task} (does : moment.focus = .task task)
    (goesOn : ∀ fault, next.focus ≠ .raise fault) :
    moment.binds next ref = task.binds moment.state.heap ref := by
  rw [binds, does]
  cases after : next.focus with
  | raise fault => exact absurd after (goesOn fault)
  | task | answer => rfl

theorem binds_of_value {value : Value} {frame : Frame} {frames : List Frame}
    (answered : moment.focus = .answer (.value value)) (waits : moment.frames = frame :: frames)
    (goesOn : ∀ fault, next.focus ≠ .raise fault) :
    moment.binds next ref = frame.binds value ref := by
  rw [binds, answered, waits]
  cases after : next.focus with
  | raise fault => exact absurd after (goesOn fault)
  | task | answer => rfl

/-- The fields of an object after a step are those before it and what the step binds. -/
theorem Move.fields_eq (move : Move moment next) (inside : ref < next.state.heap.size) :
    next.state.heap.fields ref =
      (moment.state.heap.fields ref).putAll (moment.binds next ref) := by
  cases move with
  | perform does =>
      rw [binds_of_task rfl fun _ => does.focus_ne_raise]
      exact does.fields inside
  | resume resumes =>
      rw [binds_of_value rfl rfl fun _ => resumes.focus_ne_raise]
      exact resumes.fields inside
  | refuse same | reject same =>
      rw [binds_of_raise rfl, same]
      rfl
  | unwind =>
      rw [binds_of_raise rfl]
      rfl
  | pass => rfl
  | rest ended =>
      obtain ⟨focus, frames, state, origins⟩ := moment
      obtain ⟨rfl, stays⟩ := ended
      cases focus with
      | task task => exact absurd rfl (stays task)
      | answer completion => cases completion <;> rfl
      | raise fault => rfl

/-- In a run that is closed, a step binds names only in objects that are there after it. -/
theorem Move.lt_size_of_binds (move : Move moment next) (plain : moment.Plain)
    (inside : ∀ scope ∈ moment.scopes, scope < moment.state.heap.size)
    (binds : moment.binds next ref ≠ []) : ref < next.state.heap.size := by
  have noFewer := move.steps.grows.size_le
  -- the scopes of the moment and the objects that are its values are there
  have ofScope (listed : ref ∈ moment.scopes) : ref < next.state.heap.size :=
    Nat.lt_of_lt_of_le (inside ref listed) noFewer
  have ofValue (held : .obj ref ∈ moment.values) : ref < next.state.heap.size := by
    obtain ⟨object, found, -⟩ := plain.heap.parent_eq_none (plain.values _ held)
    exact Nat.lt_of_lt_of_le (Heap.lt_size_of_get? found) noFewer
  cases move with
  | perform does =>
      rw [binds_of_task rfl fun _ => does.focus_ne_raise] at binds
      rcases does.lt_size_of_binds binds with listed | there
      · exact ofScope (List.mem_append_left _ listed)
      · exact there
  | @resume value frame frames _ _ _ _ resumes =>
      rw [binds_of_value rfl rfl fun _ => resumes.focus_ne_raise] at binds
      rcases Frame.mem_of_binds binds with listed | held
      · exact ofScope (List.mem_append_left (Frame.allScopes frames) listed)
      · exact ofValue (List.mem_append_right [value]
          (List.mem_append_left (frames.flatMap Frame.values) held))
  | refuse | reject | unwind => exact absurd (binds_of_raise rfl) binds
  | pass => exact absurd rfl binds
  | rest ended =>
      obtain ⟨focus, frames, state, origins⟩ := moment
      obtain ⟨rfl, stays⟩ := ended
      cases focus with
      | task task => exact absurd rfl (stays task)
      | answer completion => cases completion <;> exact absurd rfl binds
      | raise fault => exact absurd rfl binds

end Moment

/-! ## What a run binds -/

section Runs

variable {run : Nat → Moment} {ref : Ref}

theorem history_succ (run : Nat → Moment) (ref : Ref) (n : Nat) :
    history run ref (n + 1) = history run ref n ++ (run n).binds (run (n + 1)) ref := by
  simp [history, List.range_succ]

/-- A run takes no object away. -/
theorem grows_of_moves (moves : ∀ k, (run k).Move (run (k + 1))) (n : Nat) :
    (run 0).state.heap.Grows (run n).state.heap := by
  induction n with
  | zero => exact .refl _
  | succ n ih => exact ih.trans (moves n).steps.grows

/-- The fields of an object that was there at the beginning are those of then and what was bound in
it since, in turn. -/
theorem fields_eq_putAll_history (moves : ∀ k, (run k).Move (run (k + 1)))
    (old : ref < (run 0).state.heap.size) (n : Nat) :
    (run n).state.heap.fields ref =
      ((run 0).state.heap.fields ref).putAll (history run ref n) := by
  induction n with
  | zero => rfl
  | succ n ih =>
      have there := Nat.lt_of_lt_of_le old (grows_of_moves moves (n + 1)).size_le
      rw [(moves n).fields_eq there, ih, history_succ, Fields.putAll_append]

end Runs

/-- The moments of the evaluation of a node in a scope, by itself. -/
def Moment.evaluating (settings : Settings) (depth : Nat) (node : Expr) (scope : Ref)
    (state : State) (k : Nat) : Moment :=
  (Moment.next settings depth)^[k] (.start ⟨[], node⟩ scope state)

theorem Moment.move_evaluating (settings : Settings) (depth : Nat) (node : Expr) (scope : Ref)
    (state : State) (k : Nat) :
    (evaluating settings depth node scope state k).Move
      (evaluating settings depth node scope state (k + 1)) := by
  rw [evaluating, evaluating, Function.iterate_succ_apply']
  exact move_next _

/-- The evaluation comes to the outcome that the evaluator gives. -/
theorem Moment.exists_evaluating_ended (settings : Settings) (depth : Nat) (node : Expr)
    (scope : Ref) (state : State) :
    ∃ last, (evaluating settings depth node scope state last).Ended ∧
      (evaluating settings depth node scope state last).state =
        (Eval.evaluator settings depth node scope).final state :=
  (arrives_evaluator settings depth depth ⟨[], node⟩ scope [] state (fun _ => [])
    (Nat.zero_add depth)).exists_final

namespace Script

variable (script : Script) (settings : Settings) (sink : Sink) (log : Log)

/-- All that is bound in an object up to a moment of a run, one pair after another, from what it
holds at the start. -/
def bound (n : Nat) (ref : Ref) : List (String × Value) :=
  (Heap.initial settings).fields ref ++ history (script.moment settings sink log) ref n

/-- The objects of the start list no name twice. -/
theorem nodup_keys_initial (ref : Ref) : ((Heap.initial settings).fields ref).keys.Nodup := by
  cases found : (Heap.initial settings).get? ref with
  | none =>
      rw [Heap.fields, found]
      exact .nil
  | some object =>
      rw [Heap.fields_of_get? found]
      rcases Heap.eq_of_get?_initial found with rfl | ⟨builtin, rfl⟩
      · obtain rfl := Option.some.inj (found.symm.trans (Heap.get?_initial_root settings))
        exact (by decide : rootNames.Nodup)
      · exact .nil

/-- The fields of an object are what was bound in it, in turn. -/
theorem fields_eq_ofList_bound (n : Nat) (ref : Ref) :
    (script.moment settings sink log n).state.heap.fields ref =
      .ofList (script.bound settings sink log n ref) := by
  induction n with
  | zero =>
      rw [bound, history, List.range_zero, List.flatMap_nil, List.append_nil,
        Fields.ofList_of_nodup (nodup_keys_initial settings ref)]
      rfl
  | succ n ih =>
      have move := script.move_moment settings sink log n
      have bound_succ : script.bound settings sink log (n + 1) ref =
          script.bound settings sink log n ref ++
            (script.moment settings sink log n).binds (script.moment settings sink log (n + 1))
              ref := by
        rw [bound, bound, history_succ, List.append_assoc]
      rw [bound_succ, Fields.ofList, Fields.putAll_append, ← Fields.ofList, ← ih]
      by_cases there : ref < (script.moment settings sink log (n + 1)).state.heap.size
      · exact move.fields_eq there
      · -- an object that is not there after the step was not there before and is not bound in
        have absent := Nat.not_lt.mp there
        have nothing : (script.moment settings sink log n).binds
            (script.moment settings sink log (n + 1)) ref = [] := by
          by_contra binds
          exact there (move.lt_size_of_binds (script.plain_moment settings sink log n)
            (script.scopes_moment_lt_size settings sink log n) binds)
        rw [nothing, Heap.fields_of_size_le absent,
          Heap.fields_of_size_le (Nat.le_trans move.steps.grows.size_le absent)]
        rfl

theorem rootNames_prefix (n : Nat) :
    rootNames <+: ((script.moment settings sink log n).state.heap.fields Heap.root).keys := by
  obtain ⟨object, found, -, more, split, -⟩ := script.names_root settings sink log n
  rw [Heap.fields_of_get? found, split]
  exact List.prefix_append _ _

/-- At every moment of a run:
* an object holds what was bound in it so far, its names in the order of their first bindings, each
  once, and each reads back the value that was bound to it last;
* the evaluation of any node in any scope from there, in whichever way it ends, takes no object
  away, and every object that was there lists its names of before at the front, in their order, and
  holds what was bound in it before and then during the evaluation;
* the first names of the root scope are the thirteen of the start, and so they are in the state that
  the run leaves. -/
theorem bindings_kept (n : Nat) :
    (∀ ref, (script.moment settings sink log n).state.heap.Holds ref
      (script.bound settings sink log n ref)) ∧
    (∀ depth node scope, ∃ last,
      (Moment.evaluating settings depth node scope
        (script.moment settings sink log n).state last).Ended ∧
      (Moment.evaluating settings depth node scope
        (script.moment settings sink log n).state last).state =
          (Eval.evaluator settings depth node scope).final
            (script.moment settings sink log n).state ∧
      ∀ ref object, (script.moment settings sink log n).state.heap.get? ref = some object →
        ∃ later, ((Eval.evaluator settings depth node scope).final
            (script.moment settings sink log n).state).heap.get? ref = some later ∧
          object.fields.keys <+: later.fields.keys ∧
          ((Eval.evaluator settings depth node scope).final
            (script.moment settings sink log n).state).heap.Holds ref
              (script.bound settings sink log n ref ++
                history (Moment.evaluating settings depth node scope
                  (script.moment settings sink log n).state) ref last)) ∧
    rootNames.length = 13 ∧
    rootNames <+: ((script.moment settings sink log n).state.heap.fields Heap.root).keys ∧
    ∀ report, script.run (.sink sink) settings log = .ok report →
      rootNames <+: (report.state.heap.fields Heap.root).keys := by
  have sofar := script.fields_eq_ofList_bound settings sink log n
  refine ⟨fun ref => Heap.holds_of_fields (sofar ref), fun depth node scope => ?_, rfl,
    script.rootNames_prefix settings sink log n, fun report ran => ?_⟩
  · obtain ⟨last, ended, same⟩ := Moment.exists_evaluating_ended settings depth node scope
      (script.moment settings sink log n).state
    refine ⟨last, ended, same, fun ref object found => ?_⟩
    have moves := Moment.move_evaluating settings depth node scope
      (script.moment settings sink log n).state
    have since := fields_eq_putAll_history moves (Heap.lt_size_of_get? found) last
    obtain ⟨fields, later⟩ := grows_of_moves moves last found
    rw [same] at since later
    refine ⟨_, later, ?_, Heap.holds_of_fields ?_⟩
    · rw [← Heap.fields_of_get? later, since, Fields.keys_putAll]
      exact Heap.fields_of_get? found ▸ List.prefix_append _ _
    · rw [since, Fields.ofList, Fields.putAll_append, ← Fields.ofList, ← sofar ref]
      rfl
  · obtain ⟨last, -, -, same, -⟩ := exists_moment_of_run ran
    exact same ▸ script.rootNames_prefix settings sink log last

end Script

end ScriptTree
