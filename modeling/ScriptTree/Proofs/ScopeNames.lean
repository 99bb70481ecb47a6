import ScriptTree.Proofs.Isolation
import ScriptTree.Proofs.ScopeChains

/-!
# The names in a scope

What a scope can hold stands in the text. A scope is entered with `this` and the parameters of its
function; after that, a name comes into it only from an assignment or from a named function that
stands in the body of this function and in no function inside it (`Script.Binds`). Calls, arguments
and the fields of a record may be evaluated in between, but all of them in the same scope, and what
they call has a scope of its own.

The code that a moment holds is followed for that (`Moment.codes`): a node that is evaluated in a
scope is part of the function whose call made the scope (`Script.Owns`). The root scope is also a
value, `global`, so it can get the name of any field assignment as well.
-/

namespace ScriptTree

/-! ## Names in the text -/

namespace Script

/-- The place of the nearest function around a place of a program. -/
def functionAround? (script : Script) : Place → Option Place
  | [] => none
  | _ :: place =>
      if (script.nodeAt? place).any Expr.isFunction then some place
      else script.functionAround? place

/-- The names that a function binds in the scope of its call apart from its parameters: those that
are assigned to and those of named functions, in its body but in no function inside it. Without an
owner, the names that are bound outside of all functions. -/
inductive Binds (script : Script) (owner : Option Place) : String → Prop
  | assignment {place : Place} {line : Line} {name : String} {value : Expr} {declares : Bool}
      (stands : script.nodeAt? place = some (.assignment line name value declares))
      (around : script.functionAround? place = owner) : Binds script owner name
  | function {place : Place} {line : Line} {name : String} {parameters : List String}
      {body : Block Expr}
      (stands : script.nodeAt? place = some (.function line (some name) parameters body))
      (around : script.functionAround? place = owner) : Binds script owner name

/-- Somewhere in the program a field of this name is assigned to. -/
def AssignsField (script : Script) (name : String) : Prop :=
  ∃ place line receiver value,
    script.nodeAt? place = some (.fieldAssignment line receiver name value)

variable {script : Script}

/-- A child of a node that is not a function has the same function around it. -/
theorem functionAround?_child {place : Place} {node : Expr}
    (stands : script.nodeAt? place = some node) (noFunction : node.isFunction = false) (i : Nat) :
    script.functionAround? (i :: place) = script.functionAround? place := by
  rw [functionAround?, stands, Option.any_some, noFunction]
  rfl

/-- The body of a function has this function around it. -/
theorem functionAround?_body {place : Place} {node : Expr}
    (stands : script.nodeAt? place = some node) (function : node.isFunction = true) (i : Nat) :
    script.functionAround? (i :: place) = some place := by
  rw [functionAround?, stands, Option.any_some, function]
  rfl

end Script

/-! ## The code of a moment -/

/-- The nodes that a task will evaluate, with the scope for each. -/
def Task.codes : Task → List (Occurrence × Ref)
  | .eval code scope => [(code, scope)]
  | .elements rest scope | .arguments _ _ _ _ rest scope => rest.map (·, scope)
  | .fields _ rest scope => rest.map (·.2, scope)
  | .invoke .. => []

/-- The nodes that a waiting evaluation will evaluate, with the scope for each. -/
def Frame.codes : Frame → List (Occurrence × Ref)
  | .element rest scope | .callee _ rest scope | .receiver _ _ rest scope
  | .argument _ _ _ _ rest scope => rest.map (·, scope)
  | .condition _ onTrue onFalse scope => (onTrue ++ onFalse).map (·, scope)
  | .initializer _ _ rest scope => rest.map (·.2, scope)
  | .target _ _ code scope => [(code, scope)]
  | .assignment .. | .returns | .field .. | .write .. | .call _ => []

/-- The nodes of what is done next. -/
def Focus.codes : Focus → List (Occurrence × Ref)
  | .task task' => task'.codes
  | .answer _ | .raise _ => []

/-- The nodes of what an action decides on. -/
def Next.codes (next : Next) : List (Occurrence × Ref) :=
  next.focus.codes ++ next.frames.flatMap Frame.codes

/-- The nodes that a moment will evaluate, with the scope for each; not those of functions that may
be called. -/
def Moment.codes (moment : Moment) : List (Occurrence × Ref) :=
  moment.focus.codes ++ moment.frames.flatMap Frame.codes

section Next

variable {frame : Frame} {code : Occurrence} {scope : Ref} {task : Task}

@[simp] theorem Next.codes_eval :
    (Next.eval frame code scope).codes = (code, scope) :: frame.codes := by
  simp [Next.codes, Next.eval, Focus.codes, Task.codes]

@[simp] theorem Next.codes_go : (Next.go task).codes = task.codes :=
  List.append_nil _

end Next

/-- A node of a new moment is part of a node that was begun, or the body of a function that was
entered. -/
inductive Moment.Opens (script : Script) (moment : Moment) : Occurrence × Ref → Prop
  | part {code inner : Occurrence} {scope : Ref}
      (evaluates : moment.focus = .task (.eval code scope))
      (around : script.functionAround? inner.place = script.functionAround? code.place) :
    Opens script moment (inner, scope)
  | body {callee : Ref} {receiver : Value} {values : List Value} {lambda : Lambda} {scope : Ref}
      (invokes : moment.focus = .task (.invoke callee receiver values))
      (closure : (moment.state.heap.get? callee).bind Object.body = some (.closure lambda scope))
      (fits : values.length = lambda.parameters.length) :
    Opens script moment
      (⟨0 :: moment.origins callee, .block lambda.body⟩, moment.state.heap.size)

section Parts

variable {script : Script} {heap heap' : Heap} {next : Next}

theorem Occurrence.place_of_mem_children {code inner : Occurrence} {nodes : List Expr}
    {position : Nat} (listed : inner ∈ code.children position nodes) :
    ∃ i, inner.place = i :: code.place := by
  induction nodes generalizing position with
  | nil => exact absurd listed List.not_mem_nil
  | cons node rest ih =>
      rcases List.mem_cons.mp listed with rfl | later
      · exact ⟨position, rfl⟩
      · exact ih later

theorem Occurrence.place_of_mem_named {code : Occurrence} {inner : String × Occurrence}
    {fields : List (String × Expr)} {position : Nat}
    (listed : inner ∈ code.named position fields) : ∃ i, inner.2.place = i :: code.place := by
  induction fields generalizing position with
  | nil => exact absurd listed List.not_mem_nil
  | cons field rest ih =>
      rcases List.mem_cons.mp listed with rfl | later
      · exact ⟨position, rfl⟩
      · exact ih later

/-- The parts of a node are evaluated in its scope and have the same function around them. -/
theorem Occurrence.Begins.codes {scope : Ref} {place : Place} {node : Expr}
    (begins : Begins heap scope place node next heap')
    (stands : script.nodeAt? place = some node) :
    ∀ held ∈ next.codes, held.2 = scope ∧
      script.functionAround? held.1.place = script.functionAround? place := by
  -- a child of the node, when the node is no function
  have child (noFunction : node.isFunction = false) {inner : Occurrence}
      (below : ∃ i, inner.place = i :: place) :
      script.functionAround? inner.place = script.functionAround? place := by
    obtain ⟨i, below⟩ := below
    rw [below]
    exact Script.functionAround?_child stands noFunction i
  intro held listed
  cases begins with
  | literal | var | anonymous | named => exact absurd listed List.not_mem_nil
  | block =>
      rw [Next.codes_go] at listed
      obtain ⟨inner, element, rfl⟩ := List.mem_map.mp listed
      exact ⟨rfl, child rfl (place_of_mem_children element)⟩
  | record =>
      rw [Next.codes_go] at listed
      obtain ⟨inner, element, rfl⟩ := List.mem_map.mp listed
      exact ⟨rfl, child rfl (place_of_mem_named element)⟩
  | assignment | returns | field =>
      rw [Next.codes_eval] at listed
      obtain rfl := List.mem_singleton.mp listed
      exact ⟨rfl, child rfl ⟨0, rfl⟩⟩
  | fieldAssignment =>
      rw [Next.codes_eval] at listed
      rcases List.mem_cons.mp listed with rfl | value
      · exact ⟨rfl, child rfl ⟨0, rfl⟩⟩
      · obtain rfl := List.mem_singleton.mp value
        exact ⟨rfl, child rfl ⟨1, rfl⟩⟩
  | call | methodCall =>
      rw [Next.codes_eval] at listed
      rcases List.mem_cons.mp listed with rfl | argument
      · exact ⟨rfl, child rfl ⟨0, rfl⟩⟩
      · obtain ⟨inner, element, rfl⟩ := List.mem_map.mp argument
        exact ⟨rfl, child rfl (place_of_mem_children element)⟩
  | @branch line condition onTrue onFalse =>
      -- an element of one of the two blocks is a child of a child
      have element {i : Nat} {body : Block Expr} {inner : Occurrence}
          (block : script.nodeAt? (i :: place) = some (.block body))
          (below : ∃ j, inner.place = j :: i :: place) :
          script.functionAround? inner.place = script.functionAround? place := by
        obtain ⟨j, below⟩ := below
        rw [below, Script.functionAround?_child block rfl]
        exact Script.functionAround?_child stands rfl i
      have onTrueStands : script.nodeAt? (1 :: place) = some (.block onTrue) := by
        rw [Script.nodeAt?, stands]
        rfl
      have onFalseStands : script.nodeAt? (2 :: place) = some (.block onFalse) := by
        rw [Script.nodeAt?, stands]
        rfl
      rw [Next.codes_eval] at listed
      rcases List.mem_cons.mp listed with rfl | waiting
      · exact ⟨rfl, child rfl ⟨0, rfl⟩⟩
      · obtain ⟨inner, either, rfl⟩ := List.mem_map.mp waiting
        refine ⟨rfl, ?_⟩
        rcases List.mem_append.mp either with first | second
        · exact element onTrueStands (place_of_mem_children first)
        · exact element onFalseStands (place_of_mem_children second)

theorem Task.Does.codes {task : Task} {frames : List Frame} {state : State}
    {origins : Ref → Place} (does : task.Does origins state.heap next heap')
    (placed : task.Placed script state.heap) :
    ∀ held ∈ next.codes,
      held ∈ task.codes ∨ Moment.Opens script ⟨.task task, frames, state, origins⟩ held := by
  intro held listed
  cases does with
  | eval begins =>
      obtain ⟨rfl, around⟩ := begins.codes placed.node held listed
      exact .inr (.part rfl around)
  | element =>
      rw [Next.codes_eval] at listed
      exact .inl listed
  | field =>
      rw [Next.codes_eval] at listed
      exact .inl listed
  | argument =>
      rw [Next.codes_eval] at listed
      exact .inl listed
  | closure body fits =>
      rw [Next.codes_go] at listed
      obtain rfl := List.mem_singleton.mp listed
      exact .inr (.body rfl body fits)
  | noElement | record | call | builtin | external => exact absurd listed List.not_mem_nil

theorem Frame.Resumes.codes {frame : Frame} {value : Value}
    (resumes : frame.Resumes heap value next heap') : next.codes ⊆ frame.codes := by
  cases resumes with
  | element | initializer | callee | receiver | argument =>
      rw [Next.codes_go]
      exact List.Subset.refl _
  | @condition line onTrue onFalse scope n =>
      rw [Next.codes_go]
      change (if n = 0 then onFalse else onTrue).map (·, scope) ⊆ (onTrue ++ onFalse).map (·, scope)
      refine List.map_subset _ ?_
      split
      · exact List.subset_append_right _ _
      · exact List.subset_append_left _ _
  | target =>
      rw [Next.codes_eval]
      exact List.Subset.refl _
  | assignment | returns | field | write | call => exact List.nil_subset _

end Parts

namespace Moment

variable {script : Script} {moment next : Moment}

theorem codes_append {next : Next} {frames : List Frame} {state : State}
    {origins : Ref → Place} :
    codes ⟨next.focus, next.frames ++ frames, state, origins⟩ =
      next.codes ++ frames.flatMap Frame.codes := by
  simp [codes, Next.codes]

/-- The code of a moment is code of the moment before, or was opened by the step. -/
theorem Move.codes (move : Move moment next) (placed : moment.Placed script) :
    ∀ held ∈ next.codes, held ∈ moment.codes ∨ moment.Opens script held := by
  intro held listed
  cases move with
  | perform does =>
      rw [codes_append] at listed
      rcases List.mem_append.mp listed with now | waiting
      · exact (does.codes placed.focus held now).imp_left (List.mem_append_left _)
      · exact .inl (List.mem_append_right _ waiting)
  | @resume value frame frames _ _ _ _ resumes =>
      rw [codes_append] at listed
      left
      change held ∈ frame.codes ++ frames.flatMap Frame.codes
      rcases List.mem_append.mp listed with now | waiting
      · exact List.mem_append_left _ (resumes.codes now)
      · exact List.mem_append_right _ waiting
  | refuse => exact .inl (List.mem_append_right _ listed)
  | @reject _ frame | @pass _ frame | @unwind _ frame =>
      exact .inl (List.mem_append_right frame.codes listed)
  | rest => exact .inl listed

end Moment

/-! ## How a name comes into an object -/

namespace Moment

/-- The next step is evaluation in a scope that binds a name there: of a named function, or of an
assignment that has its value. -/
inductive Declares (moment : Moment) (scope : Ref) (name : String) : Prop
  | function {place : Place} {line : Line} {parameters : List String} {body : Block Expr}
      (evaluates : moment.focus =
        .task (.eval ⟨place, .function line (some name) parameters body⟩ scope))
  | assignment {value : Value} {line : Line} {declares : Bool} {frames : List Frame}
      (answered : moment.focus = .answer (.value value))
      (waits : moment.frames = .assignment line name declares scope :: frames)

/-- The next step is a field assignment that has its value, and writes it to an object. -/
def WritesField (moment : Moment) (ref : Ref) (name : String) : Prop :=
  ∃ value frames, moment.focus = .answer (.value value) ∧
    moment.frames = .write ref name :: frames

variable {moment next : Moment} {ref : Ref} {object : Object}

/-- A step binds one name in an object at most, in one of two ways. -/
theorem Move.fields (move : Move moment next)
    (found : moment.state.heap.get? ref = some object) :
    next.state.heap.get? ref = some object ∨
      ∃ name value, (moment.Declares ref name ∨ moment.WritesField ref name) ∧
        next.state.heap.get? ref = some { object with fields := object.fields.put name value } := by
  have inside := Heap.lt_size_of_get? found
  have added (other : Object) : (moment.state.heap.add other).get? ref = some object := by
    rw [Heap.get?_add, if_neg (Nat.ne_of_lt inside)]
    exact found
  -- a name is bound in some object of a heap in which ours is as it was
  have bound {heap : Heap} {target : Ref} {name : String} {value : Value}
      (there : heap.get? ref = some object)
      (binds : moment.Declares target name ∨ moment.WritesField target name) :
      (heap.register target name value).get? ref = some object ∨
        ∃ name' value', (moment.Declares ref name' ∨ moment.WritesField ref name') ∧
          (heap.register target name value).get? ref =
            some { object with fields := object.fields.put name' value' } := by
    rw [Heap.get?_register, there]
    by_cases same : target = ref
    · rw [if_pos same]
      exact .inr ⟨name, value, same ▸ binds, rfl⟩
    · exact .inl (if_neg same)
  cases move with
  | @perform task frames state state' origins decided does =>
      change state'.heap.get? ref = _ ∨ ∃ name value, _ ∧ state'.heap.get? ref = _
      generalize state'.heap = heap at does ⊢
      cases does with
      | eval begins =>
          cases begins with
          | anonymous => exact .inl (added _)
          | named => exact bound (added _) (.inl (.function rfl))
          | _ => exact .inl found
      | record | closure => exact .inl (added _)
      | _ => exact .inl found
  | @resume value frame frames state state' origins decided resumes =>
      change state'.heap.get? ref = _ ∨ ∃ name value, _ ∧ state'.heap.get? ref = _
      generalize state'.heap = heap at resumes ⊢
      cases resumes with
      | assignment => exact bound found (.inl (.assignment rfl rfl))
      | write => exact bound found (.inr ⟨_, _, rfl, rfl⟩)
      | _ => exact .inl found
  | refuse same | reject same => exact .inl (same ▸ found)
  | pass | unwind | rest => exact .inl found

end Moment

/-- An object holds some names, each once: given ones first, in their order, and then only such as
may come later. -/
structure Object.Names (object : Object) (first : List String) (later : String → Prop) : Prop where
  nodup : object.fields.keys.Nodup
  split : ∃ more, object.fields.keys = first ++ more ∧ ∀ name ∈ more, later name

/-- An object keeps its names through a step, and gets such as the step may bind. -/
theorem Moment.Move.names {moment next : Moment} (move : Move moment next) {ref : Ref}
    {object : Object} {first : List String} {later : String → Prop}
    (found : moment.state.heap.get? ref = some object) (names : object.Names first later)
    (allowed : ∀ name, moment.Declares ref name ∨ moment.WritesField ref name → later name) :
    ∃ after, next.state.heap.get? ref = some after ∧ after.parent = object.parent ∧
      after.Names first later := by
  rcases move.fields found with same | ⟨name, value, binds, put⟩
  · exact ⟨object, same, rfl, names⟩
  · obtain ⟨more, split, further⟩ := names.split
    refine ⟨_, put, rfl, Fields.nodup_keys_put _ _ _ names.nodup, ?_⟩
    by_cases listed : name ∈ object.fields.keys
    · rw [Fields.keys_put_of_mem _ value listed]
      exact ⟨more, split, further⟩
    · rw [Fields.keys_put_of_not_mem _ value listed, split, List.append_assoc]
      refine ⟨more ++ [name], rfl, List.forall_mem_append.mpr ⟨further, ?_⟩⟩
      exact List.forall_mem_singleton.mpr (allowed name binds)

/-! ## The function that owns a scope -/

/-- An invocation of a function of the program adds the scope of the call. -/
theorem Moment.get?_next_of_invoke {settings : Settings} {limit : Nat} {moment : Moment}
    {callee scope : Ref} {receiver : Value} {values : List Value} {lambda : Lambda}
    (invokes : moment.focus = .task (.invoke callee receiver values))
    (closure : (moment.state.heap.get? callee).bind Object.body = some (.closure lambda scope))
    (fits : values.length = lambda.parameters.length) :
    (moment.next settings limit).state.heap.get? moment.state.heap.size =
      some (.scope (some scope) (Eval.callBindings lambda receiver values)) := by
  obtain ⟨focus, frames, state, origins⟩ := moment
  cases invokes
  have entered : Task.begin settings origins (frames.length < limit)
      (.invoke callee receiver values) state =
        .ok (.go (.eval ⟨0 :: origins callee, .block lambda.body⟩ state.heap.size))
          { state with
            heap := state.heap.add
              (.scope (some scope) (Eval.callBindings lambda receiver values)) } := by
    change Task.invoked (origins callee) callee receiver values
      ((state.heap.get? callee).bind Object.body) state = _
    rw [closure]
    exact congrFun (if_pos fits) state
  unfold next after noting
  dsimp only
  rw [entered, Heap.get?_add, if_pos rfl]

/-- An invocation that adds the scope of a call is one of a function of the program. -/
theorem Moment.Move.closure_of_invoke {moment next : Moment} (move : Move moment next)
    {callee : Ref} {receiver : Value} {values : List Value} {object : Object}
    (invokes : moment.focus = .task (.invoke callee receiver values))
    (added : next.state.heap.get? moment.state.heap.size = some object) :
    ∃ lambda scope,
      (moment.state.heap.get? callee).bind Object.body = some (.closure lambda scope) ∧
        values.length = lambda.parameters.length := by
  have absent {object : Object} :
      moment.state.heap.get? moment.state.heap.size ≠ some object := fun found =>
    Nat.lt_irrefl _ (Heap.lt_size_of_get? found)
  cases move with
  | @perform task frames state state' origins decided does =>
      cases invokes
      change state'.heap.get? state.heap.size = _ at added
      generalize state'.heap = heap at does added
      cases does with
      | closure body fits => exact ⟨_, _, body, fits⟩
      | builtin | external => exact absurd added absent
  | refuse same => exact absurd (same ▸ added) absent
  | rest => exact absurd added absent
  | resume | reject | pass | unwind => cases invokes

namespace Script

/-- Step `m` of a run enters the function at a place of the program, and `ref` becomes the scope of
the call. -/
def Enters (script : Script) (settings : Settings) (sink : Sink) (log : Log) (m : Nat) (ref : Ref)
    (place : Place) (lambda : Lambda) : Prop :=
  ∃ callee receiver values scope,
    (script.moment settings sink log m).focus = .task (.invoke callee receiver values) ∧
    ((script.moment settings sink log m).state.heap.get? callee).bind Object.body =
      some (.closure lambda scope) ∧
    values.length = lambda.parameters.length ∧
    (script.moment settings sink log m).origins callee = place ∧
    (script.moment settings sink log m).state.heap.size = ref

/-- What is evaluated in a scope belongs to the function that was called when the scope was made;
in the root scope, to none. -/
inductive Owns (script : Script) (settings : Settings) (sink : Sink) (log : Log) (n : Nat) :
    Ref → Option Place → Prop
  | root : Owns script settings sink log n Heap.root none
  | entered {m : Nat} {ref : Ref} {place : Place} {lambda : Lambda} (earlier : m < n)
      (enters : script.Enters settings sink log m ref place lambda) :
    Owns script settings sink log n ref (some place)

section Owners

variable {script : Script} {settings : Settings} {sink : Sink} {log : Log}
  {m n : Nat} {ref : Ref} {place : Place} {lambda : Lambda}

/-- The scope of a call that was entered. -/
theorem Enters.get?_succ (enters : script.Enters settings sink log m ref place lambda) :
    ∃ parent fields, (script.moment settings sink log (m + 1)).state.heap.get? ref =
        some (.scope (some parent) fields) ∧
      fields.keys = "this" :: (lambda.parameters.filter (· != "this")).eraseDups ∧
      fields.keys.Nodup := by
  obtain ⟨callee, receiver, values, scope, invokes, closure, fits, -, rfl⟩ := enters
  rw [moment_succ]
  exact ⟨scope, _, Moment.get?_next_of_invoke invokes closure fits,
    Eval.keys_callBindings lambda receiver fits, Fields.nodup_keys_ofList _⟩

/-- The function that is entered stands at its place. -/
theorem Enters.stands (enters : script.Enters settings sink log m ref place lambda) :
    ∃ name, script.nodeAt? place =
      some (.function lambda.line name lambda.parameters lambda.body) := by
  obtain ⟨callee, receiver, values, scope, -, closure, -, rfl, -⟩ := enters
  obtain ⟨object, found, body⟩ := Option.bind_eq_some_iff.mp closure
  obtain ⟨name, there⟩ := (script.placed_moment settings sink log m).closures found body
  exact ⟨name, there.node⟩

theorem Enters.size_succ (enters : script.Enters settings sink log m ref place lambda) :
    ref < (script.moment settings sink log (m + 1)).state.heap.size := by
  obtain ⟨parent, fields, found, -⟩ := enters.get?_succ
  exact Heap.lt_size_of_get? found

/-- A scope is made once. -/
theorem Enters.unique {m' : Nat} {place' : Place} {lambda' : Lambda}
    (first : script.Enters settings sink log m ref place lambda)
    (second : script.Enters settings sink log m' ref place' lambda') : place = place' := by
  -- after the step that makes it, the heap has more objects than the reference
  have notLater {m m' : Nat} {place place' : Place} {lambda lambda' : Lambda}
      (first : script.Enters settings sink log m ref place lambda)
      (second : script.Enters settings sink log m' ref place' lambda') : ¬ m < m' := by
    intro less
    have grows := script.heap_moment_grows settings sink log (Nat.succ_le_of_lt less)
    have larger := Nat.lt_of_lt_of_le first.size_succ grows.size_le
    obtain ⟨-, -, -, -, -, -, -, -, size⟩ := second
    omega
  have same : m = m' := by
    have := notLater first second
    have := notLater second first
    omega
  subst same
  obtain ⟨callee, _, _, _, invokes, -, -, rfl, -⟩ := first
  obtain ⟨callee', _, _, _, invokes', -, -, rfl, -⟩ := second
  cases invokes.symm.trans invokes'
  rfl

theorem Enters.ne_root (enters : script.Enters settings sink log m ref place lambda) :
    ref ≠ Heap.root := by
  obtain ⟨fields, rooted⟩ := (script.plain_moment settings sink log m).heap.rooted
  have inside := Heap.lt_size_of_get? rooted
  obtain ⟨-, -, -, -, -, -, -, -, rfl⟩ := enters
  exact Nat.ne_of_gt inside

theorem Owns.mono {owner : Option Place} (owns : script.Owns settings sink log m ref owner)
    (later : m ≤ n) : script.Owns settings sink log n ref owner := by
  cases owns with
  | root => exact .root
  | entered earlier enters => exact .entered (Nat.lt_of_lt_of_le earlier later) enters

theorem Owns.unique {owner owner' : Option Place}
    (first : script.Owns settings sink log m ref owner)
    (second : script.Owns settings sink log n ref owner') : owner = owner' := by
  cases first with
  | root =>
      cases second with
      | root => rfl
      | entered _ enters => exact absurd rfl enters.ne_root
  | entered _ enters =>
      cases second with
      | root => exact absurd rfl enters.ne_root
      | entered _ enters' => exact congrArg some (enters.unique enters')

variable (script settings sink log)

/-- Code is evaluated in a scope of the function that stands around it. -/
theorem owns_of_mem_codes (n : Nat) :
    ∀ held ∈ (script.moment settings sink log n).codes,
      script.Owns settings sink log n held.2 (script.functionAround? held.1.place) := by
  induction n with
  | zero =>
      intro held listed
      obtain rfl := List.mem_singleton.mp listed
      exact .root
  | succ n ih =>
      intro held listed
      have placed := script.placed_moment settings sink log n
      rcases (script.move_moment settings sink log n).codes placed held listed with before | opens
      · exact (ih held before).mono (Nat.le_succ n)
      · cases opens with
        | @part code inner scope evaluates around =>
            have begun : (code, scope) ∈ (script.moment settings sink log n).codes := by
              unfold Moment.codes
              rw [evaluates]
              exact List.mem_cons_self
            have owns := ih _ begun
            rw [← around] at owns
            exact owns.mono (Nat.le_succ n)
        | body invokes closure fits =>
            have enters : script.Enters settings sink log n _ _ _ :=
              ⟨_, _, _, _, invokes, closure, fits, rfl, rfl⟩
            obtain ⟨name, stands⟩ := enters.stands
            have around := functionAround?_body stands rfl 0
            dsimp only
            rw [around]
            exact .entered (Nat.lt_succ_self n) enters

variable {script settings sink log}

/-- A node that is next stands where it says, in the function that owns its scope. -/
theorem owns_of_eval {code : Occurrence} {scope : Ref}
    (evaluates : (script.moment settings sink log n).focus = .task (.eval code scope)) :
    script.nodeAt? code.place = some code.node ∧
      script.Owns settings sink log n scope (script.functionAround? code.place) := by
  have placed := (script.placed_moment settings sink log n).focus
  rw [evaluates] at placed
  refine ⟨placed.node, script.owns_of_mem_codes settings sink log n (code, scope) ?_⟩
  unfold Moment.codes
  rw [evaluates]
  exact List.mem_cons_self

end Owners

end Script

/-! ## Names come from the text -/

/-- An assignment waits for its value in the scope in which it is evaluated. -/
theorem Task.Does.pushes_assignment {origins : Ref → Place} {heap heap' : Heap} {task : Task}
    {next : Next} {line : Line} {name : String} {declares : Bool} {scope : Ref}
    (does : task.Does origins heap next heap')
    (pushes : next.frames = [.assignment line name declares scope]) :
    ∃ place expr, task = .eval ⟨place, .assignment line name expr declares⟩ scope := by
  cases does with
  | eval begins => cases begins <;> cases pushes; exact ⟨_, _, rfl⟩
  | _ => cases pushes

theorem Frame.Resumes.frames_ne_assignment {heap heap' : Heap} {frame : Frame} {value : Value}
    {next : Next} {line : Line} {name : String} {declares : Bool} {scope : Ref}
    (resumes : frame.Resumes heap value next heap') :
    next.frames ≠ [.assignment line name declares scope] := by
  intro pushes
  cases resumes <;> cases pushes

namespace Script

section Names

variable {script : Script} {settings : Settings} {sink : Sink} {log : Log} {n : Nat} {ref : Ref}
  {name : String}

/-- Evaluation in a scope binds names of the function that owns the scope. -/
theorem binds_of_declares {owner : Option Place}
    (declares : (script.moment settings sink log n).Declares ref name)
    (owns : script.Owns settings sink log n ref owner) : script.Binds owner name := by
  cases declares with
  | function evaluates =>
      obtain ⟨stands, owns'⟩ := owns_of_eval evaluates
      exact .function stands (owns'.unique owns)
  | @assignment value line declares frames answered waits =>
      -- the assignment was begun when its frame was put on
      have absent : ¬ Frame.assignment line name declares ref :: frames <:+
          (script.moment settings sink log 0).frames := by
        simp [moment, Moment.start]
      have waiting : Frame.assignment line name declares ref :: frames <:+
          (script.moment settings sink log n).frames := waits ▸ List.suffix_refl _
      obtain ⟨j, earlier, pushed, new, -⟩ :=
        (Moment.exists_push (script.move_moment settings sink log) waiting).resolve_left absent
      rcases (script.move_moment settings sink log j).pushed pushed new with
        ⟨task, decided, heap, begun, -, does, pushes⟩ |
        ⟨_, before, decided, heap, -, -, resumes, pushes⟩
      · obtain ⟨place, expr, rfl⟩ := does.pushes_assignment pushes
        obtain ⟨stands, owns'⟩ := owns_of_eval begun
        exact .assignment stands (owns'.unique owns)
      · exact absurd pushes resumes.frames_ne_assignment

/-- A field assignment of the program names the field that is written. -/
theorem assignsField_of_writesField
    (writes : (script.moment settings sink log n).WritesField ref name) :
    script.AssignsField name := by
  obtain ⟨value, frames, answered, top⟩ := writes
  obtain ⟨i, j, place, line, receiver, name', expr, scope, frames', value', -, -, begun, -, -, -,
    -, -, -, top'⟩ :=
    fieldWrite_of_write (script.move_moment settings sink log) rfl answered top
  cases top.symm.trans top'
  exact ⟨place, line, receiver, expr, (owns_of_eval begun).1⟩

/-- No field of the scope of a call is ever assigned to. -/
theorem not_writesField {object : Object}
    (found : (script.moment settings sink log n).state.heap.get? ref = some object)
    (inner : object.parent ≠ none) :
    ¬ (script.moment settings sink log n).WritesField ref name := by
  rintro ⟨value, frames, answered, top⟩
  exact inner ((script.plain_moment settings sink log n).parent_of_write answered top found)

/-- From its entry on, the scope of a call holds the names that its function gives it. -/
theorem Enters.names {m : Nat} {place : Place} {lambda : Lambda}
    (enters : script.Enters settings sink log m ref place lambda) (later : m < n) :
    ∃ object, (script.moment settings sink log n).state.heap.get? ref = some object ∧
      object.parent ≠ none ∧
      object.Names ("this" :: (lambda.parameters.filter (· != "this")).eraseDups)
        (script.Binds (some place)) := by
  induction later with
  | refl =>
      obtain ⟨parent, fields, found, keys, nodup⟩ := enters.get?_succ
      refine ⟨_, found, nofun, nodup, [], ?_, fun _ listed => absurd listed List.not_mem_nil⟩
      rw [List.append_nil]
      exact keys
  | @step k later ih =>
      obtain ⟨object, found, inner, names⟩ := ih
      have owns : script.Owns settings sink log k ref (some place) := .entered later enters
      have allowed (name : String)
          (binds : (script.moment settings sink log k).Declares ref name ∨
            (script.moment settings sink log k).WritesField ref name) :
          script.Binds (some place) name :=
        binds.elim (binds_of_declares · owns) fun writes =>
          absurd writes (not_writesField found inner)
      obtain ⟨after, there, same, names⟩ :=
        (script.move_moment settings sink log k).names found names allowed
      exact ⟨after, there, same ▸ inner, names⟩

end Names

/-- The names that every run finds in the root scope at its start. -/
def rootNames : List String :=
  ["global", "print", "+", "-", "/", "*", "%", "==", "!=", "<", "<=", ">", ">="]

variable (script : Script) (settings : Settings) (sink : Sink) (log : Log)

theorem names_root (n : Nat) :
    ∃ object, (script.moment settings sink log n).state.heap.get? Heap.root = some object ∧
      object.Names rootNames fun name => script.Binds none name ∨ script.AssignsField name := by
  induction n with
  | zero =>
      have keys : Fields.keys (("global", .obj Heap.root) ::
          (Builtin.all settings).mapIdx fun i builtin =>
            (builtin.name, Value.obj (Heap.root + 1 + i))) = rootNames := rfl
      refine ⟨_, Heap.get?_initial_root settings, ?_, [], ?_,
        fun _ listed => absurd listed List.not_mem_nil⟩
      · exact keys ▸ (by decide : rootNames.Nodup)
      · rw [List.append_nil]
        exact keys
  | succ n ih =>
      obtain ⟨object, found, names⟩ := ih
      have allowed (name : String)
          (binds : (script.moment settings sink log n).Declares Heap.root name ∨
            (script.moment settings sink log n).WritesField Heap.root name) :
          script.Binds none name ∨ script.AssignsField name :=
        binds.imp (binds_of_declares · .root) assignsField_of_writesField
      obtain ⟨after, there, -, names⟩ :=
        (script.move_moment settings sink log n).names found names allowed
      exact ⟨after, there, names⟩

/-- Every scope of a call was made by entering a function of the program. -/
theorem exists_enters {n : Nat} {ref : Ref} {object : Object}
    (found : (script.moment settings sink log n).state.heap.get? ref = some object)
    (inner : object.parent ≠ none) :
    ∃ m < n, ∃ place lambda, script.Enters settings sink log m ref place lambda := by
  obtain ⟨m, earlier, ⟨callee, receiver, values, invokes⟩, rfl, entered, added, -⟩ :=
    exists_entry found inner
  obtain ⟨lambda, scope, closure, fits⟩ :=
    (script.move_moment settings sink log m).closure_of_invoke invokes added
  exact ⟨m, earlier, _, lambda, callee, receiver, values, scope, invokes, closure, fits, rfl, rfl⟩

/-- At every moment of a run:
* the scope of a call holds, each once, `this`, then the other parameters of the function that was
  called, then only names that are assigned to or given to functions in the body of this function,
  outside of the functions inside it; the function stands in the program, and every scope of a call
  was made by entering one;
* the root scope holds, each once, the names of the start, then only names that are assigned to or
  given to functions outside of all functions, and names of fields that are assigned to somewhere;
* when a step adds a name to the scope of a call, then it is this step of evaluation in the scope
  itself that binds the name: an assignment that has its value, or a named function. -/
theorem scope_names (n : Nat) :
    (∀ m ref place lambda, script.Enters settings sink log m ref place lambda → m < n →
      (∃ name, script.nodeAt? place =
        some (.function lambda.line name lambda.parameters lambda.body)) ∧
      ∃ object, (script.moment settings sink log n).state.heap.get? ref = some object ∧
        object.Names ("this" :: (lambda.parameters.filter (· != "this")).eraseDups)
          (script.Binds (some place))) ∧
    (∀ ref object, (script.moment settings sink log n).state.heap.get? ref = some object →
      object.parent ≠ none →
        ∃ m < n, ∃ place lambda, script.Enters settings sink log m ref place lambda) ∧
    (∃ object, (script.moment settings sink log n).state.heap.get? Heap.root = some object ∧
      object.Names rootNames fun name => script.Binds none name ∨ script.AssignsField name) ∧
    ∀ ref object later,
      (script.moment settings sink log n).state.heap.get? ref = some object →
      object.parent ≠ none →
      (script.moment settings sink log (n + 1)).state.heap.get? ref = some later →
      later.fields.keys ≠ object.fields.keys →
        ∃ name, (script.moment settings sink log n).Declares ref name ∧
          later.fields.keys = object.fields.keys ++ [name] := by
  refine ⟨fun m ref place lambda enters later => ⟨enters.stands, ?_⟩,
    fun ref object found inner => script.exists_enters settings sink log found inner,
    script.names_root settings sink log n, fun ref object later found inner there new => ?_⟩
  · obtain ⟨object, found, -, names⟩ := enters.names later
    exact ⟨object, found, names⟩
  · rcases (script.move_moment settings sink log n).fields found with
      same | ⟨name, value, binds, put⟩
    · cases same.symm.trans there
      exact absurd rfl new
    · cases put.symm.trans there
      have fresh : name ∉ object.fields.keys := fun listed =>
        new (Fields.keys_put_of_mem _ value listed)
      exact ⟨name, binds.resolve_right (not_writesField found inner),
        Fields.keys_put_of_not_mem _ value fresh⟩

end Script

end ScriptTree
