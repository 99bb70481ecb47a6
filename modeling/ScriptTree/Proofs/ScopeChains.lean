import ScriptTree.Proofs.PlainValues

/-!
# Scope chains

The scope in which a node is evaluated has as many scopes around it as there are functions around
the node in the program, and the outermost is the root scope. Calls may be nested as deep as they
like, and a function may be called long after the call that made it is over: its scope is a child of
the scope that the closure captured, and the closure was made where the function stands
(`Moment.Placed`).

A lookup goes along such a chain, so it comes to an end. `Heap.search?` is the lookup with a bound
on the objects it visits.
-/

namespace ScriptTree

/-! ## Chains -/

namespace Heap

/-- The scopes from one scope out to the root scope: how many there are around it. A scope is newer
than the one around it. -/
inductive ScopeAt (heap : Heap) : Ref → Nat → Prop
  | root {fields : Fields Value} (found : heap.get? root = some (.scope none fields)) :
    ScopeAt heap root 0
  | inner {ref parent : Ref} {depth : Nat} {fields : Fields Value}
      (found : heap.get? ref = some (.scope (some parent) fields)) (older : parent < ref)
      (around : ScopeAt heap parent depth) : ScopeAt heap ref (depth + 1)

/-- The whole chain of an object: the object and its parents, up to one without a parent. -/
inductive Linked (heap : Heap) : Ref → List Ref → Prop
  | last {ref : Ref} {object : Object} (found : heap.get? ref = some object)
      (top : object.parent = none) : Linked heap ref [ref]
  | next {ref parent : Ref} {object : Object} {links : List Ref}
      (found : heap.get? ref = some object) (inner : object.parent = some parent)
      (around : Linked heap parent links) : Linked heap ref (ref :: links)

/-- Looks a name up in an object and its parents, nearest first; `none` if that takes more than
`count` objects. -/
def search? (heap : Heap) : (count : Nat) → Ref → String → Option Value
  | 0, _, _ => none
  | count + 1, ref, key =>
      match heap.get? ref with
      | none => none
      | some object =>
          match object.fields.get? key with
          | some value => some value
          | none =>
              match object.parent with
              | none => some .undefined
              | some parent => heap.search? count parent key

variable {heap new : Heap} {ref : Ref} {depth : Nat} {links : List Ref}

theorem ScopeAt.grows (there : heap.ScopeAt ref depth) (grows : heap.Grows new) :
    new.ScopeAt ref depth := by
  induction there with
  | root found =>
      obtain ⟨fields, later⟩ := grows found
      exact .root later
  | inner found older around ih =>
      obtain ⟨fields, later⟩ := grows found
      exact .inner later older ih

theorem ScopeAt.depth_le (there : heap.ScopeAt ref depth) : depth ≤ ref := by
  induction there with
  | root => exact Nat.le_refl _
  | inner found older around ih => exact Nat.lt_of_le_of_lt ih older

theorem ScopeAt.lt_size (there : heap.ScopeAt ref depth) : ref < heap.size := by
  cases there with
  | root found | inner found => exact lt_size_of_get? found

theorem ScopeAt.depth_lt_size (there : heap.ScopeAt ref depth) : depth < heap.size :=
  Nat.lt_of_le_of_lt there.depth_le there.lt_size

/-- The scope of a call that is entered. -/
theorem ScopeAt.entered (there : heap.ScopeAt ref depth) (fields : Fields Value) :
    (heap.add (.scope (some ref) fields)).ScopeAt heap.size (depth + 1) := by
  have found : (heap.add (.scope (some ref) fields)).get? heap.size =
      some (.scope (some ref) fields) := by
    rw [get?_add, if_pos rfl]
  exact .inner found there.lt_size (there.grows (.add _ _))

/-- The chain of a scope has one scope for each of those around it, repeats none and ends in the
root scope. -/
theorem ScopeAt.exists_linked (there : heap.ScopeAt ref depth) :
    ∃ links, heap.Linked ref links ∧ links.length = 1 + depth ∧ links.Nodup ∧
      links.getLast? = some Heap.root ∧
      ∀ link ∈ links, link ≤ ref ∧
        ∃ parent fields, heap.get? link = some (.scope parent fields) := by
  induction there with
  | root found =>
      refine ⟨[_], .last found rfl, rfl, by simp, rfl, fun link listed => ?_⟩
      obtain rfl := List.mem_singleton.mp listed
      exact ⟨Nat.le_refl _, none, _, found⟩
  | @inner ref parent depth fields found older around ih =>
      obtain ⟨links, linked, length, nodup, last, scopes⟩ := ih
      refine ⟨ref :: links, .next found rfl linked, ?_, ?_, ?_, fun link listed => ?_⟩
      · rw [List.length_cons, length]
        omega
      · refine List.nodup_cons.mpr ⟨fun listed => ?_, nodup⟩
        have notNewer := (scopes ref listed).1
        exact absurd older (Nat.not_lt.mpr notNewer)
      · rw [List.getLast?_cons, last]
        rfl
      · rcases List.mem_cons.mp listed with rfl | further
        · exact ⟨Nat.le_refl _, some parent, fields, found⟩
        · obtain ⟨notNewer, scope⟩ := scopes link further
          exact ⟨Nat.le_trans notNewer (Nat.le_of_lt older), scope⟩

/-- An object keeps its chain while the heap grows. -/
theorem Linked.grows (linked : heap.Linked ref links) (grows : heap.Grows new) :
    new.Linked ref links := by
  induction linked with
  | last found top =>
      obtain ⟨fields, later⟩ := grows found
      exact .last later top
  | next found inner around ih =>
      obtain ⟨fields, later⟩ := grows found
      exact .next later inner ih

/-- The chain that a lookup goes along is the whole chain, if that is no longer than allowed. -/
theorem Linked.chainUpTo (linked : heap.Linked ref links) {count : Nat}
    (enough : links.length ≤ count) : heap.chainUpTo count ref = links := by
  induction linked generalizing count with
  | last found top =>
      obtain ⟨count, rfl⟩ := Nat.exists_eq_succ_of_ne_zero (Nat.ne_of_gt enough)
      simp only [Heap.chainUpTo, found, top]
  | next found inner around ih =>
      obtain ⟨count, rfl⟩ := Nat.exists_eq_succ_of_ne_zero
        (Nat.ne_of_gt (Nat.lt_of_lt_of_le (Nat.zero_lt_succ _) enough))
      simp only [Heap.chainUpTo, found, inner, ih (Nat.le_of_succ_le_succ enough)]

/-- A lookup finds what is bound nearest on the whole chain. -/
theorem Linked.lookup_eq (linked : heap.Linked ref links) (enough : links.length ≤ heap.size)
    (key : String) :
    heap.lookup ref key =
      (links.findSome? fun link => (heap.fields link).get? key).getD .undefined := by
  rw [lookup, find?, chain, linked.chainUpTo enough]

/-- A search visits no more objects than the chain has, and finds what is bound nearest. -/
theorem Linked.search?_eq (linked : heap.Linked ref links) (key : String) :
    heap.search? links.length ref key =
      some ((links.findSome? fun link => (heap.fields link).get? key).getD .undefined) := by
  induction linked with
  | @last ref object found top =>
      rw [List.findSome?_singleton, fields_of_get? found]
      cases bound : object.fields.get? key with
      | some value => simp [search?, found, bound]
      | none => simp [search?, found, bound, top]
  | @next ref parent object links found inner around ih =>
      rw [List.findSome?_cons, fields_of_get? found]
      cases bound : object.fields.get? key with
      | some value => simp [search?, found, bound]
      | none => simpa [search?, found, bound, inner] using ih

/-- The lookup of a name comes to an end along the chain. -/
theorem Linked.search?_eq_lookup (linked : heap.Linked ref links)
    (enough : links.length ≤ heap.size) (key : String) :
    heap.search? links.length ref key = some (heap.lookup ref key) := by
  rw [linked.search?_eq, linked.lookup_eq enough]

end Heap

/-! ## Where a node stands and is evaluated -/

/-- The node is the one at its place in the program, and the scope has as many scopes around it as
there are functions around the place. -/
structure Occurrence.At (script : Script) (heap : Heap) (code : Occurrence) (scope : Ref) :
    Prop where
  node : script.nodeAt? code.place = some code.node
  scope : heap.ScopeAt scope (script.functionsAround code.place)

namespace Occurrence

variable {script : Script} {heap new : Heap} {code : Occurrence} {scope : Ref}

theorem At.grows (there : code.At script heap scope) (grows : heap.Grows new) :
    code.At script new scope :=
  ⟨there.node, there.scope.grows grows⟩

/-- A child of a node that is not a function is evaluated in the scope of the node. -/
theorem At.child (there : code.At script heap scope) (noFunction : code.node.isFunction = false)
    {i : Nat} {node : Expr} (found : code.node.child? i = some node) :
    (code.child i node).At script heap scope := by
  refine ⟨?_, ?_⟩
  · change (script.nodeAt? code.place).bind (·.child? i) = some node
    rw [there.node]
    exact found
  · change heap.ScopeAt scope (script.functionsAround code.place +
      if (script.nodeAt? code.place).any Expr.isFunction then 1 else 0)
    rw [there.node, Option.any_some, noFunction]
    exact there.scope

theorem At.children (there : code.At script heap scope)
    (noFunction : code.node.isFunction = false) {nodes : List Expr} {position : Nat}
    (found : ∀ i node, nodes[i]? = some node → code.node.child? (position + i) = some node) :
    ∀ inner ∈ code.children position nodes, inner.At script heap scope := by
  induction nodes generalizing position with
  | nil => exact fun _ listed => absurd listed List.not_mem_nil
  | cons node rest ih =>
      intro inner listed
      rcases List.mem_cons.mp listed with rfl | later
      · exact there.child noFunction (found 0 node rfl)
      · refine @ih (position + 1) (fun i node listed => ?_) inner later
        rw [Nat.add_assoc, Nat.add_comm 1 i]
        exact found (i + 1) node listed

theorem At.named (there : code.At script heap scope) (noFunction : code.node.isFunction = false)
    {fields : List (String × Expr)} {position : Nat}
    (found : ∀ i field, fields[i]? = some field → code.node.child? (position + i) = some field.2) :
    ∀ inner ∈ code.named position fields, inner.2.At script heap scope := by
  induction fields generalizing position with
  | nil => exact fun _ listed => absurd listed List.not_mem_nil
  | cons field rest ih =>
      intro inner listed
      rcases List.mem_cons.mp listed with rfl | later
      · exact there.child noFunction (found 0 field rfl)
      · refine @ih (position + 1) (fun i field listed => ?_) inner later
        rw [Nat.add_assoc, Nat.add_comm 1 i]
        exact found (i + 1) field listed

/-- The body of a function is evaluated in a child of the scope that its closure captured. -/
theorem At.body {place : Place} {line : Line} {name : Option String} {parameters : List String}
    {body : Block Expr}
    (there : (⟨place, .function line name parameters body⟩ : Occurrence).At script heap scope)
    (fields : Fields Value) :
    (⟨0 :: place, .block body⟩ : Occurrence).At script (heap.add (.scope (some scope) fields))
      heap.size := by
  refine ⟨?_, ?_⟩
  · change (script.nodeAt? place).bind (·.child? 0) = some (.block body)
    rw [there.node]
    rfl
  · have entered := there.scope.entered fields
    rw [Script.functionsAround, there.node]
    exact entered

/-- In the body of a function there is one function more around a node than around the function. -/
example : (Script.mk ⟨none, [.function none none [] ⟨none, [.var none "x"]⟩]⟩).functionsAround
    [0, 0, 0] = 1 := rfl

end Occurrence

/-- What a task will evaluate stands where it says and has its scope. -/
def Task.Placed (script : Script) (heap : Heap) : Task → Prop
  | .eval code scope => code.At script heap scope
  | .elements rest scope | .arguments _ _ _ _ rest scope => ∀ code ∈ rest, code.At script heap scope
  | .fields _ rest scope => ∀ field ∈ rest, field.2.At script heap scope
  | .invoke .. => True

/-- What a waiting evaluation will evaluate stands where it says and has its scope. -/
def Frame.Placed (script : Script) (heap : Heap) : Frame → Prop
  | .element rest scope | .callee _ rest scope | .receiver _ _ rest scope
  | .argument _ _ _ _ rest scope => ∀ code ∈ rest, code.At script heap scope
  | .condition _ onTrue onFalse scope =>
      (∀ code ∈ onTrue, code.At script heap scope) ∧ ∀ code ∈ onFalse, code.At script heap scope
  | .initializer _ _ rest scope => ∀ field ∈ rest, field.2.At script heap scope
  | .target _ _ code scope => code.At script heap scope
  | .assignment .. | .returns | .field .. | .write .. | .call _ => True

/-- What is done next is placed. -/
def Focus.Placed (script : Script) (heap : Heap) : Focus → Prop
  | .task task' => task'.Placed script heap
  | .answer _ | .raise _ => True

/-- What an action decides on is placed. -/
structure Next.Placed (script : Script) (heap : Heap) (next : Next) : Prop where
  focus : next.focus.Placed script heap
  frames : ∀ frame ∈ next.frames, frame.Placed script heap

/-- Every closure was made where its function stands, in the scope that it captured. -/
def Heap.ClosuresAt (script : Script) (origins : Ref → Place) (heap : Heap) : Prop :=
  ∀ ⦃ref object lambda scope⦄, heap.get? ref = some object →
    object.body = some (.closure lambda scope) → ∃ name,
      (⟨origins ref, .function lambda.line name lambda.parameters lambda.body⟩ : Occurrence).At
        script heap scope

/-- The invariant: whatever a moment will evaluate, now or when a closure is called, stands where it
says and has its scope. -/
structure Moment.Placed (script : Script) (moment : Moment) : Prop where
  focus : moment.focus.Placed script moment.state.heap
  frames : ∀ frame ∈ moment.frames, frame.Placed script moment.state.heap
  closures : moment.state.heap.ClosuresAt script moment.origins

/-! ## What a step keeps placed -/

section Parts

variable {script : Script} {heap heap' : Heap} {next : Next}

theorem Frame.Placed.grows {frame : Frame} (placed : frame.Placed script heap)
    (grows : heap.Grows heap') : frame.Placed script heap' := by
  cases frame with
  | element | callee | receiver | argument | initializer =>
      exact fun code listed => (placed code listed).grows grows
  | condition =>
      exact ⟨fun code listed => (placed.1 code listed).grows grows,
        fun code listed => (placed.2 code listed).grows grows⟩
  | target => exact Occurrence.At.grows placed grows
  | _ => trivial

theorem Next.Placed.eval {frame : Frame} {code : Occurrence} {scope : Ref}
    (placed : code.At script heap scope) (waits : frame.Placed script heap) :
    (Next.eval frame code scope).Placed script heap :=
  ⟨placed, fun _ listed => List.mem_singleton.mp listed ▸ waits⟩

theorem Next.Placed.go {task : Task} (placed : task.Placed script heap) :
    (Next.go task).Placed script heap :=
  ⟨placed, fun _ listed => absurd listed List.not_mem_nil⟩

theorem Next.Placed.answer (completion : Completion Value) :
    (⟨.answer completion, []⟩ : Next).Placed script heap :=
  ⟨trivial, fun _ listed => absurd listed List.not_mem_nil⟩

theorem Occurrence.Begins.placed {scope : Ref} {place : Place} {node : Expr}
    (begins : Begins heap scope place node next heap')
    (there : (⟨place, node⟩ : Occurrence).At script heap scope) : next.Placed script heap' := by
  cases begins with
  | block => exact .go (there.children rfl fun i node found => (Nat.zero_add i).symm ▸ found)
  | literal | var | anonymous | named => exact .answer _
  | assignment | returns | field => exact .eval (there.child rfl rfl) trivial
  | @branch line condition onTrue onFalse =>
      have first : (⟨1 :: place, .block onTrue⟩ : Occurrence).At script heap scope :=
        there.child rfl rfl
      have second : (⟨2 :: place, .block onFalse⟩ : Occurrence).At script heap scope :=
        there.child rfl rfl
      refine .eval (there.child rfl rfl) ⟨first.children rfl ?_, second.children rfl ?_⟩
      all_goals exact fun i node found => (Nat.zero_add i).symm ▸ found
  | record =>
      refine .go (there.named rfl fun i field found => ?_)
      rw [Nat.zero_add]
      exact congrArg (Option.map Prod.snd) found
  | fieldAssignment => exact .eval (there.child rfl rfl) (there.child rfl rfl)
  | call | methodCall =>
      refine .eval (there.child rfl rfl) (there.children rfl fun i node found => ?_)
      rw [Nat.add_comm]
      exact found

theorem Task.Does.placed {origins : Ref → Place} {task : Task}
    (does : task.Does origins heap next heap') (placed : task.Placed script heap)
    (closures : heap.ClosuresAt script origins) : next.Placed script heap' := by
  cases does with
  | eval begins => exact begins.placed placed
  | noElement | record | builtin | external => exact .answer _
  | element | argument =>
      obtain ⟨first, rest⟩ := List.forall_mem_cons.mp placed
      exact .eval first rest
  | field =>
      obtain ⟨first, rest⟩ := List.forall_mem_cons.mp placed
      exact .eval first rest
  | call => exact ⟨trivial, fun _ listed => List.mem_singleton.mp listed ▸ trivial⟩
  | closure body fits =>
      obtain ⟨object, found, captured⟩ := Option.bind_eq_some_iff.mp body
      obtain ⟨name, there⟩ := closures found captured
      exact .go (there.body _)

theorem Frame.Resumes.placed {frame : Frame} {value : Value}
    (resumes : frame.Resumes heap value next heap') (placed : frame.Placed script heap) :
    next.Placed script heap' := by
  cases resumes with
  | element | initializer | callee | receiver | argument => exact .go placed
  | @condition line onTrue onFalse scope n =>
      refine .go ?_
      by_cases zero : n = 0
      · rw [if_pos zero]
        exact placed.2
      · rw [if_neg zero]
        exact placed.1
  | target => exact .eval placed trivial
  | assignment | returns | field | write | call => exact .answer _

end Parts

namespace Moment

variable {script : Script} {moment next : Moment}

/-- What was decided on, on top of frames that are placed from before. -/
theorem Placed.append {next : Next} {frames : List Frame} {state : State} {origins : Ref → Place}
    (now : next.Placed script state.heap)
    (waiting : ∀ frame ∈ frames, frame.Placed script state.heap)
    (closures : state.heap.ClosuresAt script origins) :
    Placed script ⟨next.focus, next.frames ++ frames, state, origins⟩ :=
  ⟨now.focus, List.forall_mem_append.mpr ⟨now.frames, waiting⟩, closures⟩

/-- A step keeps closures where their functions stand, and makes them there. -/
theorem Move.closures (move : Move moment next) (placed : moment.Placed script) :
    next.state.heap.ClosuresAt script next.origins := by
  intro ref object lambda scope found captured
  have grows := move.steps.grows
  rcases move.cases_get? found with ⟨before, there, same⟩ | ⟨rfl, task, does, adds⟩
  · rw [same] at captured
    obtain ⟨name, stands⟩ := placed.closures there captured
    rw [move.origins_of_lt (Heap.lt_size_of_get? there)]
    exact ⟨name, stands.grows grows⟩
  · cases adds with
    | @closure place line name parameters body =>
        cases captured
        have stands := placed.focus
        rw [does] at stands
        rw [move.origins_of_eval does, Function.update_self]
        exact ⟨name, Occurrence.At.grows stands grows⟩
    | record | scope => cases captured

/-- Every move keeps what will be evaluated in its place and in its scope. -/
theorem Move.placed (move : Move moment next) (placed : moment.Placed script) :
    next.Placed script := by
  have closures := move.closures placed
  have grows := move.steps.grows
  obtain ⟨focus, frames, before⟩ := placed
  cases move with
  | perform does =>
      have now := does.placed focus before
      exact .append now (fun frame waits => (frames frame waits).grows grows) closures
  | resume resumes =>
      obtain ⟨top, waiting⟩ := List.forall_mem_cons.mp frames
      have now := resumes.placed top
      exact .append now (fun frame waits => (waiting frame waits).grows grows) closures
  | refuse same => exact ⟨trivial, same ▸ frames, closures⟩
  | reject same => exact ⟨trivial, same ▸ (List.forall_mem_cons.mp frames).2, closures⟩
  | pass | unwind => exact ⟨trivial, (List.forall_mem_cons.mp frames).2, closures⟩
  | rest => exact ⟨focus, frames, closures⟩

end Moment

/-! ## The scopes of a run -/

namespace Script

variable (script : Script) (settings : Settings) (sink : Sink) (log : Log)

theorem placed_moment (n : Nat) : (script.moment settings sink log n).Placed script := by
  have rooted := Heap.get?_initial_root settings
  refine holds_from Moment.Move.placed (Nat.zero_le n) ⟨⟨rfl, .root rooted⟩, ?_, ?_⟩
  · exact fun _ listed => absurd listed List.not_mem_nil
  · intro ref object lambda scope found captured
    rcases Heap.eq_of_get?_initial found with rfl | ⟨builtin, rfl⟩
    · cases rooted.symm.trans found
      cases captured
    · cases captured

theorem heap_moment_grows {n m : Nat} (later : n ≤ m) :
    (script.moment settings sink log n).state.heap.Grows
      (script.moment settings sink log m).state.heap :=
  holds_from (P := fun moment => (script.moment settings sink log n).state.heap.Grows
      moment.state.heap)
    (fun move grows => grows.trans move.steps.grows) later (.refl _)

/-- At every moment of a run:
* a node that is evaluated stands in the program, and the chain of its scope has, from then on, one
  scope for each function around the node, and the root scope at its end; a variable is looked up
  there in no more objects than these;
* records and functions have no parent, and a field is looked up in one object. -/
theorem scope_chains (n : Nat) :
    (∀ code scope,
      (script.moment settings sink log n).focus = .task (.eval code scope) →
        script.nodeAt? code.place = some code.node ∧
        ∃ links : List Ref, links.length = 1 + script.functionsAround code.place ∧ links.Nodup ∧
          links.getLast? = some Heap.root ∧
          (∀ link ∈ links, ∃ parent fields,
            (script.moment settings sink log n).state.heap.get? link =
              some (.scope parent fields)) ∧
          ∀ m ≥ n, (script.moment settings sink log m).state.heap.Linked scope links ∧
            (script.moment settings sink log m).state.heap.chain scope = links ∧
            ∀ name, (script.moment settings sink log m).state.heap.search?
                (1 + script.functionsAround code.place) scope name =
              some ((script.moment settings sink log m).state.heap.lookup scope name)) ∧
    (∀ ref object, (script.moment settings sink log n).state.heap.get? ref = some object →
      object.isFunction = true ∨ object.name = "object" → object.parent = none) ∧
    ∀ ref, (script.moment settings sink log n).ActsOn ref →
      ∀ name, (script.moment settings sink log n).state.heap.search? 1 ref name =
        some ((script.moment settings sink log n).state.heap.lookup ref name) := by
  have plain := script.plain_moment settings sink log n
  refine ⟨fun code scope evaluates => ?_, fun ref object found kind => ?_,
    fun ref acts name => ?_⟩
  · have there := (script.placed_moment settings sink log n).focus
    rw [evaluates] at there
    obtain ⟨links, linked, length, nodup, last, scopes⟩ := there.scope.exists_linked
    refine ⟨there.node, links, length, nodup, last, fun link listed => (scopes link listed).2,
      fun m later => ?_⟩
    have grows := script.heap_moment_grows settings sink log later
    have linked := linked.grows grows
    have enough : links.length ≤ (script.moment settings sink log m).state.heap.size := by
      rw [length, Nat.add_comm]
      exact (there.scope.grows grows).depth_lt_size
    refine ⟨linked, linked.chainUpTo enough, fun name => ?_⟩
    rw [← length]
    exact linked.search?_eq_lookup enough name
  · by_cases atRoot : ref = Heap.root
    · obtain ⟨fields, rooted⟩ := plain.heap.rooted
      cases (atRoot ▸ found).symm.trans rooted
      rfl
    · rcases plain.heap.kinds found atRoot with free | ⟨parent, fields, rfl⟩
      · exact free.1
      · rcases kind with function | name
        · cases function
        · have different : "env" ≠ "object" := by decide
          exact absurd name different
  · obtain ⟨object, found, top⟩ := plain.parent_of_actsOn acts
    have alone := Heap.Linked.last found top
    exact alone.search?_eq_lookup (Nat.zero_lt_of_lt (Heap.lt_size_of_get? found)) name

end Script

end ScriptTree
