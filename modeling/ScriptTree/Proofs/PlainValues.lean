import ScriptTree.Proofs.Machine.Adequacy
import ScriptTree.Proofs.Machine.Effects

/-!
# Plain values

Scopes, records and functions are objects of one type, and nothing in the types keeps a scope out of
a field or an argument. What does is that no evaluation ever makes a value of one: every value that
a run computes with is plain (`Value.Plain`), that is, an integer, a string, undefined, a record, a
function or the root scope. So the object of a field access, of a field assignment or of a method
call has no parent, and a method is looked up in the receiver alone.

`Moment.Plain` is the invariant: the values in the fields of all objects are plain, and so are the
values that a moment holds. Every move keeps it (`Moment.Move.plain`).
-/

namespace ScriptTree

/-- A record or a function. Neither has a parent. -/
def Object.Plain (object : Object) : Prop :=
  object.parent = none ∧ (object.isFunction = true ∨ object.name = "object")

/-- The scope of a call: it has a parent. -/
def Object.IsCallScope (object : Object) : Prop :=
  ∃ parent fields, object = .scope (some parent) fields

/-- A value that programs compute with. -/
def Value.Plain (heap : Heap) : Value → Prop
  | .undefined | .int _ | .str _ => True
  | .obj ref => ref = Heap.root ∨ ∃ object, heap.get? ref = some object ∧ object.Plain
  | .flag _ | .null => False

namespace Heap

/-- The objects of a run: a root scope, and apart from it records, functions and the scopes of
calls, which hold plain values only. -/
structure Closed (heap : Heap) : Prop where
  rooted : ∃ fields, heap.get? root = some (.scope none fields)
  kinds : ∀ {ref object}, heap.get? ref = some object → ref ≠ root →
    object.Plain ∨ object.IsCallScope
  plain : ∀ {ref object}, heap.get? ref = some object →
    ∀ binding ∈ object.fields, binding.2.Plain heap
  inside : ∀ {ref object}, heap.get? ref = some object →
    ∀ call, object.body ≠ some (.external call)

end Heap

/-! ## Plain values in a heap -/

section Values

variable {heap new : Heap} {value : Value} {ref : Ref}

/-- A value stays plain while the heap grows. -/
theorem Value.Plain.grows (plain : value.Plain heap) (grows : heap.Grows new) :
    value.Plain new := by
  cases value with
  | undefined | int | str => trivial
  | obj ref =>
      rcases plain with atRoot | ⟨object, found, free⟩
      · exact .inl atRoot
      · obtain ⟨fields, later⟩ := grows found
        exact .inr ⟨_, later, free⟩
  | flag | null => exact plain

/-- A plain object has no parent. -/
theorem Heap.Closed.parent_eq_none (closed : heap.Closed) (plain : (Value.obj ref).Plain heap) :
    ∃ object, heap.get? ref = some object ∧ object.parent = none := by
  rcases plain with rfl | ⟨object, found, free, -⟩
  · obtain ⟨fields, found⟩ := closed.rooted
    exact ⟨_, found, rfl⟩
  · exact ⟨object, found, free⟩

/-- What is found on a chain is plain. -/
theorem Heap.Closed.lookup (closed : heap.Closed) (ref : Ref) (key : String) :
    (heap.lookup ref key).Plain heap := by
  rcases heap.lookup_eq_undefined_or_mem ref key with unbound | ⟨link, object, found, bound⟩
  · rw [unbound]
    trivial
  · exact closed.plain found _ bound

/-- A constant is plain. -/
theorem Literal.plain_toValue (literal : Literal) : literal.toValue.Plain heap := by
  cases literal <;> trivial

/-- A new record or function is plain. -/
theorem Value.Plain.added (heap : Heap) {object : Object} (free : object.Plain) :
    (Value.obj heap.size).Plain (heap.add object) := by
  refine .inr ⟨object, ?_, free⟩
  rw [Heap.get?_add, if_pos rfl]

theorem Object.plain_record (fields : Fields Value) : (Object.record fields).Plain :=
  ⟨rfl, .inr rfl⟩

theorem Object.plain_function (name : String) (body : Body) : (Object.function name body).Plain :=
  ⟨rfl, .inl rfl⟩

theorem Object.isCallScope_scope (parent : Ref) (fields : Fields Value) :
    (Object.scope (some parent) fields).IsCallScope :=
  ⟨parent, fields, rfl⟩

end Values

/-! ## What keeps the objects closed -/

namespace Heap

variable {heap : Heap}

theorem Closed.add (closed : heap.Closed) {object : Object}
    (kind : object.Plain ∨ object.IsCallScope)
    (plain : ∀ binding ∈ object.fields, binding.2.Plain heap)
    (inside : ∀ call, object.body ≠ some (.external call)) : (heap.add object).Closed := by
  have grows := Grows.add heap object
  -- an object of the new heap is the new one or one of before
  have cases {ref : Ref} {there : Object} (found : (heap.add object).get? ref = some there) :
      there = object ∨ heap.get? ref = some there := by
    rw [get?_add] at found
    split at found
    · exact .inl (Option.some.inj found).symm
    · exact .inr found
  refine ⟨?_, fun found other => ?_, fun found => ?_, fun found => ?_⟩
  · obtain ⟨fields, found⟩ := closed.rooted
    obtain ⟨fields', later⟩ := grows found
    exact ⟨fields', later⟩
  · rcases cases found with rfl | before
    · exact kind
    · exact closed.kinds before other
  · rcases cases found with rfl | before
    · exact fun binding bound => (plain binding bound).grows grows
    · exact fun binding bound => (closed.plain before binding bound).grows grows
  · rcases cases found with rfl | before
    · exact inside
    · exact closed.inside before

theorem Closed.register (closed : heap.Closed) (ref : Ref) (key : String) {value : Value}
    (plain : value.Plain heap) : (heap.register ref key value).Closed := by
  have grows := Grows.register heap ref key value
  -- an object of the new heap differs from the one of before in its fields at most
  have cases {other : Ref} {there : Object}
      (found : (heap.register ref key value).get? other = some there) :
      ∃ before, heap.get? other = some before ∧ there = { before with fields := there.fields } ∧
        (there.fields = before.fields ∨ there.fields = before.fields.put key value) := by
    rw [get?_register] at found
    split at found
    · obtain ⟨before, old, rfl⟩ := Option.map_eq_some_iff.mp found
      exact ⟨before, old, rfl, .inr rfl⟩
    · exact ⟨there, found, rfl, .inl rfl⟩
  refine ⟨?_, fun found other => ?_, fun found => ?_, fun found => ?_⟩
  · obtain ⟨fields, found⟩ := closed.rooted
    obtain ⟨fields', later⟩ := grows found
    exact ⟨fields', later⟩
  · obtain ⟨before, found, same, -⟩ := cases found
    rw [same]
    rcases closed.kinds found other with free | ⟨parent, fields, rfl⟩
    · exact .inl free
    · exact .inr ⟨parent, _, rfl⟩
  · obtain ⟨before, found, -, fields⟩ := cases found
    have old : ∀ binding ∈ before.fields, binding.2.Plain (heap.register ref key value) :=
      fun binding bound => (closed.plain found binding bound).grows grows
    rcases fields with same | put
    · rw [same]
      exact old
    · rw [put]
      exact Fields.forall_put old (plain.grows grows)
  · obtain ⟨before, found, same, -⟩ := cases found
    have inside := closed.inside found
    rw [same]
    exact inside

/-! ## The objects at the start -/

theorem get?_initial_root (settings : Settings) :
    (initial settings).get? root = some (.scope none
      (("global", .obj root) ::
        (Builtin.all settings).mapIdx fun i builtin => (builtin.name, .obj (root + 1 + i)))) := by
  simp [initial, get?, root]

theorem get?_initial_succ (settings : Settings) (i : Nat) :
    (initial settings).get? (i + 1) = (Builtin.all settings)[i]?.map fun builtin =>
      Object.function builtin.name (.builtin builtin) := by
  simp [initial, get?]

/-- An object at the start is the root scope or a function of the language. -/
theorem eq_of_get?_initial {settings : Settings} {ref : Ref} {object : Object}
    (found : (initial settings).get? ref = some object) :
    ref = root ∨ ∃ builtin : Builtin, object = .function builtin.name (.builtin builtin) := by
  cases ref with
  | zero => exact .inl rfl
  | succ i =>
      rw [get?_initial_succ] at found
      obtain ⟨builtin, -, rfl⟩ := Option.map_eq_some_iff.mp found
      exact .inr ⟨builtin, rfl⟩

/-- A run starts on closed objects. -/
theorem closed_initial (settings : Settings) : (initial settings).Closed := by
  refine ⟨⟨_, get?_initial_root settings⟩, fun found other => ?_, fun found => ?_, fun found => ?_⟩
  · rcases eq_of_get?_initial found with atRoot | ⟨builtin, rfl⟩
    · exact absurd atRoot other
    · exact .inl (Object.plain_function _ _)
  · rcases eq_of_get?_initial found with rfl | ⟨builtin, rfl⟩
    · rw [get?_initial_root] at found
      cases found
      intro binding bound
      rcases List.mem_cons.mp bound with rfl | bound
      · exact .inl rfl
      · obtain ⟨i, inside, rfl⟩ := List.mem_mapIdx.mp bound
        refine .inr ⟨.function (Builtin.all settings)[i].name (.builtin (Builtin.all settings)[i]),
          ?_, Object.plain_function _ _⟩
        rw [root, Nat.zero_add, Nat.add_comm, get?_initial_succ, List.getElem?_eq_getElem inside]
        rfl
    · exact fun _ bound => absurd bound List.not_mem_nil
  · rcases eq_of_get?_initial found with rfl | ⟨builtin, rfl⟩
    · rw [get?_initial_root] at found
      cases found
      exact fun _ => nofun
    · exact fun _ => nofun

end Heap

/-! ## The values of a moment -/

/-- The values that a task holds. The callee of a call is one of them. -/
def Task.values : Task → List Value
  | .fields done _ _ => done.map Prod.snd
  | .arguments _ callee receiver done _ _ => .obj callee :: receiver :: done
  | .invoke callee receiver values => .obj callee :: receiver :: values
  | .eval .. | .elements .. => []

/-- The values that a waiting evaluation holds. -/
def Frame.values : Frame → List Value
  | .initializer _ done _ _ => done.map Prod.snd
  | .write ref _ => [.obj ref]
  | .argument _ ref this done _ _ => .obj ref :: this :: done
  | .element .. | .assignment .. | .returns | .condition .. | .field .. | .target .. | .callee ..
  | .receiver .. | .call _ => []

/-- The values of what is done next. An outcome is a value in either way of completing. -/
def Focus.values : Focus → List Value
  | .task task' => task'.values
  | .answer (.value result) | .answer (.returning result) => [result]
  | .raise _ => []

/-- The values of what an action decides on. -/
def Next.values (next : Next) : List Value :=
  next.focus.values ++ next.frames.flatMap Frame.values

/-- All values that a moment holds apart from the objects: the outcome of an evaluation or of an
invocation, and callees, receivers, arguments and initial fields so far. -/
def Moment.values (moment : Moment) : List Value :=
  moment.focus.values ++ moment.frames.flatMap Frame.values

/-- The invariant: every value of a moment is plain, in a field or elsewhere. -/
structure Moment.Plain (moment : Moment) : Prop where
  heap : moment.state.heap.Closed
  values : ∀ value ∈ moment.values, value.Plain moment.state.heap

section Next

variable {frame : Frame} {code : Occurrence} {scope : Ref} {task : Task} {result : Value}

@[simp] theorem Next.values_eval : (Next.eval frame code scope).values = frame.values := by
  simp [Next.values, Next.eval, Focus.values, Task.values]

@[simp] theorem Next.values_go : (Next.go task).values = task.values :=
  List.append_nil _

@[simp] theorem Next.values_value : (Next.value result).values = [result] := rfl

@[simp] theorem Next.values_returning : (Next.returning result).values = [result] := rfl

end Next

/-! ## What a step keeps plain -/

section Parts

variable {heap heap' : Heap} {next : Next}

theorem Occurrence.Begins.plain {scope : Ref} {place : Place} {node : Expr}
    (begins : Begins heap scope place node next heap') (closed : heap.Closed) :
    heap'.Closed ∧ ∀ value ∈ next.values, value.Plain heap' := by
  cases begins with
  | literal => exact ⟨closed, by simpa using Literal.plain_toValue _⟩
  | var => exact ⟨closed, by simpa using closed.lookup _ _⟩
  | @anonymous line parameters body =>
      have free := Object.plain_function "lambda"
        (.closure ⟨line, "lambda", parameters, body⟩ scope)
      have added := closed.add (.inl free) nofun fun _ => nofun
      exact ⟨added, by simpa using .added heap free⟩
  | @named line name parameters body =>
      have free := Object.plain_function name (.closure ⟨line, name, parameters, body⟩ scope)
      have added := closed.add (.inl free) nofun fun _ => nofun
      have new := Value.Plain.added heap free
      have bound := added.register scope name new
      exact ⟨bound, by simpa using new.grows (.register _ _ _ _)⟩
  | _ => exact ⟨closed, by simp [Task.values, Frame.values]⟩

theorem Task.Does.plain {origins : Ref → Place} {task : Task}
    (does : task.Does origins heap next heap') (closed : heap.Closed)
    (plain : ∀ value ∈ task.values, value.Plain heap) :
    heap'.Closed ∧ ∀ value ∈ next.values, value.Plain heap' := by
  cases does with
  | eval begins => exact begins.plain closed
  | noElement => exact ⟨closed, by simp [Value.Plain]⟩
  | element => exact ⟨closed, by simp [Frame.values]⟩
  | @record done =>
      have free := Object.plain_record (.ofList done)
      have initial : ∀ binding ∈ Fields.ofList done, binding.2.Plain heap :=
        Fields.forall_ofList fun pair listed => plain _ (List.mem_map_of_mem listed)
      have added := closed.add (.inl free) initial fun _ => nofun
      exact ⟨added, by simpa using .added heap free⟩
  | field => exact ⟨closed, by simpa [Frame.values, Task.values] using plain⟩
  | call =>
      exact ⟨closed, by simpa [Next.values, Focus.values, Frame.values, Task.values] using plain⟩
  | argument => exact ⟨closed, by simpa [Frame.values, Task.values] using plain⟩
  | builtin body given =>
      rcases given with rfl | ⟨n, rfl⟩ <;> exact ⟨closed, by simp [Value.Plain]⟩
  | @closure callee receiver values lambda scope body fits =>
      -- the scope of the call binds the receiver and arguments
      have bound : ∀ binding ∈ Eval.callBindings lambda receiver values,
          binding.2.Plain heap := by
        refine Fields.forall_ofList fun pair listed => ?_
        rcases List.mem_cons.mp listed with rfl | parameter
        · exact plain _ (by simp [Task.values])
        · have argument := (List.of_mem_zip (a := pair.1) (b := pair.2) parameter).2
          exact plain _ (by simp [Task.values, argument])
      have kind := Object.isCallScope_scope scope (Eval.callBindings lambda receiver values)
      have added := closed.add (.inr kind) bound fun _ => nofun
      exact ⟨added, by simp [Task.values]⟩
  | @external callee receiver values call result body given =>
      obtain ⟨object, found, external⟩ := Option.bind_eq_some_iff.mp body
      exact absurd external (closed.inside found call)

theorem Frame.Resumes.plain {frame : Frame} {value : Value}
    (resumes : frame.Resumes heap value next heap') (closed : heap.Closed)
    (plain : ∀ held ∈ frame.values, held.Plain heap) (resumed : value.Plain heap) :
    heap'.Closed ∧ ∀ held ∈ next.values, held.Plain heap' := by
  cases resumes with
  | element => exact ⟨closed, by simp [Task.values]⟩
  | assignment => exact ⟨closed.register _ _ resumed, by simp [Value.Plain]⟩
  | write => exact ⟨closed.register _ _ resumed, by simp [Value.Plain]⟩
  | returns => exact ⟨closed, by simpa using resumed⟩
  | condition => exact ⟨closed, by simp [Task.values]⟩
  | initializer =>
      refine ⟨closed, ?_⟩
      rw [Next.values_go, Task.values, List.map_append]
      exact List.forall_mem_append.mpr ⟨plain, List.forall_mem_singleton.mpr resumed⟩
  | field => exact ⟨closed, by simpa using closed.lookup _ _⟩
  | target => exact ⟨closed, by simpa [Frame.values] using resumed⟩
  | callee => exact ⟨closed, by simpa [Task.values, Value.Plain] using resumed⟩
  | @receiver line name rest scope holder ref found =>
      have method := closed.lookup holder name
      rw [found] at method
      exact ⟨closed, by simpa [Task.values] using ⟨method, resumed⟩⟩
  | @argument line callee receiver done =>
      refine ⟨closed, ?_⟩
      rw [Next.values_go]
      change ∀ held ∈ (.obj callee :: receiver :: done) ++ [value], held.Plain heap
      exact List.forall_mem_append.mpr ⟨plain, List.forall_mem_singleton.mpr resumed⟩
  | call => exact ⟨closed, by simp [Value.Plain]⟩

end Parts

namespace Moment

variable {moment next : Moment}

/-- The values of a moment are those of what was decided on last and of the frames before it. -/
theorem values_append {next : Next} {frames : List Frame} {state : State}
    {origins : Ref → Place} :
    values ⟨next.focus, next.frames ++ frames, state, origins⟩ =
      next.values ++ frames.flatMap Frame.values := by
  simp [values, Next.values]

/-- A moment on the same objects that holds no other values. -/
theorem Plain.of_subset (plain : moment.Plain) (same : next.state.heap = moment.state.heap)
    (subset : next.values ⊆ moment.values) : next.Plain :=
  ⟨same ▸ plain.heap, fun value held => same ▸ plain.values value (subset held)⟩

/-- What was decided on, on top of frames that hold plain values from before. -/
theorem Plain.append {next : Next} {frames : List Frame} {state : State} {origins : Ref → Place}
    (now : state.heap.Closed ∧ ∀ value ∈ next.values, value.Plain state.heap)
    (waiting : ∀ value ∈ frames.flatMap Frame.values, value.Plain state.heap) :
    Plain ⟨next.focus, next.frames ++ frames, state, origins⟩ :=
  ⟨now.1, values_append ▸ List.forall_mem_append.mpr ⟨now.2, waiting⟩⟩

/-- Every move keeps the values of a moment plain. -/
theorem Move.plain (move : Move moment next) (plain : moment.Plain) : next.Plain := by
  have grows := move.steps.grows
  cases move with
  | perform does =>
      obtain ⟨here, waiting⟩ := List.forall_mem_append.mp plain.values
      have now := does.plain plain.heap here
      exact .append now fun value held => (waiting value held).grows grows
  | resume resumes =>
      obtain ⟨resumed, held⟩ := List.forall_mem_append.mp plain.values
      obtain ⟨here, waiting⟩ := List.forall_mem_append.mp (List.flatMap_cons ▸ held)
      have now := resumes.plain plain.heap here (resumed _ List.mem_cons_self)
      exact .append now fun value held => (waiting value held).grows grows
  | refuse same => exact plain.of_subset same (List.subset_append_right _ _)
  | reject same =>
      exact plain.of_subset same
        (List.Subset.trans (List.subset_append_right _ _) (List.subset_cons_self _ _))
  | @pass result frame =>
      refine plain.of_subset rfl ?_
      cases frame <;> exact List.cons_subset_cons result (List.subset_append_right _ _)
  | @unwind _ frame => exact plain.of_subset rfl (List.subset_append_right frame.values _)
  | rest => exact plain

end Moment

/-! ## Where the function of a call comes from -/

/-- A call between the lookup of its function and the entry into it: what it invokes, what it binds
as the receiver, and the frames that wait for its value. -/
structure PendingCall where
  callee : Ref
  receiver : Value
  waiting : List Frame

/-- The call that is done next. An invocation waits under the frame of its own call. -/
def Focus.calls (frames : List Frame) : Focus → List PendingCall
  | .task (.arguments _ callee receiver _ _ _) => [⟨callee, receiver, frames⟩]
  | .task (.invoke callee receiver _) => [⟨callee, receiver, frames.tail⟩]
  | _ => []

/-- The calls that wait for the value of an argument. -/
def Frame.calls : List Frame → List PendingCall
  | [] => []
  | .argument _ ref this _ _ _ :: frames => ⟨ref, this, frames⟩ :: calls frames
  | _ :: frames => calls frames

/-- The calls of what an action decides on, on top of frames from before. -/
def Next.calls (frames : List Frame) (next : Next) : List PendingCall :=
  next.focus.calls (next.frames ++ frames) ++ Frame.calls (next.frames ++ frames)

/-- The moment at which a call has its function: the callee itself without a receiver, or a method
that the receiver itself holds. -/
inductive Moment.FindsFunction : Moment → PendingCall → Prop
  | callee {ref scope : Ref} {line : Line} {rest : List Occurrence} {frames : List Frame}
      {state : State} {origins : Ref → Place} :
    FindsFunction ⟨.answer (.value (.obj ref)), .callee line rest scope :: frames, state, origins⟩
      ⟨ref, .undefined, frames⟩
  | method {ref holder scope : Ref} {line : Line} {name : String} {rest : List Occurrence}
      {frames : List Frame} {state : State} {origins : Ref → Place}
      (held : (state.heap.fields holder).get? name = some (.obj ref)) :
    FindsFunction
      ⟨.answer (.value (.obj holder)), .receiver line name rest scope :: frames, state, origins⟩
      ⟨ref, .obj holder, frames⟩

/-- The object of a field access, of a field assignment or of a method call, when it is read from or
written to. -/
inductive Moment.ActsOn : Moment → Ref → Prop
  | access {ref : Ref} {line : Line} {name : String} {frames : List Frame} {state : State}
      {origins : Ref → Place} :
    ActsOn ⟨.answer (.value (.obj ref)), .field line name :: frames, state, origins⟩ ref
  | assignment {ref : Ref} {value : Value} {name : String} {frames : List Frame} {state : State}
      {origins : Ref → Place} :
    ActsOn ⟨.answer (.value value), .write ref name :: frames, state, origins⟩ ref
  | method {ref scope : Ref} {line : Line} {name : String} {rest : List Occurrence}
      {frames : List Frame} {state : State} {origins : Ref → Place} :
    ActsOn ⟨.answer (.value (.obj ref)), .receiver line name rest scope :: frames, state, origins⟩
      ref

/-- The calls whose functions were looked up and not entered yet. -/
def Moment.calls (moment : Moment) : List PendingCall :=
  moment.focus.calls moment.frames ++ Frame.calls moment.frames

section Parts

variable {heap heap' : Heap} {next : Next} {frames : List Frame}

theorem Occurrence.Begins.calls {scope : Ref} {place : Place} {node : Expr}
    (begins : Begins heap scope place node next heap') :
    next.calls frames = Frame.calls frames := by
  cases begins <;> rfl

/-- A task looks no function up. -/
theorem Task.Does.calls {origins : Ref → Place} {task : Task}
    (does : task.Does origins heap next heap') :
    next.calls frames ⊆ (Focus.task task).calls frames ++ Frame.calls frames := by
  cases does with
  | eval begins => exact begins.calls ▸ List.Subset.refl _
  | call | argument => exact List.Subset.refl _
  | _ => exact List.subset_append_right _ _

/-- A callee is called without a receiver, and a method is held by the receiver itself. -/
theorem Frame.Resumes.calls {frame : Frame} {value : Value} {state : State} {origins : Ref → Place}
    (resumes : frame.Resumes state.heap value next heap') (closed : state.heap.Closed)
    (plain : value.Plain state.heap) :
    ∀ call ∈ next.calls frames,
      call ∈ Frame.calls (frame :: frames) ∨
        (⟨.answer (.value value), frame :: frames, state, origins⟩ :
          Moment).FindsFunction call := by
  intro call pending
  cases resumes with
  | callee =>
      rcases List.mem_cons.mp pending with rfl | waiting
      · exact .inr .callee
      · exact .inl waiting
  | receiver found =>
      rcases List.mem_cons.mp pending with rfl | waiting
      · obtain ⟨object, there, top⟩ := closed.parent_eq_none plain
        exact .inr (.method (Heap.get?_fields_of_lookup there top found))
      · exact .inl waiting
  | _ => exact .inl pending

end Parts

namespace Moment

variable {moment next : Moment}

/-- An object that is read from or written to as a value has no parent. -/
theorem Plain.parent_of_actsOn (plain : moment.Plain) {ref : Ref} (acts : moment.ActsOn ref) :
    ∃ object, moment.state.heap.get? ref = some object ∧ object.parent = none := by
  refine plain.heap.parent_eq_none (plain.values _ ?_)
  cases acts with
  | access | method => exact List.mem_cons_self
  | assignment => exact List.mem_cons_of_mem _ List.mem_cons_self

/-- A call comes from the moment before, or has its function from it. -/
theorem Move.calls (move : Move moment next) (plain : moment.Plain) :
    ∀ call ∈ next.calls, call ∈ moment.calls ∨ moment.FindsFunction call := by
  intro call pending
  cases move with
  | perform does => exact .inl (does.calls pending)
  | resume resumes =>
      exact resumes.calls plain.heap (plain.values _ List.mem_cons_self) call pending
  | refuse => exact .inl (List.mem_append_right _ pending)
  | @reject _ frame | @pass _ frame | @unwind _ frame =>
      cases frame <;> first | exact .inl pending | exact .inl (List.mem_cons_of_mem _ pending)
  | rest => exact .inl pending

end Moment

/-! ## The values of a run -/

namespace Script

variable (script : Script) (settings : Settings) (sink : Sink) (log : Log)

theorem plain_moment (n : Nat) : (script.moment settings sink log n).Plain := by
  refine holds_from Moment.Move.plain (Nat.zero_le n) ⟨Heap.closed_initial settings, ?_⟩
  exact fun value held => absurd held List.not_mem_nil

/-- Every call had its function at some moment before. -/
theorem exists_findsFunction (n : Nat) :
    ∀ call ∈ (script.moment settings sink log n).calls,
      ∃ m < n, (script.moment settings sink log m).FindsFunction call := by
  induction n with
  | zero => exact fun call pending => absurd pending List.not_mem_nil
  | succ n ih =>
      intro call pending
      have plain := script.plain_moment settings sink log n
      rcases (script.move_moment settings sink log n).calls plain call pending with before | found
      · obtain ⟨m, earlier, found⟩ := ih call before
        exact ⟨m, Nat.lt_succ_of_lt earlier, found⟩
      · exact ⟨n, Nat.lt_succ_self n, found⟩

/-- Every value of a run is plain, at every moment and in the state that the run leaves. So every
object that is read from or written to as a value has no parent, and what is invoked is the callee
of its call, without a receiver, or a method that the receiver itself held when it was looked up for
this call. -/
theorem values_plain (n : Nat) :
    (script.moment settings sink log n).Plain ∧
      (∀ ref, (script.moment settings sink log n).ActsOn ref →
        ∃ object, (script.moment settings sink log n).state.heap.get? ref = some object ∧
          object.parent = none) ∧
      (∀ callee receiver values,
        (script.moment settings sink log n).focus = .task (.invoke callee receiver values) →
          ∃ m < n, (script.moment settings sink log m).FindsFunction
            ⟨callee, receiver, (script.moment settings sink log n).frames.tail⟩) ∧
      ∀ report, script.run (.sink sink) settings log = .ok report → report.state.heap.Closed := by
  have plain := script.plain_moment settings sink log n
  refine ⟨plain, fun ref acts => plain.parent_of_actsOn acts,
    fun callee receiver values invokes => ?_, fun report ran => ?_⟩
  · refine script.exists_findsFunction settings sink log n ⟨callee, receiver, _⟩ ?_
    unfold Moment.calls
    rw [invokes]
    exact List.mem_cons_self
  · obtain ⟨last, -, -, same, -⟩ := exists_moment_of_run ran
    exact same ▸ (script.plain_moment settings sink log last).heap

end Script

end ScriptTree
