import ScriptTree.Proofs.HeapGrowth
import ScriptTree.Proofs.Machine.Moves

/-!
# What one step does to the objects

`Moment.written?` is the one object in which the next step may bind a name, and `Moment.scopes` are
the scopes in which something is being evaluated. `Moment.Move.steps` and `Moment.Move.scopes` say
what a step does to the objects and to these scopes; what a run keeps of either follows by induction
on the number of steps.
-/

namespace ScriptTree

/-! ## Where a moment evaluates and writes -/

/-- The scope in which a task evaluates nodes. An invocation has none before it begins. -/
def Task.scopes : Task → List Ref
  | .eval _ scope | .elements _ scope | .fields _ _ scope | .arguments _ _ _ _ _ scope => [scope]
  | .invoke .. => []

/-- The scope in which a waiting evaluation goes on. -/
def Frame.scopes : Frame → List Ref
  | .element _ scope | .assignment _ _ _ scope | .condition _ _ _ scope | .initializer _ _ _ scope
  | .target _ _ _ scope | .callee _ _ scope | .receiver _ _ _ scope
  | .argument _ _ _ _ _ scope => [scope]
  | .returns | .field .. | .write .. | .call _ => []

/-- The scope in which something is done next. -/
def Focus.scopes : Focus → List Ref
  | .task task' => task'.scopes
  | .answer _ | .raise _ => []

/-- The scopes in which frames go on. -/
def Frame.allScopes (frames : List Frame) : List Ref :=
  frames.flatMap Frame.scopes

/-- The scopes of what an action decides on. -/
def Next.scopes (next : Next) : List Ref :=
  next.focus.scopes ++ Frame.allScopes next.frames

/-- The scope that the evaluation of a node begins with writing to. -/
def Occurrence.written? (code : Occurrence) (scope : Ref) : Option Ref :=
  match code.node with
  | .function _ (some _) _ _ => some scope
  | _ => none

/-- The object that a task begins with writing to. -/
def Task.written? : Task → Option Ref
  | .eval code scope => code.written? scope
  | _ => none

/-- The object that a waiting evaluation writes to when it has its value. -/
def Frame.written? : Frame → Option Ref
  | .assignment _ _ _ scope => some scope
  | .write ref _ => some ref
  | _ => none

namespace Moment

/-- The scopes in which something is being evaluated. -/
def scopes (moment : Moment) : List Ref :=
  moment.focus.scopes ++ Frame.allScopes moment.frames

/-- The object that the next step may write to, of those that are there. -/
def written? (moment : Moment) : Option Ref :=
  match moment.focus, moment.frames with
  | .task task, _ => task.written?
  | .answer (.value _), frame :: _ => frame.written?
  | _, _ => none

end Moment

/-! ## The parts of a step -/

section Next

variable {frame : Frame} {code : Occurrence} {scope : Ref} {task : Task} {result : Value}

@[simp] theorem Next.scopes_eval :
    (Next.eval frame code scope).scopes = scope :: frame.scopes := by
  simp [Next.scopes, Next.eval, Focus.scopes, Task.scopes, Frame.allScopes]

@[simp] theorem Next.scopes_go : (Next.go task).scopes = task.scopes :=
  List.append_nil _

@[simp] theorem Next.scopes_value : (Next.value result).scopes = [] := rfl

@[simp] theorem Next.scopes_returning : (Next.returning result).scopes = [] := rfl

end Next

section Parts

variable {heap heap' : Heap} {next : Next}

/-- A named function is bound in the scope where it stands; no other node begins with a write. -/
theorem Occurrence.Begins.steps {scope : Ref} {place : Place} {node : Expr}
    (begins : Begins heap scope place node next heap') :
    heap.Steps (written? ⟨place, node⟩ scope) heap' := by
  cases begins with
  | anonymous => exact .add _ _ _
  | named => exact (Heap.Steps.add _ _ _).trans (.register _ _ _ _)
  | _ => exact .refl _ _

/-- The parts of a node are evaluated in its scope. -/
theorem Occurrence.Begins.scopes {scope : Ref} {place : Place} {node : Expr}
    (begins : Begins heap scope place node next heap') : ∀ inner ∈ next.scopes, inner = scope := by
  intro inner listed
  cases begins <;> simp_all [Task.scopes, Frame.scopes]

theorem Task.Does.steps {origins : Ref → Place} {task : Task}
    (does : task.Does origins heap next heap') : heap.Steps task.written? heap' := by
  cases does with
  | eval begins => exact begins.steps
  | record | closure => exact .add _ _ _
  | _ => exact .refl _ _

/-- A task goes on in its own scope; only a function of the program begins a new one. -/
theorem Task.Does.scopes {origins : Ref → Place} {task : Task}
    (does : task.Does origins heap next heap') :
    ∀ scope ∈ next.scopes,
      scope ∈ task.scopes ∨ scope = heap.size ∧ heap.size < heap'.size := by
  intro inner listed
  cases does with
  | eval begins => exact .inl (List.mem_singleton.mpr (begins.scopes inner listed))
  | closure =>
      rw [Heap.size_add]
      exact .inr ⟨List.mem_singleton.mp listed, Nat.lt_succ_self _⟩
  | element | field | argument => exact .inl (by simpa [Task.scopes, Frame.scopes] using listed)
  | noElement | record | call | builtin | external => exact (List.not_mem_nil listed).elim

theorem Frame.Resumes.steps {frame : Frame} {value : Value}
    (resumes : frame.Resumes heap value next heap') : heap.Steps frame.written? heap' := by
  cases resumes with
  | assignment | write => exact .register _ _ _ _
  | _ => exact .refl _ _

/-- A waiting evaluation goes on in the scope in which it waited. -/
theorem Frame.Resumes.scopes {frame : Frame} {value : Value}
    (resumes : frame.Resumes heap value next heap') :
    ∀ scope ∈ next.scopes, scope ∈ frame.scopes := by
  intro inner listed
  cases resumes <;> simp_all [Task.scopes, Frame.scopes]

end Parts

/-! ## What is added -/

/-- An object that something done adds: a record, the closure of a function that is evaluated, or
the scope of a call that is entered. -/
inductive Task.Adds : Task → Object → Prop
  | record {done : List (String × Value)} {scope : Ref} {fields : Fields Value} :
    Adds (.fields done [] scope) (.record fields)
  | closure {place : Place} {line : Line} {name : Option String} {parameters : List String}
      {body : Block Expr} {scope : Ref} {fields : Fields Value} :
    Adds (.eval ⟨place, .function line name parameters body⟩ scope)
      { Object.function (name.getD "lambda")
          (.closure ⟨line, name.getD "lambda", parameters, body⟩ scope) with fields }
  | scope {callee : Ref} {receiver : Value} {values : List Value} {parent : Ref}
      {fields : Fields Value} :
    Adds (.invoke callee receiver values) (.scope (some parent) fields)

section Added

variable {heap heap' : Heap} {next : Next} {ref : Ref}

theorem Task.Does.adds {origins : Ref → Place} {task : Task} {object : Object}
    (does : task.Does origins heap next heap') (new : heap.get? ref = none)
    (found : heap'.get? ref = some object) : ref = heap.size ∧ task.Adds object := by
  have added {there before : Object} (found : (heap.add there).get? ref = some before) :
      ref = heap.size ∧ there = before := by
    rw [Heap.get?_add, new] at found
    split at found
    · exact ⟨‹_›, Option.some.inj found⟩
    · cases found
  cases does with
  | eval begins =>
      cases begins with
      | anonymous =>
          obtain ⟨last, rfl⟩ := added found
          exact ⟨last, .closure⟩
      | named =>
          rw [Heap.get?_register] at found
          split at found
          · obtain ⟨before, there, rfl⟩ := Option.map_eq_some_iff.mp found
            obtain ⟨last, rfl⟩ := added there
            exact ⟨last, .closure⟩
          · obtain ⟨last, rfl⟩ := added found
            exact ⟨last, .closure⟩
      | _ => cases new.symm.trans found
  | record =>
      obtain ⟨last, rfl⟩ := added found
      exact ⟨last, .record⟩
  | closure =>
      obtain ⟨last, rfl⟩ := added found
      exact ⟨last, .scope⟩
  | _ => cases new.symm.trans found

/-- A waiting evaluation adds nothing when it goes on. -/
theorem Frame.Resumes.adds_none {frame : Frame} {value : Value}
    (resumes : frame.Resumes heap value next heap') (new : heap.get? ref = none) :
    heap'.get? ref = none := by
  cases resumes with
  | assignment | write =>
      rw [Heap.get?_register, new]
      split <;> rfl
  | _ => exact new

end Added

/-! ## One step -/

namespace Moment

variable {moment next : Moment}

/-- The scopes of a moment are those of what was decided on last and of the frames before it. -/
theorem scopes_append {next : Next} {frames : List Frame} {state : State}
    {origins : Ref → Place} :
    scopes ⟨next.focus, next.frames ++ frames, state, origins⟩ =
      next.scopes ++ Frame.allScopes frames := by
  simp [scopes, Next.scopes, Frame.allScopes]

/-- A step writes to one object at most, of those that are there. -/
theorem Move.steps (move : Move moment next) :
    moment.state.heap.Steps moment.written? next.state.heap := by
  cases move with
  | perform does => exact does.steps
  | resume resumes => exact resumes.steps
  | refuse same | reject same => exact same ▸ .refl _ _
  | pass | unwind | rest => exact .refl _ _

/-- An object is one of before, if with other fields, or what the step adds. -/
theorem Move.cases_get? {ref : Ref} {object : Object} (move : Move moment next)
    (found : next.state.heap.get? ref = some object) :
    (∃ before, moment.state.heap.get? ref = some before ∧
        object = { before with fields := object.fields }) ∨
      ref = moment.state.heap.size ∧ ∃ task, moment.focus = .task task ∧ task.Adds object := by
  cases before : moment.state.heap.get? ref with
  | some there =>
      obtain ⟨fields, later⟩ := move.steps.grows before
      cases found.symm.trans later
      exact .inl ⟨there, rfl, rfl⟩
  | none =>
      right
      cases move with
      | perform does =>
          obtain ⟨last, adds⟩ := does.adds before found
          exact ⟨last, _, rfl, adds⟩
      | resume resumes => cases (resumes.adds_none before).symm.trans found
      | refuse same | reject same => cases (same ▸ before).symm.trans found
      | pass | unwind | rest => cases before.symm.trans found

/-- A step evaluates in the scopes of before, or in an object that it adds. -/
theorem Move.scopes (move : Move moment next) :
    ∀ scope ∈ next.scopes, scope ∈ moment.scopes ∨
      scope = moment.state.heap.size ∧ moment.state.heap.size < next.state.heap.size := by
  intro scope listed
  cases move with
  | perform does =>
      rw [scopes_append] at listed
      rcases List.mem_append.mp listed with here | waiting
      · exact (does.scopes scope here).imp_left (List.mem_append_left _)
      · exact .inl (List.mem_append_right _ waiting)
  | @resume value frame frames _ _ _ _ resumes =>
      rw [scopes_append] at listed
      left
      change scope ∈ frame.scopes ++ Frame.allScopes frames
      rcases List.mem_append.mp listed with here | waiting
      · exact List.mem_append_left _ (resumes.scopes scope here)
      · exact List.mem_append_right _ waiting
  | refuse => exact .inl (List.mem_append_right _ listed)
  | @reject _ frame | @pass _ frame | @unwind _ frame =>
      exact .inl (List.mem_append_right frame.scopes listed)
  | rest => exact .inl listed

end Moment

end ScriptTree
