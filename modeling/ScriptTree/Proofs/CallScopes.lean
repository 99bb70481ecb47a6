import ScriptTree.Proofs.ScopeChains

/-!
# What a closure keeps, and what names stand for in a call of it

A closure keeps the scope in which its function was evaluated: every closure of a run was made at a
step that evaluated the function there (`Script.exists_makes`), and its body never changes.

The scope of a call is a child of this scope. A name that is looked up in it when the call begins
gives the last argument for a parameter of this name, the receiver for `this`, and otherwise what it
gives in the scope around (`Heap.ScopeAt.lookup_entered`, `Eval.means_callBindings`).
-/

namespace ScriptTree

/-! ## Where closures come from -/

/-- Step `j` of a run evaluates a function of the program in a scope, and makes it the closure at a
reference. -/
def Makes (run : Nat → Moment) (j : Nat) (ref : Ref) (place : Place) (lambda : Lambda)
    (scope : Ref) : Prop :=
  ∃ name, lambda.name = name.getD "lambda" ∧
    (run j).focus =
      .task (.eval ⟨place, .function lambda.line name lambda.parameters lambda.body⟩ scope) ∧
    (run j).state.heap.get? ref = none ∧
    ((run (j + 1)).state.heap.get? ref).bind Object.body = some (.closure lambda scope)

/-- Every closure of a run was made at some step, in the scope that it captured. -/
theorem Script.exists_makes {script : Script} {settings : Settings} {sink : Sink} {log : Log}
    {n : Nat} {ref : Ref} {lambda : Lambda} {scope : Ref}
    (closure : ((script.moment settings sink log n).state.heap.get? ref).bind Object.body =
      some (.closure lambda scope)) :
    ∃ j < n, Makes (script.moment settings sink log) j ref
      ((script.moment settings sink log n).origins ref) lambda scope := by
  induction n with
  | zero =>
      rcases Option.bind_eq_some_iff.mp closure with ⟨object, found, body⟩
      rcases Heap.eq_of_get?_initial found with rfl | ⟨builtin, rfl⟩
      · cases (Heap.get?_initial_root settings).symm.trans found
        cases body
      · cases body
  | succ n ih =>
      have move := script.move_moment settings sink log n
      rcases Option.bind_eq_some_iff.mp closure with ⟨object, found, body⟩
      rcases move.cases_get? found with ⟨before, there, same⟩ | ⟨last, task, does, adds⟩
      · rw [same] at body
        have earlier : ((script.moment settings sink log n).state.heap.get? ref).bind Object.body =
            some (.closure lambda scope) := by
          rw [there]
          exact body
        rcases ih earlier with ⟨j, before, makes⟩
        rw [move.origins_of_lt (Heap.lt_size_of_get? there)]
        exact ⟨j, Nat.lt_succ_of_lt before, makes⟩
      · cases adds with
        | @closure place line name =>
            cases body
            rw [move.origins_of_eval does, last, Function.update_self]
            rw [last] at closure
            refine ⟨n, Nat.lt_succ_self n, name, rfl, does, ?_, closure⟩
            by_contra there
            rcases Option.ne_none_iff_exists'.mp there with ⟨object, there⟩
            exact Nat.lt_irrefl _ (Heap.lt_size_of_get? there)
        | record | scope => cases body

/-! ## What names stand for in the body of a function -/

/-- What a name stands for where the body of a function begins: the argument that is given for it,
and for a parameter that is repeated the last one; else for `this` the receiver; else what it stands
for around the function. -/
inductive Lambda.Means (lambda : Lambda) (receiver : Value) (values : List Value)
    (around : String → Value) (name : String) : Value → Prop
  | argument {before after : List String} {value : Value}
      (split : lambda.parameters = before ++ name :: after) (last : name ∉ after)
      (given : values[before.length]? = some value) : Means lambda receiver values around name value
  | this (free : name ∉ lambda.parameters) (same : name = "this") :
    Means lambda receiver values around name receiver
  | around (free : name ∉ lambda.parameters) (other : name ≠ "this") :
    Means lambda receiver values around name (around name)

/-- What is listed has a last place. -/
theorem exists_last_append {α : Type} [DecidableEq α] {a : α} {list : List α}
    (listed : a ∈ list) : ∃ before after, list = before ++ a :: after ∧ a ∉ after := by
  rcases List.eq_append_cons_of_mem (List.mem_reverse.mpr listed) with ⟨after, before, split, new⟩
  refine ⟨before.reverse, after.reverse, ?_, fun again => new (List.mem_reverse.mp again)⟩
  rw [← List.reverse_reverse list, split]
  simp

/-- What a name reads in the bindings of a call, or around them. -/
theorem Eval.means_callBindings {lambda : Lambda} {values : List Value}
    (fits : values.length = lambda.parameters.length) (receiver : Value) (around : String → Value)
    (name : String) :
    lambda.Means receiver values around name
      (((callBindings lambda receiver values).get? name).getD (around name)) := by
  have onto : callBindings lambda receiver values =
      (Fields.put [] "this" receiver).putAll (lambda.parameters.zip values) := rfl
  by_cases listed : name ∈ lambda.parameters
  · rcases exists_last_append listed with ⟨before, after, split, last⟩
    have inside : before.length < values.length := by
      rw [fits, split, List.length_append, List.length_cons]
      omega
    have read : (callBindings lambda receiver values).get? name = some values[before.length] := by
      have length : before.length = (values.take before.length).length := by
        rw [List.length_take]
        omega
      have pairs : lambda.parameters.zip values =
          before.zip (values.take before.length) ++
            (name, values[before.length]) :: after.zip (values.drop (before.length + 1)) := by
        rw [← List.zip_cons_cons, ← List.drop_eq_getElem_cons inside, ← List.zip_append length,
          List.take_append_drop, split]
      rw [onto, pairs]
      apply Fields.get?_putAll_of_last
      intro again
      rcases List.mem_map.mp again with ⟨pair, zipped, rfl⟩
      exact last (List.of_mem_zip zipped).1
    rw [read]
    exact .argument split last (List.getElem?_eq_getElem inside)
  · have absent : name ∉ (lambda.parameters.zip values).map Prod.fst := by
      rw [List.map_fst_zip (Nat.le_of_eq fits.symm)]
      exact listed
    rw [onto, Fields.get?_putAll_of_not_mem _ absent]
    by_cases this : name = "this"
    · rw [this, Fields.get?_put_self]
      exact .this (this ▸ listed) rfl
    · rw [Fields.get?_put_of_ne _ _ this]
      exact .around listed this

namespace Heap

variable {heap : Heap} {captured : Ref} {depth : Nat}

/-- In the scope of a call that is entered a name stands for what the call binds to it, else for
what it stands for around the function. -/
theorem ScopeAt.lookup_entered (there : heap.ScopeAt captured depth) (fields : Fields Value)
    (name : String) :
    (heap.add (.scope (some captured) fields)).lookup heap.size name =
      (fields.get? name).getD
        ((heap.add (.scope (some captured) fields)).lookup captured name) := by
  have found : (heap.add (.scope (some captured) fields)).get? heap.size =
      some (.scope (some captured) fields) := by
    rw [get?_add, if_pos rfl]
  rcases there.exists_linked with ⟨links, linked, length, -⟩
  have outer := linked.grows (.add heap (.scope (some captured) fields))
  have inner : (heap.add (.scope (some captured) fields)).Linked heap.size (heap.size :: links) :=
    .next found rfl outer
  have room := there.depth_lt_size
  have size := size_add heap (.scope (some captured) fields)
  have bound : (heap.add (.scope (some captured) fields)).fields heap.size = fields :=
    fields_of_get? found
  rw [outer.lookup_eq (by omega), inner.lookup_eq (by rw [List.length_cons]; omega),
    List.findSome?_cons, bound]
  cases fields.get? name <;> rfl

end Heap

end ScriptTree
