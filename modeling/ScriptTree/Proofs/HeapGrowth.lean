import ScriptTree.Builtin

/-!
# What stays of a heap

A run adds objects and binds names in them; it never takes an object away, and it never changes a
name, a parent or a body. `Heap.Grows` says this of two heaps, and `Heap.Steps` adds which single
object may have been written to in between.

The value that a lookup finds is undefined or stands in a field of some object
(`lookup_eq_undefined_or_mem`); an object without a parent is looked up in alone (`lookup_of_top`).
-/

namespace ScriptTree

/-! ## Bindings -/

namespace Fields

variable {α : Type}

/-- A value that is read is bound. -/
theorem mem_of_get? {fields : Fields α} {key : String} {value : α}
    (read : fields.get? key = some value) : (key, value) ∈ fields := by
  induction fields with
  | nil => cases read
  | cons first rest ih =>
      rw [get?_cons] at read
      split at read
      · cases read
        exact List.mem_cons.mpr (.inl (by rw [← ‹first.1 = key›]))
      · exact List.mem_cons_of_mem _ (ih read)

/-- Where no name is listed twice, a value that is bound is read. -/
theorem get?_of_mem {fields : Fields α} {key : String} {value : α} (nodup : fields.keys.Nodup)
    (bound : (key, value) ∈ fields) : fields.get? key = some value := by
  induction fields with
  | nil => cases bound
  | cons first rest ih =>
      obtain ⟨fresh, nodup⟩ := List.nodup_cons.mp nodup
      rw [get?_cons]
      rcases List.mem_cons.mp bound with rfl | later
      · exact if_pos rfl
      · have differs : first.1 ≠ key := by
          rintro rfl
          have listed : first.1 ∈ rest.map Prod.fst := List.mem_map.mpr ⟨_, later, rfl⟩
          exact fresh listed
        rw [if_neg differs]
        exact ih nodup later

end Fields

/-- The scope that a function keeps. -/
def Object.captured? (object : Object) : Option Ref :=
  match object.body with
  | some (.closure _ scope) => some scope
  | _ => none

namespace Heap

variable {old middle new : Heap} {ref : Ref} {object : Object}

/-! ## Objects -/

theorem lt_size_of_get? (found : old.get? ref = some object) : ref < old.size :=
  (Array.getElem?_eq_some_iff.mp found).1

theorem exists_get?_of_lt_size (inside : ref < old.size) : ∃ object, old.get? ref = some object :=
  ⟨_, Array.getElem?_eq_getElem inside⟩

theorem fields_of_get? (found : old.get? ref = some object) : old.fields ref = object.fields := by
  rw [fields, found]
  rfl

theorem fields_of_size_le (absent : old.size ≤ ref) : old.fields ref = [] := by
  have nothing : old.get? ref = none := Array.getElem?_eq_none absent
  rw [fields, nothing]
  rfl

/-- What an object holds after a name is bound in it. -/
theorem fields_register {heap : Heap} (inside : ref < heap.size) (key : String) (value : Value) :
    (heap.register ref key value).fields ref = (heap.fields ref).put key value := by
  obtain ⟨object, found⟩ := exists_get?_of_lt_size inside
  have later : (heap.register ref key value).get? ref =
      some { object with fields := object.fields.put key value } := by
    rw [get?_register, if_pos rfl, found]
    rfl
  rw [fields_of_get? found, fields_of_get? later]

/-- Binding a name in one object leaves the fields of the others. -/
theorem fields_register_of_ne (heap : Heap) {other : Ref} (differs : ref ≠ other) (key : String)
    (value : Value) : (heap.register other key value).fields ref = heap.fields ref := by
  rw [fields, get?_register, if_neg differs.symm]
  rfl

/-! ## Growth -/

/-- The later heap holds every object of the earlier one, if with other fields. -/
def Grows (old new : Heap) : Prop :=
  ∀ ⦃ref object⦄, old.get? ref = some object → ∃ fields, new.get? ref = some { object with fields }

theorem Grows.refl (heap : Heap) : heap.Grows heap :=
  fun _ object found => ⟨object.fields, found⟩

theorem Grows.trans (first : old.Grows middle) (second : middle.Grows new) : old.Grows new := by
  intro ref object found
  obtain ⟨fields, between⟩ := first found
  obtain ⟨fields', later⟩ := second between
  exact ⟨fields', later⟩

theorem Grows.add (heap : Heap) (object : Object) : heap.Grows (heap.add object) := by
  intro ref there found
  refine ⟨there.fields, ?_⟩
  rw [get?_add, if_neg (Nat.ne_of_lt (lt_size_of_get? found))]
  exact found

theorem Grows.register (heap : Heap) (ref : Ref) (key : String) (value : Value) :
    heap.Grows (heap.register ref key value) := by
  intro other there found
  rw [get?_register, found]
  split
  · exact ⟨there.fields.put key value, rfl⟩
  · exact ⟨there.fields, rfl⟩

theorem Grows.size_le (grows : old.Grows new) : old.size ≤ new.size := by
  rcases Nat.lt_or_ge new.size old.size with less | le
  · obtain ⟨object, found⟩ := exists_get?_of_lt_size less
    obtain ⟨fields, later⟩ := grows found
    exact absurd (lt_size_of_get? later) (Nat.lt_irrefl _)
  · exact le

/-- An object keeps its body. -/
theorem Grows.body (grows : old.Grows new) {body : Body}
    (has : (old.get? ref).bind Object.body = some body) :
    (new.get? ref).bind Object.body = some body := by
  obtain ⟨object, found, same⟩ := Option.bind_eq_some_iff.mp has
  obtain ⟨fields, later⟩ := grows found
  rw [later]
  exact same

/-! ## Steps -/

/-- The objects after a step that binds names in none of the earlier ones but `written`. -/
structure Steps (written : Option Ref) (old new : Heap) : Prop where
  grows : old.Grows new
  kept : ∀ ref, ref < old.size → written ≠ some ref → new.get? ref = old.get? ref

theorem Steps.refl (written : Option Ref) (heap : Heap) : heap.Steps written heap :=
  ⟨.refl heap, fun _ _ _ => rfl⟩

theorem Steps.trans {written : Option Ref} (first : old.Steps written middle)
    (second : middle.Steps written new) : old.Steps written new := by
  refine ⟨first.grows.trans second.grows, fun ref inside other => ?_⟩
  have later := second.kept ref (Nat.lt_of_lt_of_le inside first.grows.size_le) other
  exact later.trans (first.kept ref inside other)

theorem Steps.add (written : Option Ref) (heap : Heap) (object : Object) :
    heap.Steps written (heap.add object) := by
  refine ⟨.add heap object, fun ref inside _ => ?_⟩
  rw [get?_add, if_neg (Nat.ne_of_lt inside)]

theorem Steps.register (heap : Heap) (ref : Ref) (key : String) (value : Value) :
    heap.Steps (some ref) (heap.register ref key value) := by
  refine ⟨.register heap ref key value, fun other _ differs => ?_⟩
  rw [get?_register, if_neg fun same => differs (congrArg some same)]

/-! ## Lookup -/

/-- A value is found in a field of some object, or nowhere. -/
theorem lookup_eq_undefined_or_mem (heap : Heap) (ref : Ref) (key : String) :
    heap.lookup ref key = .undefined ∨
      ∃ link object, heap.get? link = some object ∧ (key, heap.lookup ref key) ∈ object.fields := by
  unfold lookup find?
  cases found : (heap.chain ref).findSome? fun link => (heap.fields link).get? key with
  | none => exact .inl rfl
  | some value =>
      obtain ⟨link, -, read⟩ := List.exists_of_findSome?_eq_some found
      right
      cases there : heap.get? link with
      | none =>
          rw [fields, there] at read
          cases read
      | some object =>
          rw [fields_of_get? there] at read
          exact ⟨link, object, there, Fields.mem_of_get? read⟩

/-- An object without a parent is looked up in alone. -/
theorem lookup_of_top {heap : Heap} {ref : Ref} {object : Object}
    (found : heap.get? ref = some object) (top : object.parent = none) (key : String) :
    heap.lookup ref key = (object.fields.get? key).getD .undefined := by
  have inside := lt_size_of_get? found
  have alone : heap.chain ref = [ref] := by
    rw [chain]
    obtain ⟨count, size⟩ := Nat.exists_eq_succ_of_ne_zero (Nat.ne_of_gt (Nat.zero_lt_of_lt inside))
    rw [size, chainUpTo, found]
    simp only [top]
  rw [lookup, find?, alone, List.findSome?_singleton, fields_of_get? found]

/-- What is found in an object without a parent is bound in the object itself. -/
theorem get?_fields_of_lookup {heap : Heap} {ref value : Ref} {object : Object} {key : String}
    (found : heap.get? ref = some object) (top : object.parent = none)
    (looked : heap.lookup ref key = .obj value) :
    (heap.fields ref).get? key = some (.obj value) := by
  rw [lookup_of_top found top] at looked
  rw [fields_of_get? found]
  cases own : object.fields.get? key with
  | none =>
      rw [own] at looked
      cases looked
  | some bound =>
      rw [own] at looked
      exact congrArg some looked

end Heap

end ScriptTree
