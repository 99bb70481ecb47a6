import ScriptTree.Object

/-!
The heap. It only grows, and a reference is a place in it. `lookup` searches the chain of an object
and its parents, nearest first; `register` binds in one object only. What the operations do is
stated through `get?` (`get?_add`, `get?_register`).
-/

namespace ScriptTree

/-- The objects of a run, each at its reference. -/
structure Heap where
  objects : Array Object := #[]

namespace Heap

/-- The object at a reference. -/
def get? (heap : Heap) (ref : Ref) : Option Object :=
  heap.objects[ref]?

/-- How many objects there are. -/
def size (heap : Heap) : Nat :=
  heap.objects.size

/-- Adds an object. Its reference is `heap.size`. -/
def add (heap : Heap) (object : Object) : Heap :=
  ⟨heap.objects.push object⟩

/-- Binds a name in one object, whatever was bound there before. -/
def register (heap : Heap) (ref : Ref) (key : String) (value : Value) : Heap :=
  ⟨heap.objects.modify ref fun object => { object with fields := object.fields.put key value }⟩

/-- Whether the object at a reference can be invoked. -/
def isFunction (heap : Heap) (ref : Ref) : Bool :=
  (heap.get? ref).any Object.isFunction

/-- The bindings that an object itself holds. -/
def fields (heap : Heap) (ref : Ref) : Fields Value :=
  ((heap.get? ref).map Object.fields).getD []

/-! ## Looking a name up -/

/-- The first `count` objects of the chain that starts at `ref` and goes from object to parent. -/
def chainUpTo (heap : Heap) : (count : Nat) → (ref : Ref) → List Ref
  | 0, _ => []
  | count + 1, ref =>
      match heap.get? ref with
      | none => []
      | some object =>
          ref :: match object.parent with
            | none => []
            | some parent => heap.chainUpTo count parent

/-- An object and its parents, nearest first. A chain that repeats no object has at most as many
as the heap. -/
def chain (heap : Heap) (ref : Ref) : List Ref :=
  heap.chainUpTo heap.size ref

/-- The nearest binding of a name on the chain of an object, if there is one. -/
def find? (heap : Heap) (ref : Ref) (key : String) : Option Value :=
  (heap.chain ref).findSome? fun link => (heap.fields link).get? key

/-- The value of a name as seen from an object: undefined when nothing on its chain binds it. -/
def lookup (heap : Heap) (ref : Ref) (key : String) : Value :=
  (heap.find? ref key).getD .undefined

/-! ## What the operations do, seen through `get?` -/

@[simp] theorem size_add (heap : Heap) (object : Object) :
    (heap.add object).size = heap.size + 1 := by
  simp [size, add]

@[simp] theorem size_register (heap : Heap) (ref : Ref) (key : String) (value : Value) :
    (heap.register ref key value).size = heap.size := by
  simp [size, register]

/-- Adding an object moves none of the others. -/
theorem get?_add (heap : Heap) (object : Object) (ref : Ref) :
    (heap.add object).get? ref = if ref = heap.size then some object else heap.get? ref := by
  by_cases last : ref = heap.objects.size <;> simp [get?, add, size, Array.getElem?_push, last]

/-- Binding a name touches the fields of one object only. -/
theorem get?_register (heap : Heap) (ref : Ref) (key : String) (value : Value) (other : Ref) :
    (heap.register ref key value).get? other =
      if ref = other then
        (heap.get? other).map fun object => { object with fields := object.fields.put key value }
      else heap.get? other := by
  simp [get?, register, Array.getElem?_modify]

end Heap

end ScriptTree
