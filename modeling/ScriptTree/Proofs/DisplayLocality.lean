import Mathlib.Data.List.Forall2
import ScriptTree.Proofs.BindingHistory
import ScriptTree.Proofs.Display
import ScriptTree.Proofs.Json.ReadPrinted

/-!
# What the text of a value depends on

Objects may refer to one another in circles, and the text of an object is made from the texts of its
fields. It is finite all the same, because an object inside another one is named and not opened.
`Value.shownWithin` is showing as two functions that call one another, for a value by itself and
for one inside a record, with a bound on how many calls stand inside one another: three are enough
on every heap of a run (`Value.shownWithin_eq`).

So the text of a value is decided by little: the value, the names and values of its own fields in
their order, and for the fields that are objects, whether they are functions and under which names
(`Value.LooksLike`). Nothing further inside or outside has a part in it, and only an integer that is
too long makes showing fail (`Script.display_local`).
-/

namespace ScriptTree

/-- The integer has more digits in decimal than can be shown. Its sign does not count. -/
def Decimal.TooLong (n : Int) : Prop :=
  4300 < (Nat.toDigits 10 n.natAbs).length

theorem Decimal.fits_eq_false_iff (n : Int) : fits n = false ↔ TooLong n := by
  have limit : maxDigits = 4300 := rfl
  rw [← Bool.not_eq_true, fits_iff, limit, Nat.not_le]
  exact Iff.rfl

/-- Showing fails exactly where there is no text. -/
theorem Action.shown_eq_error_iff {text? : Heap → Option String} {state : State} :
    Action.shown text? state = .error .digitLimit state ↔ text? state.heap = none := by
  rw [shown]
  split <;> simp [*]

namespace Value

variable {heap heap' : Heap} {value value' : Value}

/-! ## Showing as two functions that call one another -/

mutual

/-- Shows a value by itself, with at most `calls` calls inside one another; `none` if that takes
more. The fields of an object that is opened are looked up in it, one after another. -/
def shownWithin (heap : Heap) : (calls : Nat) → Value → Option (Option String)
  | 0, _ => none
  | calls + 1, .obj ref =>
      (heap.get? ref).bind fun object =>
        if object.isFunction then some (some object.functionText)
        else
          (object.fields.keys.mapM fun key =>
            (shownInsideWithin heap calls (heap.lookup ref key)).map fun text? =>
              text?.map (key ++ ": " ++ ·)).map fun texts? =>
            (texts?.mapM id).map fun texts => "\x7b" ++ String.intercalate ", " texts ++ "\x7d"
  | _ + 1, value => some (value.textWith? fun _ => none)

/-- Shows a value inside a record: an object is named, and any other value is shown as by itself. -/
def shownInsideWithin (heap : Heap) : (calls : Nat) → Value → Option (Option String)
  | 0, _ => none
  | _ + 1, .obj ref => (heap.get? ref).map fun object => some object.nestedText
  | calls + 1, value => shownWithin heap calls value

end

/-- Inside a record two calls are enough. -/
theorem shownInsideWithin_eq (there : value.There heap) (calls : Nat) :
    shownInsideWithin heap (calls + 2) value = some (value.nested? heap) := by
  cases value with
  | obj ref =>
      obtain ⟨object, found⟩ := Heap.exists_get?_of_lt_size (there ref rfl)
      rw [shownInsideWithin, nested?, textWith?, found]
      rfl
  | flag b => cases b <;> rfl
  | _ => rfl

/-- Showing a value by itself takes three calls inside one another at most, whatever the objects
refer to. -/
theorem shownWithin_eq (closed : heap.Closed)
    (nodup : ∀ ref, (heap.fields ref).keys.Nodup) (there : value.There heap) (calls : Nat) :
    shownWithin heap (calls + 3) value = some (value.display? heap) := by
  cases value with
  | obj ref =>
      obtain ⟨object, found⟩ := Heap.exists_get?_of_lt_size (there ref rfl)
      rw [shownWithin, display?, textWith?, found, Option.bind_some, Option.bind_some, object?]
      split
      · rfl
      · have own : (heap.fields ref).keys.Nodup := nodup ref
        rw [Heap.fields_of_get? found] at own
        -- each field is looked up in the object itself, and shown with one call less
        have each : ∀ binding ∈ object.fields,
            ((shownInsideWithin heap (calls + 2) (heap.lookup ref binding.1)).map fun text? =>
              text?.map (binding.1 ++ ": " ++ ·)) =
              some ((binding.2.nested? heap).map (binding.1 ++ ": " ++ ·)) := by
          intro binding bound
          have read := Fields.get?_of_mem own bound
          rw [← Heap.fields_of_get? found] at read
          have inside := (closed.plain found binding bound).there closed
          rw [Heap.lookup_of_own read, shownInsideWithin_eq inside]
          rfl
        have texts : (object.fields.keys.mapM fun key =>
            (shownInsideWithin heap (calls + 2) (heap.lookup ref key)).map fun text? =>
              text?.map (key ++ ": " ++ ·)) =
            some (object.fields.map fun binding =>
              (binding.2.nested? heap).map (binding.1 ++ ": " ++ ·)) := by
          rw [Fields.keys, List.mapM_map]
          exact mapM_eq_some_map each
        rw [texts, Option.map_some, List.mapM_map]
        rfl
  | flag b => cases b <;> rfl
  | _ => rfl

/-! ## Values that look alike -/

/-- Two values, each on its heap, that look alike inside a record: the same if they are no objects,
two functions of one name, or two objects that are no functions. -/
inductive LooksLikeInside (heap heap' : Heap) : Value → Value → Prop
  | same {value : Value} (noObject : ∀ ref, value ≠ .obj ref) :
    LooksLikeInside heap heap' value value
  | function {ref ref' : Ref} {object object' : Object} (found : heap.get? ref = some object)
      (found' : heap'.get? ref' = some object') (function : object.isFunction = true)
      (function' : object'.isFunction = true) (name : object.name = object'.name) :
    LooksLikeInside heap heap' (.obj ref) (.obj ref')
  | object {ref ref' : Ref} {object object' : Object} (found : heap.get? ref = some object)
      (found' : heap'.get? ref' = some object') (opened : object.isFunction = false)
      (opened' : object'.isFunction = false) :
    LooksLikeInside heap heap' (.obj ref) (.obj ref')

/-- Two values, each on its heap, that look alike: the same if they are no objects, two functions of
one name, or two objects that are no functions and whose own fields have the same names in the same
order and values that look alike inside a record. -/
inductive LooksLike (heap heap' : Heap) : Value → Value → Prop
  | same {value : Value} (noObject : ∀ ref, value ≠ .obj ref) : LooksLike heap heap' value value
  | function {ref ref' : Ref} {object object' : Object} (found : heap.get? ref = some object)
      (found' : heap'.get? ref' = some object') (function : object.isFunction = true)
      (function' : object'.isFunction = true) (name : object.name = object'.name) :
    LooksLike heap heap' (.obj ref) (.obj ref')
  | object {ref ref' : Ref} {object object' : Object} (found : heap.get? ref = some object)
      (found' : heap'.get? ref' = some object') (opened : object.isFunction = false)
      (opened' : object'.isFunction = false)
      (fields : List.Forall₂ (fun binding binding' => binding.1 = binding'.1 ∧
        LooksLikeInside heap heap' binding.2 binding'.2) object.fields object'.fields) :
    LooksLike heap heap' (.obj ref) (.obj ref')

theorem LooksLikeInside.nested?_eq (alike : LooksLikeInside heap heap' value value') :
    value'.nested? heap' = value.nested? heap := by
  cases alike with
  | same noObject =>
      cases value with
      | obj ref => exact absurd rfl (noObject ref)
      | flag b => cases b <;> rfl
      | _ => rfl
  | function found found' function function' name =>
      simp only [nested?, textWith?, found, found', Option.map_some, Object.nestedText, function,
        function', Object.functionText, name]
  | object found found' opened opened' =>
      simp only [nested?, textWith?, found, found', Option.map_some, Object.nestedText, opened,
        opened', Bool.false_eq_true, if_false]

/-- Fields that look alike have the same texts. -/
theorem bindings?_eq {fields fields' : Fields Value}
    (alike : List.Forall₂ (fun binding binding' => binding.1 = binding'.1 ∧
      LooksLikeInside heap heap' binding.2 binding'.2) fields fields') :
    bindings? heap' fields' = bindings? heap fields := by
  unfold bindings?
  induction alike with
  | nil => rfl
  | cons first _ ih => rw [List.mapM_cons, List.mapM_cons, ih, first.2.nested?_eq, first.1]

theorem LooksLike.display?_eq (alike : LooksLike heap heap' value value') :
    value'.display? heap' = value.display? heap := by
  cases alike with
  | same noObject =>
      cases value with
      | obj ref => exact absurd rfl (noObject ref)
      | flag b => cases b <;> rfl
      | _ => rfl
  | function found found' function function' name =>
      simp only [display?, textWith?, found, found', Option.bind_some, object?, function,
        function', if_true, Object.functionText, name]
  | object found found' opened opened' fields =>
      simp only [display?, textWith?, found, found', Option.bind_some, object?, opened, opened',
        Bool.false_eq_true, if_false, bindings?_eq fields]

end Value

/-! ## Showing the values of a run -/

namespace Script

variable (script : Script) (settings : Settings) (sink : Sink) (log : Log)

/-- Showing any value at a moment of a run comes to an end after at most three calls inside one
another. It fails exactly when the value is an integer that is too long, or an object that is no
function and holds such an integer itself in a field. The value has the same text on every heap on
which it, or another one, looks like that. -/
theorem display_local (n : Nat) {value : Value}
    (there : value.There (script.moment settings sink log n).state.heap) :
    (∀ calls, value.shownWithin (script.moment settings sink log n).state.heap (calls + 3) =
      some (value.display? (script.moment settings sink log n).state.heap)) ∧
    (Action.shown (value.display? ·) (script.moment settings sink log n).state =
        .error .digitLimit (script.moment settings sink log n).state ↔
      (∃ i, value = .int i ∧ Decimal.TooLong i) ∨
      ∃ ref object name i, value = .obj ref ∧
        (script.moment settings sink log n).state.heap.get? ref = some object ∧
        object.isFunction = false ∧ (name, .int i) ∈ object.fields ∧ Decimal.TooLong i) ∧
    ∀ heap value',
      Value.LooksLike (script.moment settings sink log n).state.heap heap value value' →
      value'.display? heap = value.display? (script.moment settings sink log n).state.heap := by
  have closed := (script.plain_moment settings sink log n).heap
  refine ⟨Value.shownWithin_eq closed (fun ref => ?_) there, ?_, fun _ _ alike => alike.display?_eq⟩
  · rw [script.fields_eq_ofList_bound]
    exact Fields.nodup_keys_ofList _
  · rw [Action.shown_eq_error_iff, Value.display?_eq_none_iff closed there]
    simp only [Decimal.fits_eq_false_iff]
    constructor
    · rintro ⟨i, written, long⟩
      cases written with
      | int => exact .inl ⟨i, rfl, long⟩
      | field found opened bound => exact .inr ⟨_, _, _, i, rfl, found, opened, bound, long⟩
    · rintro (⟨i, rfl, long⟩ | ⟨ref, object, name, i, rfl, found, opened, bound, long⟩)
      · exact ⟨i, .int, long⟩
      · exact ⟨i, .field found opened bound, long⟩

/-- A record that holds itself in a field. -/
def ring : Script :=
  ⟨.mk none [
    .assignment none "ring" (.record none [("metal", .literal none (.str "gold"))]) true,
    .fieldAssignment none (.var none "ring") "next" (.var none "ring")]⟩

/-- The record is shown as one of the same metal that refers to another object. -/
theorem display_local_ring : ∃ heap,
    heap = (ring.moment .standard .empty {} 16).state.heap ∧
    heap.lookup 13 "next" = .obj 13 ∧ (Value.obj 13).There heap ∧
    (Value.obj 13).shownWithin heap 3 = some (some "\x7bmetal: gold, next: [object]\x7d") ∧
    (Value.obj 1).display? ⟨#[.scope none [], .record [("metal", .str "gold"), ("next", .obj 0)]]⟩ =
      (Value.obj 13).display? heap := by
  have there : (Value.obj 13).There (ring.moment .standard .empty {} 16).state.heap := by
    rintro _ ⟨⟩
    decide
  obtain ⟨ends, -, alike⟩ := display_local ring .standard .empty {} 16 there
  refine ⟨_, rfl, rfl, there, (ends 0).trans (by decide), alike _ _ ?_⟩
  -- the second field is an object that is named, here the record itself and there the scope
  exact .object rfl rfl rfl rfl
    (.cons ⟨rfl, .same nofun⟩ (.cons ⟨rfl, .object rfl rfl rfl rfl⟩ .nil))

end Script

end ScriptTree
