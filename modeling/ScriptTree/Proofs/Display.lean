import ScriptTree.Proofs.PlainValues

/-!
# Values that cannot be shown

A value has no text only if that would hold an integer that is too long. For a value of a run this
is the value itself or a field of the record that it refers to (`Value.display?_eq_none_iff`): what
is inside a field is named and not opened, and a function shows no fields.
-/

namespace ScriptTree

variable {heap : Heap} {value : Value}

/-- A list of items has no texts exactly when one of them has none. -/
theorem mapM_eq_none_iff {α β : Type} {text? : α → Option β} {items : List α} :
    items.mapM text? = none ↔ ∃ item ∈ items, text? item = none := by
  induction items with
  | nil => exact ⟨nofun, nofun⟩
  | cons first rest ih =>
      rw [List.mapM_cons]
      cases here : text? first with
      | none => exact ⟨fun _ => ⟨first, List.mem_cons_self, here⟩, fun _ => rfl⟩
      | some text =>
          have later : (∃ item ∈ first :: rest, text? item = none) ↔ rest.mapM text? = none := by
            simp [here, ih]
          rw [later]
          cases rest.mapM text? <;> simp

/-- A list of items has the list of their results if each of them has one. -/
theorem mapM_eq_some_map {α β : Type} {f : α → Option β} {g : α → β} {items : List α}
    (each : ∀ item ∈ items, f item = some (g item)) : items.mapM f = some (items.map g) := by
  induction items with
  | nil => rfl
  | cons first rest ih =>
      obtain ⟨here, later⟩ := List.forall_mem_cons.mp each
      rw [List.mapM_cons, here, ih later]
      rfl

namespace Value

/-- An integer that the text of a value holds: the value itself, or a field of a record or scope. -/
inductive Writes (heap : Heap) : Value → Int → Prop
  | int {n : Int} : Writes heap (.int n) n
  | field {ref : Ref} {object : Object} {name : String} {n : Int}
      (found : heap.get? ref = some object) (opened : object.isFunction = false)
      (bound : (name, .int n) ∈ object.fields) : Writes heap (.obj ref) n

/-- A value that refers to no object, or to one that is there. -/
def There (heap : Heap) (value : Value) : Prop :=
  ∀ ref, value = .obj ref → ref < heap.size

/-- What programs compute with is there. -/
theorem Plain.there (plain : value.Plain heap) (closed : heap.Closed) : value.There heap := by
  rintro ref rfl
  obtain ⟨object, found, -⟩ := closed.parent_eq_none plain
  exact Heap.lt_size_of_get? found

/-- A value has no text inside a record only if it is an integer that is too long. -/
theorem nested?_eq_none_iff (there : value.There heap) :
    value.nested? heap = none ↔ ∃ n, value = .int n ∧ Decimal.fits n = false := by
  cases value with
  | undefined | str | null => exact ⟨nofun, nofun⟩
  | flag b => cases b <;> exact ⟨nofun, nofun⟩
  | int n =>
      refine (Decimal.text?_eq_none_iff n).trans ⟨fun long => ⟨n, rfl, long⟩, ?_⟩
      rintro ⟨_, ⟨⟩, long⟩
      exact long
  | obj ref =>
      obtain ⟨object, found⟩ := Heap.exists_get?_of_lt_size (there ref rfl)
      refine ⟨fun hidden => ?_, nofun⟩
      rw [nested?, textWith?, found] at hidden
      cases hidden

/-- A value has no text exactly when that would hold an integer that is too long. -/
theorem display?_eq_none_iff (closed : heap.Closed) (there : value.There heap) :
    value.display? heap = none ↔ ∃ n, value.Writes heap n ∧ Decimal.fits n = false := by
  cases value with
  | undefined | str | null => exact ⟨nofun, nofun⟩
  | flag b => cases b <;> exact ⟨nofun, nofun⟩
  | int n =>
      refine (Decimal.text?_eq_none_iff n).trans ⟨fun long => ⟨n, .int, long⟩, ?_⟩
      rintro ⟨_, ⟨⟩, long⟩
      exact long
  | obj ref =>
      obtain ⟨object, found⟩ := Heap.exists_get?_of_lt_size (there ref rfl)
      rw [display?, textWith?, found, Option.bind_some, object?]
      cases opened : object.isFunction with
      | true =>
          refine ⟨nofun, ?_⟩
          rintro ⟨n, written, -⟩
          cases written with
          | field found' opened' =>
              cases found.symm.trans found'
              cases opened.symm.trans opened'
      | false =>
          have fields : bindings? heap object.fields = none ↔
              ∃ binding ∈ object.fields, binding.2.nested? heap = none :=
            mapM_eq_none_iff.trans (by simp only [Option.map_eq_none_iff])
          rw [if_neg Bool.false_ne_true, Option.map_eq_none_iff, fields]
          constructor
          · rintro ⟨⟨name, value⟩, bound, hidden⟩
            obtain ⟨n, rfl, long⟩ :=
              (nested?_eq_none_iff ((closed.plain found _ bound).there closed)).mp hidden
            exact ⟨n, .field found opened bound, long⟩
          · rintro ⟨n, written, long⟩
            cases written with
            | @field _ object' name _ found' opened' bound =>
                cases found.symm.trans found'
                exact ⟨(name, .int n), bound, (Decimal.text?_eq_none_iff n).mpr long⟩

/-- A value has a text in the debug log exactly when it has one at all. -/
theorem quoted?_eq_none_iff : value.quoted? heap = none ↔ value.display? heap = none := by
  cases value with
  | str => exact ⟨nofun, nofun⟩
  | _ => exact Iff.rfl

/-- A list of values has no text in the debug log exactly when one of them has none. -/
theorem quotedList?_eq_none_iff {values : List Value} :
    quotedList? heap values = none ↔ ∃ value ∈ values, value.display? heap = none := by
  rw [quotedList?, Option.map_eq_none_iff, mapM_eq_none_iff]
  simp only [quoted?_eq_none_iff]

end Value

end ScriptTree
