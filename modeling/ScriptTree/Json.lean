import ScriptTree.Fields

/-!
Documents. A JSON value as a tree: numbers without a fraction or an exponent are integers of any
size, all others keep the decimal that was written, and an object keeps its members as they stand.

Whether two documents are equal can be decided (`same_iff`). A name may stand more than once in an
object. A member that is looked up is the last of its name (`find?`), as if each had been bound in
turn (`find?_eq_get?_ofList`).
-/

namespace ScriptTree

/-- A JSON value. -/
inductive Json where
  | null
  | bool (value : Bool)
  | int (value : Int)
  /-- The number `mantissa * 10 ^ exponent`, or its negative. -/
  | decimal (negative : Bool) (mantissa : Nat) (exponent : Int)
  | nan
  | infinity (negative : Bool)
  | string (value : String)
  | array (items : List Json)
  | object (members : List (String × Json))
  deriving Inhabited

namespace Json

/-! ## Equality -/

mutual

/-- Whether two documents are the same. -/
def same : Json → Json → Bool
  | .null, .null | .nan, .nan => true
  | .bool value, .bool value' => value = value'
  | .int value, .int value' => value = value'
  | .decimal negative mantissa exponent, .decimal negative' mantissa' exponent' =>
      negative = negative' && mantissa = mantissa' && exponent = exponent'
  | .infinity negative, .infinity negative' => negative = negative'
  | .string value, .string value' => value = value'
  | .array items, .array items' => sameItems items items'
  | .object members, .object members' => sameMembers members members'
  | _, _ => false

/-- Whether two lists of items are the same. -/
def sameItems : List Json → List Json → Bool
  | [], [] => true
  | item :: rest, item' :: rest' => same item item' && sameItems rest rest'
  | _, _ => false

/-- Whether two lists of members are the same, in their order. -/
def sameMembers : List (String × Json) → List (String × Json) → Bool
  | [], [] => true
  | (name, value) :: rest, (name', value') :: rest' =>
      name = name' && same value value' && sameMembers rest rest'
  | _, _ => false

end

mutual

theorem same_iff (json json' : Json) : same json json' = true ↔ json = json' := by
  cases json with
  | array items =>
      cases json' with
      | array items' => simp [same, sameItems_iff items items']
      | _ => simp [same]
  | object members =>
      cases json' with
      | object members' => simp [same, sameMembers_iff members members']
      | _ => simp [same]
  | _ => cases json' <;> simp [same, and_assoc]

theorem sameItems_iff (items items' : List Json) :
    sameItems items items' = true ↔ items = items' := by
  cases items with
  | nil => cases items' <;> simp [sameItems]
  | cons item rest =>
      cases items' with
      | nil => simp [sameItems]
      | cons item' rest' => simp [sameItems, same_iff item item', sameItems_iff rest rest']

theorem sameMembers_iff (members members' : List (String × Json)) :
    sameMembers members members' = true ↔ members = members' := by
  cases members with
  | nil => cases members' <;> simp [sameMembers]
  | cons member rest =>
      obtain ⟨name, value⟩ := member
      cases members' with
      | nil => simp [sameMembers]
      | cons member' rest' =>
          obtain ⟨name', value'⟩ := member'
          simp [sameMembers, same_iff value value', sameMembers_iff rest rest']

end

instance : DecidableEq Json := fun json json' =>
  decidable_of_iff _ (same_iff json json')

/-! ## Members -/

/-- The last member of a name. -/
def find? {α : Type} : List (String × α) → String → Option α
  | [], _ => none
  | (key, value) :: rest, name =>
      match find? rest name with
      | some found => some found
      | none => if key = name then some value else none

/-- A member of an object, by name. -/
def member? (name : String) : Json → Option Json
  | .object members => find? members name
  | _ => none

/-- Bindings made in turn read back the last of a name, and those before them otherwise. -/
theorem get?_putAll {α : Type} (fields : Fields α) (members : List (String × α)) (name : String) :
    (fields.putAll members).get? name = (find? members name <|> fields.get? name) := by
  induction members generalizing fields with
  | nil => rfl
  | cons member rest ih =>
      have step := ih (fields.put member.1 member.2)
      rw [Fields.putAll, List.foldl_cons, ← Fields.putAll, step]
      cases later : find? rest name with
      | some found => simp [find?, later]
      | none =>
          by_cases same : member.1 = name
          · subst same
            simp [find?, later]
          · simp [find?, later, same, Fields.get?_put_of_ne fields member.2 (Ne.symm same)]

/-- Looking a member up reads the bindings that all members leave. -/
theorem find?_eq_get?_ofList {α : Type} (members : List (String × α)) (name : String) :
    find? members name = (Fields.ofList members).get? name := by
  have read := get?_putAll [] members name
  rw [Fields.ofList, read]
  cases find? members name <;> rfl

end Json

end ScriptTree
