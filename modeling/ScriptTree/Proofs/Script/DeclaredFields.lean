import Mathlib.Logic.Relation
import ScriptTree.Proofs.Script.Contexts

/-!
# Only the declared fields matter

A node of a document may be written in many ways: its members in any order, with members that are no
fields, and with or without the fields that have a default (`Edit`). A document may be edited at any
place where a node may stand (`Json.Edited`). Documents that differ by any number of such edits are
checked alike: they give one program, or one list of issues (`Slot.check_of_edits`).
-/

namespace ScriptTree

/-! ## Objects that are read alike -/

namespace Json

variable {α : Type} {members members' : List (String × α)}

/-- The members stand in another order. Of the members of one name, the same is the last. -/
structure Permuted (members members' : List (String × α)) : Prop where
  perm : members.Perm members'
  last : ∀ name, find? members' name = find? members name

theorem Permuted.symm (order : Permuted members members') : Permuted members' members :=
  ⟨order.perm.symm, fun name => (order.last name).symm⟩

/-- Where no name stands twice, any order will do. -/
theorem permuted_of_nodup (perm : members.Perm members') (nodup : (members.map Prod.fst).Nodup) :
    Permuted members members' := by
  refine ⟨perm, fun name => ?_⟩
  have read {members : List (String × α)} (nodup : (members.map Prod.fst).Nodup) {value : α}
      (listed : (name, value) ∈ members) : find? members name = some value := by
    obtain ⟨front, back, rfl⟩ := List.append_of_mem listed
    rw [List.map_append, List.map_cons, List.nodup_middle, List.nodup_cons, List.mem_append,
      not_or] at nodup
    exact find?_of_last value nodup.1.2
  cases found : find? members name with
  | some value =>
      obtain ⟨front, back, rfl, -⟩ := exists_split_of_find? found
      exact read ((perm.map Prod.fst).nodup_iff.mp nodup) (perm.mem_iff.mp (by simp))
  | none =>
      rw [find?_eq_none_iff] at found ⊢
      exact fun listed => found ((perm.map Prod.fst).mem_iff.mpr listed)

end Json

namespace Slot

variable {slot : Slot} {members members' : List (String × Json)}

/-- A place where a node stands, or the program. -/
def isNode : Slot → Bool
  | .script | .block | .expr => true
  | _ => false

/-- The names under which an object is looked at: those of the declared fields, and that of the tag
where an expression may stand. -/
def keys (members : List (String × Json)) (slot : Slot) : List String :=
  (if slot = .expr then ["kind"] else []) ++
    ((slot.shape? members).elim [] fun shape => shape.fields.map Field.key)

theorem kind_mem_keys (members : List (String × Json)) : "kind" ∈ Slot.expr.keys members := by
  rw [keys, if_pos rfl]
  exact List.mem_append_left _ List.mem_cons_self

theorem key_mem_keys {shape : Shape slot} (shaped : slot.shape? members = some shape)
    {field : Field} (declared : field ∈ shape.fields) : field.key ∈ slot.keys members := by
  rw [keys, shaped]
  exact List.mem_append_right _ (List.mem_map_of_mem declared)

/-- Two objects with one tag whose declared fields are read alike are checked alike. -/
theorem check_object_congr (node : slot.isNode = true)
    (tag : slot = .expr → Json.find? members "kind" = Json.find? members' "kind")
    (same : ∀ shape, slot.shape? members = some shape →
      ∀ field ∈ shape.fields, field.read members = field.read members') :
    slot.check (.object members) = slot.check (.object members') := by
  have shapes : slot.shape? members = slot.shape? members' := by
    cases slot with
    | expr => rw [shape?, shape?, tag rfl]
    | _ => rfl
  cases shaped : slot.shape? members with
  | some shape =>
      rw [check_object shaped, check_object (shapes.symm.trans shaped),
        shape.build_congr (same shape shaped)]
  | none =>
      cases slot with
      | expr =>
          rw [check, Decode.expr_object, Decode.expr_object, Decode.exprWith, Decode.exprWith,
            ← tag rfl]
          unfold shape? at shaped
          cases tagged : Json.find? members "kind" with
          | none => rfl
          | some json =>
              cases json with
              | string name =>
                  rw [tagged] at shaped
                  dsimp only
                  rw [Option.map_eq_none_iff.mp shaped]
              | _ => rfl
      | script | block => cases shaped
      | _ => cases node

end Slot

/-! ## Edits of nodes -/

/-- A change of the members of a node that its check does not see. -/
inductive Edit (slot : Slot) : List (String × Json) → List (String × Json) → Prop where
  | permuted {members members' : List (String × Json)} (order : Json.Permuted members members') :
    Edit slot members members'
  /-- One more member, which is no field, or has another of its name after it. -/
  | added {front back : List (String × Json)} {name : String} (json : Json)
      (unread : name ∉ slot.keys (front ++ back) ∨ name ∈ back.map Prod.fst) :
    Edit slot (front ++ back) (front ++ (name, json) :: back)
  /-- A field that was left out, with its default. -/
  | written {front back : List (String × Json)} {shape : Shape slot} {field : Field}
      {default : Default field.slot} (shaped : slot.shape? (front ++ back) = some shape)
      (declared : field ∈ shape.fields) (defaults : field.default? = some default)
      (absent : field.key ∉ (front ++ back).map Prod.fst) :
    Edit slot (front ++ back) (front ++ (field.key, default.written) :: back)

namespace Edit

variable {slot : Slot} {members members' : List (String × Json)}

/-- An edit does not change what the check of the node gives. -/
theorem check_eq (node : slot.isNode = true) (edit : Edit slot members members') :
    slot.check (.object members) = slot.check (.object members') := by
  cases edit with
  | permuted order =>
      exact Slot.check_object_congr node (fun _ => (order.last "kind").symm)
        fun _ _ field _ => Field.read_congr (order.last field.key).symm
  | @added front back name json unread =>
      have same (key : String) (read : key ∈ slot.keys (front ++ back)) :
          Json.find? (front ++ back) key = Json.find? (front ++ (name, json) :: back) key := by
        rcases unread with other | followed
        · have differs : name ≠ key := by
            rintro rfl
            exact other read
          exact (Json.find?_of_ne json differs).symm
        · exact (Json.find?_of_followed json followed).symm
      refine Slot.check_object_congr node ?_ fun shape shaped field declared =>
        Field.read_congr (same field.key (Slot.key_mem_keys shaped declared))
      rintro rfl
      exact same "kind" (Slot.kind_mem_keys _)
  | @written front back shape field default shaped declared defaults absent =>
      refine Slot.check_object_congr node ?_ fun shape' shaped' other declared' => ?_
      · rintro rfl
        cases shape with
        | node kind =>
            exact (Json.find?_of_ne default.written (Shape.key_ne_kind kind declared)).symm
      · cases shaped.symm.trans shaped'
        rcases shape.eq_or_ne declared declared' with rfl | differs
        · have last : field.key ∉ back.map Prod.fst := fun later =>
            absent (List.map_append ▸ List.mem_append_right _ later)
          rw [Field.read_of_default (Json.find?_eq_none_iff.mpr absent) defaults,
            Field.read_of_find? (Json.find?_of_last default.written last), default.reads]
          rfl
        · exact Field.read_congr (Json.find?_of_ne default.written differs).symm

end Edit

/-! ## Documents -/

theorem Decode.exprsFrom_congr {json json' : Json} (same : expr json = expr json') (position : Nat)
    (front back : List Json) :
    exprsFrom position (front ++ json :: back) = exprsFrom position (front ++ json' :: back) := by
  induction front generalizing position with
  | nil => rw [List.nil_append, List.nil_append, exprsFrom, exprsFrom, same]
  | cons item front ih => rw [List.cons_append, List.cons_append, exprsFrom, exprsFrom, ih]

theorem Decode.namedFrom_congr {json json' : Json} (same : expr json = expr json') (name : String)
    (front back : List (String × Json)) :
    namedFrom (front ++ (name, json) :: back) = namedFrom (front ++ (name, json') :: back) := by
  induction front with
  | nil => rw [List.nil_append, List.nil_append, namedFrom, namedFrom, same]
  | cons member front ih => rw [List.cons_append, List.cons_append, namedFrom, namedFrom, ih]

/-- What is the same in the hole is the same in the document. -/
theorem Layer.check_fill_congr {inner outer : Slot} (layer : Layer inner outer) {json json' : Json}
    (same : inner.check json = inner.check json') :
    outer.check (layer.fill json) = outer.check (layer.fill json') := by
  cases layer with
  | @member _ shape field front back shaped declared last =>
      have shaped' (json : Json) := (Slot.shape?_member shape declared front back json).trans shaped
      rw [fill, fill, Slot.check_object (shaped' json), Slot.check_object (shaped' json')]
      refine congrArg _ (shape.build_congr fun other declared' => ?_)
      rcases shape.eq_or_ne declared declared' with rfl | key
      · rw [Field.read_of_find? (Json.find?_of_last json last),
          Field.read_of_find? (Json.find?_of_last json' last), same]
      · exact Field.read_of_ne key front back json json'
  | item front back => exact Decode.exprsFrom_congr same 0 front back
  | entry front name back =>
      exact congrArg (Fields.ofList <$> ·) (Decode.namedFrom_congr same name front back)

theorem Context.check_fill_congr {inner outer : Slot} (context : Context inner outer)
    {json json' : Json} (same : inner.check json = inner.check json') :
    outer.check (context.fill json) = outer.check (context.fill json') := by
  induction context with
  | here => exact same
  | inside layer context ih => exact layer.check_fill_congr ih

/-- A program is written in another way at one place. -/
inductive Json.Edited : Json → Json → Prop where
  | mk {slot : Slot} (node : slot.isNode = true) (context : Context slot .script)
      {members members' : List (String × Json)} (edit : Edit slot members members') :
    Edited (context.fill (.object members)) (context.fill (.object members'))

theorem Json.Edited.check_eq {json json' : Json} (edited : json.Edited json') :
    Slot.script.check json = Slot.script.check json' := by
  cases edited with
  | mk node context edit => exact context.check_fill_congr (edit.check_eq node)

/-- Any number of edits, at any places and in either direction, change nothing. -/
theorem Slot.check_of_edits {json json' : Json} (edits : Relation.EqvGen Json.Edited json json') :
    Slot.script.check json = Slot.script.check json' := by
  induction edits with
  | rel _ _ edited => exact edited.check_eq
  | refl => rfl
  | symm _ _ _ ih => exact ih.symm
  | trans _ _ _ _ _ first second => exact first.trans second

end ScriptTree
