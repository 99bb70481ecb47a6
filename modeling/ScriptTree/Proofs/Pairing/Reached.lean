import Mathlib.Logic.Relation
import ScriptTree.Proofs.Pairing.Programs

/-!
# What can be reached of two heaps

An object that cannot be reached from the root scope makes no difference to a program.
`Heap.Reached` says what can be, and `Heap.AgreeReached` that two heaps are the same as far as that.
A pairing in which all names are written alike gives such heaps (`Pairing.Heaps.copies`), and if the
lines are the same as well, such reports (`Pairing.Reports.sameReached`).
-/

namespace ScriptTree

namespace Heap

/-- The objects that can be reached from the root scope: through fields, from scopes to their
parents, and from functions to the scopes that they keep. -/
inductive Reached (heap : Heap) : Ref → Prop
  | root : Reached heap root
  | field {ref next : Ref} {object : Object} {name : String} (reached : Reached heap ref)
      (found : heap.get? ref = some object) (bound : (name, .obj next) ∈ object.fields) :
    Reached heap next
  | parent {ref next : Ref} {object : Object} (reached : Reached heap ref)
      (found : heap.get? ref = some object) (around : object.parent = some next) :
    Reached heap next
  | captured {ref next : Ref} {object : Object} (reached : Reached heap ref)
      (found : heap.get? ref = some object) (kept : object.captured? = some next) :
    Reached heap next

/-- Heaps that are the same up to references, with the parents of scopes and the scopes that
functions keep. -/
structure Copies (same : Ref → Ref → Prop) (heap heap' : Heap) : Prop
    extends heap.Mirrors same heap' where
  links : ∀ {ref ref' object object'}, same ref ref' → heap.get? ref = some object →
    heap'.get? ref' = some object' → Option.Rel same object.parent object'.parent ∧
      Option.Rel same object.captured? object'.captured?

/-- Two heaps agree on all objects that can be reached, on either side. -/
def AgreeReached (heap heap' : Heap) : Prop :=
  ∃ same, heap.Copies same heap' ∧ (∀ ref, heap.Reached ref → ∃ ref', same ref ref') ∧
    ∀ ref', heap'.Reached ref' → ∃ ref, same ref ref'

end Heap

section Symmetry

variable {same : Ref → Ref → Prop}

theorem Value.Alike.symm {value value' : Value} (alike : value.Alike same value') :
    value'.Alike (flip same) value := by
  cases alike with
  | undefined => exact .undefined
  | int => exact .int
  | str => exact .str
  | obj matched => exact .obj matched
  | flag => exact .flag
  | null => exact .null

theorem Object.Mirrors.symm {object object' : Object} (mirrors : object.Mirrors same object') :
    object'.Mirrors (flip same) object := by
  obtain ⟨name, isFunction, fields⟩ := mirrors
  refine ⟨name.symm, isFunction.symm, List.Forall₂.flip ?_⟩
  exact fields.imp fun _ _ ⟨name, values⟩ => ⟨name.symm, values.symm⟩

theorem Option.Rel.symm {option option' : Option Ref} (rel : Option.Rel same option option') :
    Option.Rel (flip same) option' option := by
  cases rel with
  | none => exact .none
  | some both => exact .some both

end Symmetry

section Transitivity

variable {same same' : Ref → Ref → Prop}

theorem Value.Alike.trans {value value' value'' : Value} (alike : value.Alike same value')
    (further : value'.Alike same' value'') :
    value.Alike (Relation.Comp same same') value'' := by
  cases alike with
  | obj matched =>
      cases further with
      | obj matched' => exact .obj ⟨_, matched, matched'⟩
  | undefined | int | str | flag | null =>
      cases further
      constructor

theorem forall₂_trans {α β γ : Type} {first : α → β → Prop} {second : β → γ → Prop}
    {related : α → γ → Prop} (both : ∀ {a b c}, first a b → second b c → related a c)
    {list : List α} {list' : List β} {list'' : List γ} (all : List.Forall₂ first list list')
    (further : List.Forall₂ second list' list'') : List.Forall₂ related list list'' := by
  induction all generalizing list'' with
  | nil =>
      cases further
      exact .nil
  | cons here _ ih =>
      cases further with
      | cons there rest => exact .cons (both here there) (ih rest)

theorem Object.Mirrors.trans {object object' object'' : Object}
    (mirrors : object.Mirrors same object') (further : object'.Mirrors same' object'') :
    object.Mirrors (Relation.Comp same same') object'' where
  name := further.name.trans mirrors.name
  isFunction := further.isFunction.trans mirrors.isFunction
  fields := forall₂_trans (fun first second =>
    ⟨second.1.trans first.1, first.2.trans second.2⟩) mirrors.fields further.fields

theorem Option.Rel.trans {option option' option'' : Option Ref}
    (rel : Option.Rel same option option') (further : Option.Rel same' option' option'') :
    Option.Rel (Relation.Comp same same') option option'' := by
  cases rel with
  | none =>
      cases further
      exact .none
  | some both =>
      cases further with
      | some both' => exact .some ⟨_, both, both'⟩

end Transitivity

/-- What is there on one side has a counterpart. -/
theorem Option.Rel.exists_of_some {α β : Type} {related : α → β → Prop} {option : Option α}
    {option' : Option β} (rel : Option.Rel related option option') {item : α}
    (there : option = some item) : ∃ item', related item item' := by
  subst there
  cases rel with
  | some both => exact ⟨_, both⟩

theorem exists_of_forall₂ {α β : Type} {related : α → β → Prop} {list : List α} {list' : List β}
    (all : List.Forall₂ related list list') {item : α} (listed : item ∈ list) :
    ∃ item', related item item' := by
  induction all with
  | nil => exact absurd listed List.not_mem_nil
  | cons first _ ih =>
      rcases List.mem_cons.mp listed with rfl | later
      · exact ⟨_, first⟩
      · exact ih later

namespace Heap

variable {same : Ref → Ref → Prop} {heap heap' : Heap} {ref : Ref}

theorem Copies.symm (copies : heap.Copies same heap') : heap'.Copies (flip same) heap where
  root := copies.root
  functional := copies.injective
  injective := copies.functional
  objects := by
    intro ref' ref matched
    obtain ⟨object, object', found, found', mirrors⟩ := copies.objects matched
    exact ⟨object', object, found', found, mirrors.symm⟩
  links := by
    intro ref' ref object' object matched found' found
    obtain ⟨parents, captured⟩ := copies.links matched found found'
    exact ⟨Option.Rel.symm parents, Option.Rel.symm captured⟩

theorem Copies.trans {same' : Ref → Ref → Prop} {heap'' : Heap} (copies : heap.Copies same heap')
    (further : heap'.Copies same' heap'') : heap.Copies (Relation.Comp same same') heap'' where
  root := ⟨root, copies.root, further.root⟩
  functional := by
    rintro ref first second ⟨between, matched, matched'⟩ ⟨other, also, also'⟩
    rw [copies.functional also matched] at also'
    exact further.functional matched' also'
  injective := by
    rintro first second ref ⟨between, matched, matched'⟩ ⟨other, also, also'⟩
    rw [further.injective also' matched'] at also
    exact copies.injective matched also
  objects := by
    rintro ref ref'' ⟨ref', matched, matched'⟩
    obtain ⟨object, object', found, found', mirrors⟩ := copies.objects matched
    obtain ⟨there, object'', foundThere, found'', mirrors'⟩ := further.objects matched'
    cases found'.symm.trans foundThere
    exact ⟨object, object'', found, found'', mirrors.trans mirrors'⟩
  links := by
    rintro ref ref'' object object'' ⟨ref', matched, matched'⟩ found found''
    obtain ⟨-, object', -, found', -⟩ := copies.objects matched
    obtain ⟨parents, captured⟩ := copies.links matched found found'
    obtain ⟨parents', captured'⟩ := further.links matched' found' found''
    exact ⟨Option.Rel.trans parents parents', Option.Rel.trans captured captured'⟩

/-- Whatever can be reached has a counterpart. -/
theorem Copies.reached (copies : heap.Copies same heap') (reached : heap.Reached ref) :
    ∃ ref', same ref ref' := by
  -- the object that is reached before, and its counterpart
  have counterpart {ref : Ref} {object : Object} (matched : ∃ ref', same ref ref')
      (found : heap.get? ref = some object) : ∃ object', object.Mirrors same object' ∧
        Option.Rel same object.parent object'.parent ∧
        Option.Rel same object.captured? object'.captured? := by
    obtain ⟨ref', matched⟩ := matched
    obtain ⟨there, object', found', other, mirrors⟩ := copies.objects matched
    cases found.symm.trans found'
    exact ⟨object', mirrors, copies.links matched found other⟩
  induction reached with
  | root => exact ⟨_, copies.root⟩
  | field _ found bound ih =>
      obtain ⟨object', mirrors, -, -⟩ := counterpart ih found
      obtain ⟨binding', -, values⟩ := exists_of_forall₂ mirrors.fields bound
      generalize binding'.2 = value' at values
      cases values with
      | obj matched => exact ⟨_, matched⟩
  | parent _ found around ih =>
      obtain ⟨object', -, parents, -⟩ := counterpart ih found
      exact Option.Rel.exists_of_some parents around
  | captured _ found kept ih =>
      obtain ⟨object', -, -, captured⟩ := counterpart ih found
      exact Option.Rel.exists_of_some captured kept

theorem Copies.agreeReached (copies : heap.Copies same heap') : heap.AgreeReached heap' :=
  ⟨same, copies, fun _ reached => copies.reached reached,
    fun _ reached => copies.symm.reached reached⟩

theorem AgreeReached.symm : heap.AgreeReached heap' → heap'.AgreeReached heap
  | ⟨_, copies, _, _⟩ => copies.symm.agreeReached

theorem AgreeReached.trans {heap'' : Heap} :
    heap.AgreeReached heap' → heap'.AgreeReached heap'' → heap.AgreeReached heap''
  | ⟨_, copies, _, _⟩, ⟨_, further, _, _⟩ => (copies.trans further).agreeReached

end Heap

/-- Where all names are the same, the scopes of matched objects correspond as well. -/
theorem Pairing.Heaps.copies {pairing : Pairing Unit} {matching : Matching Unit}
    {heap heap' : Heap} (heaps : pairing.Heaps matching heap heap') :
    heap.Copies (pairing.Same matching) heap' where
  toMirrors := heaps.mirrors
  links := by
    intro ref ref' object object' matched found found'
    obtain ⟨there, there', foundThere, foundThere', objects⟩ := heaps.objects matched
    cases found.symm.trans foundThere
    cases found'.symm.trans foundThere'
    obtain ⟨-, parents, bodies, -⟩ := objects
    constructor
    · generalize object.parent = parent at parents
      generalize object'.parent = parent' at parents
      cases parents with
      | none => exact .none
      | some _ _ matched _ => exact .some matched
    · unfold Object.captured?
      generalize object.body = body at bodies
      generalize object'.body = body' at bodies
      cases bodies with
      | none => exact .none
      | builtin => exact .none
      | closure matched _ => exact .some matched

/-! ## Reports -/

/-- Reports that agree, but for the identity of objects and for objects that cannot be reached. -/
structure Report.SameReached (report report' : Report) : Prop where
  sink : report'.state.sink = report.state.sink
  ending : report'.ending = report.ending
  heap : report.state.heap.AgreeReached report'.state.heap

theorem Report.SameReached.symm {report report' : Report} (same : report.SameReached report') :
    report'.SameReached report :=
  ⟨same.sink.symm, same.ending.symm, same.heap.symm⟩

theorem Report.SameReached.trans {report report' report'' : Report}
    (same : report.SameReached report') (further : report'.SameReached report'') :
    report.SameReached report'' :=
  ⟨further.sink.trans same.sink, further.ending.trans same.ending, same.heap.trans further.heap⟩

/-- Where names and lines are the same on both sides, so is what can be seen of a run. -/
theorem Pairing.Reports.sameReached {pairing : Pairing Unit} {report report' : Report}
    (reports : pairing.Reports report report')
    (lines : ∀ {own own'}, pairing.line own own' → own' = own)
    (names : ∀ {name name'}, pairing.unknown name name' → name' = name) :
    report.SameReached report' := by
  obtain ⟨⟨matching, heaps, sink, -⟩, endings⟩ := reports
  refine ⟨sink, ?_, heaps.copies.agreeReached⟩
  generalize report.ending = ending at endings
  generalize report'.ending = ending' at endings
  cases endings with
  | ok => rfl
  | error faults =>
      cases faults with
      | failure causes same =>
          rw [lines same]
          cases causes with
          | same => rfl
          | unknownVariable unknown => rw [names unknown]
      | digitLimit | sinkClosed | tooDeep => rfl

end ScriptTree
