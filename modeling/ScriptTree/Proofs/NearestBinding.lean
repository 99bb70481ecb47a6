import Mathlib.Data.List.Perm.Subperm
import ScriptTree.Proofs.ScopeChains

/-!
# Lookups after a name is bound

On a heap in which every chain of parents comes to an end (`Heap.Chained`), a lookup finds the
nearest binding of a name. So what it finds after a name is bound in an object is decided by where
the object stands on the chain: it is the new value if nothing nearer holds the name, and what it
was before in every other case (`Heap.findSome?_register`). A name that is bound to undefined is
held like any other and hides what is further out.

Two bindings in different objects or under different names leave heaps that no lookup tells apart,
in whichever order they are made, and so do two of one name in one object and the later one alone
(`Heap.AgreeBut`): only the order in which an object lists its names may differ.
-/

namespace ScriptTree.Heap

variable {heap other : Heap} {ref link : Ref} {links : List Ref} {key name : String} {value : Value}

/-! ## Whole chains -/

/-- Every object has a whole chain: its parents are there, and they come to an end. -/
def Chained (heap : Heap) : Prop :=
  ∀ ref < heap.size, ∃ links, heap.Linked ref links

theorem Linked.lt_size (linked : heap.Linked ref links) : ∀ link ∈ links, link < heap.size := by
  induction linked with
  | last found top =>
      intro link listed
      exact List.mem_singleton.mp listed ▸ lt_size_of_get? found
  | next found inner around ih => exact List.forall_mem_cons.mpr ⟨lt_size_of_get? found, ih⟩

/-- An object has one chain. -/
theorem Linked.unique {links' : List Ref} (first : heap.Linked ref links)
    (second : heap.Linked ref links') : links = links' := by
  induction first generalizing links' with
  | last found top =>
      cases second with
      | last => rfl
      | next found' inner =>
          cases found.symm.trans found'
          cases top.symm.trans inner
  | next found inner around ih =>
      cases second with
      | last found' top =>
          cases found.symm.trans found'
          cases top.symm.trans inner
      | next found' inner' around' =>
          cases found.symm.trans found'
          cases inner.symm.trans inner'
          rw [ih around']

/-- The chain of a parent is the rest of the chain from there on. -/
theorem Linked.exists_suffix (linked : heap.Linked ref links) (listed : link ∈ links) :
    ∃ further, heap.Linked link further ∧ further <:+ links := by
  induction linked with
  | last found top =>
      obtain rfl := List.mem_singleton.mp listed
      exact ⟨_, .last found top, List.suffix_refl _⟩
  | next found inner around ih =>
      rcases List.mem_cons.mp listed with rfl | further
      · exact ⟨_, .next found inner around, List.suffix_refl _⟩
      · obtain ⟨rest, linked, suffix⟩ := ih further
        exact ⟨rest, linked, suffix.trans (List.suffix_cons _ _)⟩

/-- A chain that comes to an end repeats no object. -/
theorem Linked.nodup (linked : heap.Linked ref links) : links.Nodup := by
  induction linked with
  | last found top => exact List.nodup_cons.mpr ⟨List.not_mem_nil, .nil⟩
  | @next ref parent object links found inner around ih =>
      refine List.nodup_cons.mpr ⟨fun again => ?_, ih⟩
      -- from there on the chain would be the whole of itself
      obtain ⟨further, linked, suffix⟩ := around.exists_suffix again
      have shorter := suffix.length_le
      rw [linked.unique (.next found inner around)] at shorter
      exact absurd shorter (Nat.not_succ_le_self _)

theorem Linked.length_le_size (linked : heap.Linked ref links) : links.length ≤ heap.size := by
  have within : links ⊆ List.range heap.size := fun link listed =>
    List.mem_range.mpr (linked.lt_size link listed)
  have fewer := (linked.nodup.subperm within).length_le
  rwa [List.length_range] at fewer

/-- A lookup goes along the whole chain. -/
theorem Linked.lookup (linked : heap.Linked ref links) (name : String) :
    heap.lookup ref name =
      (links.findSome? fun link => (heap.fields link).get? name).getD .undefined :=
  linked.lookup_eq linked.length_le_size name

/-! ## One binding -/

/-- The object stands on the chain, and no object nearer on it holds the name. -/
def Nearest (heap : Heap) (links : List Ref) (ref : Ref) (name : String) : Prop :=
  ∃ nearer outer, links = nearer ++ ref :: outer ∧
    ∀ link ∈ nearer, (heap.fields link).get? name = none

theorem not_nearest_nil : ¬ heap.Nearest [] ref name := by
  rintro ⟨nearer, outer, split, -⟩
  cases nearer <;> cases split

theorem nearest_cons : heap.Nearest (link :: links) ref name ↔
    link = ref ∨ (heap.fields link).get? name = none ∧ heap.Nearest links ref name := by
  constructor
  · rintro ⟨nearer, outer, split, free⟩
    cases nearer with
    | nil => exact .inl (List.cons.inj split).1
    | cons first nearer =>
        cases split
        obtain ⟨here, further⟩ := List.forall_mem_cons.mp free
        exact .inr ⟨here, nearer, outer, rfl, further⟩
  · rintro (rfl | ⟨here, nearer, outer, rfl, free⟩)
    · exact ⟨[], links, rfl, nofun⟩
    · exact ⟨link :: nearer, outer, rfl, List.forall_mem_cons.mpr ⟨here, free⟩⟩

/-- What the objects hold after a name is bound in one of them. -/
theorem get?_fields_register (heap : Heap) (ref : Ref) (key : String) (value : Value) (link : Ref)
    (name : String) :
    ((heap.register ref key value).fields link).get? name =
      if link = ref ∧ name = key ∧ ref < heap.size then some value
      else (heap.fields link).get? name := by
  by_cases here : link = ref
  · subst here
    by_cases inside : link < heap.size
    · rw [fields_register inside]
      by_cases same : name = key
      · rw [if_pos ⟨rfl, same, inside⟩, same, Fields.get?_put_self]
      · rw [if_neg fun both => same both.2.1, Fields.get?_put_of_ne _ _ same]
    · have outside := Nat.not_lt.mp inside
      have outside' : (heap.register link key value).size ≤ link := by
        rw [size_register]
        exact outside
      rw [if_neg fun both => inside both.2.2, fields_of_size_le outside,
        fields_of_size_le outside']
  · rw [if_neg fun both => here both.1, fields_register_of_ne heap here]

/-- Along a chain, the name that was bound is found anew if nothing nearer holds it, and else as
before. -/
theorem findSome?_register (inside : ref < heap.size) (key : String) (value : Value)
    (links : List Ref) :
    (heap.Nearest links ref key →
      (links.findSome? fun link => ((heap.register ref key value).fields link).get? key) =
        some value) ∧
    (¬ heap.Nearest links ref key →
      (links.findSome? fun link => ((heap.register ref key value).fields link).get? key) =
        links.findSome? fun link => (heap.fields link).get? key) := by
  induction links with
  | nil => exact ⟨fun nearest => absurd nearest not_nearest_nil, fun _ => rfl⟩
  | cons link links ih =>
      rw [nearest_cons, List.findSome?_cons, List.findSome?_cons, get?_fields_register]
      by_cases here : link = ref
      · rw [if_pos ⟨here, rfl, inside⟩]
        exact ⟨fun _ => rfl, fun other => absurd (.inl here) other⟩
      · rw [if_neg fun both => here both.1]
        cases (heap.fields link).get? key with
        | none => simpa [here] using ih
        | some found => exact ⟨fun nearest => by simp [here] at nearest, fun _ => rfl⟩

theorem findSome?_register_of_ne (differs : name ≠ key) (links : List Ref) :
    (links.findSome? fun link => ((heap.register ref key value).fields link).get? name) =
      links.findSome? fun link => (heap.fields link).get? name := by
  congr 1
  funext link
  rw [get?_fields_register, if_neg fun both => differs both.2.1]

/-! ## Heaps that lookups do not tell apart -/

/-- The heaps have the same objects with the same parents, and in every object each name reads the
same in both, in whichever order it is listed, except for some names of some objects. -/
structure AgreeBut (except : Ref → String → Prop) (heap other : Heap) : Prop where
  size : heap.size = other.size
  parent : ∀ ref, (heap.get? ref).map Object.parent = (other.get? ref).map Object.parent
  bound : ∀ ref name, ¬ except ref name →
    (heap.fields ref).get? name = (other.fields ref).get? name

/-- No name of no object. -/
def nothing : Ref → String → Prop :=
  fun _ _ => False

/-- One name of one object. -/
def only (ref : Ref) (key : String) : Ref → String → Prop :=
  fun ref' key' => ref' = ref ∧ key' = key

theorem parent_register (heap : Heap) (ref : Ref) (key : String) (value : Value) (link : Ref) :
    ((heap.register ref key value).get? link).map Object.parent =
      (heap.get? link).map Object.parent := by
  rw [get?_register]
  split
  · rw [Option.map_map]
    rfl
  · rfl

section Agree

variable {except : Ref → String → Prop}

/-- The chains are the same. -/
theorem AgreeBut.chainUpTo (agree : heap.AgreeBut except other) (count : Nat) (ref : Ref) :
    heap.chainUpTo count ref = other.chainUpTo count ref := by
  induction count generalizing ref with
  | zero => rfl
  | succ count ih =>
      have parent := agree.parent ref
      rw [Heap.chainUpTo, Heap.chainUpTo]
      cases found : heap.get? ref with
      | none =>
          rw [found] at parent
          rw [Option.map_eq_none_iff.mp parent.symm]
      | some object =>
          rw [found] at parent
          obtain ⟨object', found', same⟩ := Option.map_eq_some_iff.mp parent.symm
          rw [found']
          dsimp only
          rw [same]
          cases object.parent with
          | none => rfl
          | some around => exact congrArg (ref :: ·) (ih around)

theorem AgreeBut.lookup (agree : heap.AgreeBut nothing other) (ref : Ref) (name : String) :
    heap.lookup ref name = other.lookup ref name := by
  have same : (fun link => (heap.fields link).get? name) =
      fun link => (other.fields link).get? name :=
    funext fun link => agree.bound link name id
  rw [Heap.lookup, Heap.lookup, find?, find?, chain, chain, agree.size, agree.chainUpTo, same]

theorem AgreeBut.register (agree : heap.AgreeBut except other) (ref : Ref) (key : String)
    (value : Value) :
    (heap.register ref key value).AgreeBut except (other.register ref key value) where
  size := by rw [size_register, size_register, agree.size]
  parent := fun link => by rw [parent_register, parent_register, agree.parent]
  bound := fun link name outside => by
    rw [get?_fields_register, get?_fields_register, agree.size, agree.bound link name outside]

/-- A name that is bound reads the same from then on. -/
theorem AgreeBut.register_only (agree : heap.AgreeBut (only ref key) other)
    (inside : ref < heap.size) (value : Value) :
    (heap.register ref key value).AgreeBut nothing (other.register ref key value) where
  size := (agree.register ref key value).size
  parent := (agree.register ref key value).parent
  bound := fun link name _ => by
    by_cases bound : link = ref ∧ name = key
    · have inside' : ref < other.size := agree.size ▸ inside
      rw [get?_fields_register, get?_fields_register, if_pos ⟨bound.1, bound.2, inside⟩,
        if_pos ⟨bound.1, bound.2, inside'⟩]
    · exact (agree.register ref key value).bound link name bound

end Agree

theorem agreeBut_register (heap : Heap) (ref : Ref) (key : String) (value : Value) :
    (heap.register ref key value).AgreeBut (only ref key) heap where
  size := size_register heap ref key value
  parent := parent_register heap ref key value
  bound := fun link name outside => by
    rw [get?_fields_register, if_neg fun both => outside ⟨both.1, both.2.1⟩]

/-- Bindings in different objects or under different names may be made in either order. -/
theorem agreeBut_register_comm {ref' : Ref} {key' : String} (differs : ref ≠ ref' ∨ key ≠ key')
    (value value' : Value) :
    ((heap.register ref key value).register ref' key' value').AgreeBut nothing
      ((heap.register ref' key' value').register ref key value) where
  size := by simp only [size_register]
  parent := fun link => by simp only [parent_register]
  bound := fun link name _ => by
    simp only [get?_fields_register, size_register]
    by_cases first : link = ref ∧ name = key ∧ ref < heap.size
    · have notSecond : ¬ (link = ref' ∧ name = key' ∧ ref' < heap.size) := by
        rintro ⟨here, same, -⟩
        exact differs.elim (fun other => other (first.1.symm.trans here))
          fun other => other (first.2.1.symm.trans same)
      rw [if_neg notSecond, if_pos first, if_pos first]
    · rw [if_neg first, if_neg first]

/-- Binds names in objects, one after another. -/
def registerAll (heap : Heap) (writes : List (Ref × String × Value)) : Heap :=
  writes.foldl (fun heap write => heap.register write.1 write.2.1 write.2.2) heap

theorem size_registerAll (heap : Heap) (writes : List (Ref × String × Value)) :
    (heap.registerAll writes).size = heap.size := by
  induction writes generalizing heap with
  | nil => rfl
  | cons write writes ih => exact (ih _).trans (size_register _ _ _ _)

theorem AgreeBut.registerAll {except : Ref → String → Prop} (agree : heap.AgreeBut except other)
    (writes : List (Ref × String × Value)) :
    (heap.registerAll writes).AgreeBut except (other.registerAll writes) := by
  induction writes generalizing heap other with
  | nil => exact agree
  | cons write writes ih => exact ih (agree.register write.1 write.2.1 write.2.2)

/-! ## Lookups -/

/-- A name is bound in an object of a heap in which all chains come to an end.
* A lookup of this name from any object gives the new value if the object in which it was bound is
  on the chain and nothing nearer on it holds the name. Every other lookup gives what it gave.
* Two bindings in different objects or under different names may be made in either order.
* When the name is bound in the object again, after any others, no lookup from then on, after any
  further ones, depends on the first time. -/
theorem lookup_after_register (chained : heap.Chained) (there : ref < heap.size) (key : String)
    (value : Value) :
    (∀ start < heap.size, ∃ links, heap.Linked start links ∧ ∀ name,
      (name = key ∧ heap.Nearest links ref key →
        (heap.register ref key value).lookup start name = value) ∧
      (¬ (name = key ∧ heap.Nearest links ref key) →
        (heap.register ref key value).lookup start name = heap.lookup start name)) ∧
    (∀ ref' key' value', ref ≠ ref' ∨ key ≠ key' → ∀ start name,
      ((heap.register ref key value).register ref' key' value').lookup start name =
        ((heap.register ref' key' value').register ref key value).lookup start name) ∧
    ∀ between value' further start name,
      ((((heap.register ref key value).registerAll between).register ref key value').registerAll
          further).lookup start name =
        (((heap.registerAll between).register ref key value').registerAll further).lookup
          start name := by
  refine ⟨fun start inside => ?_, fun ref' key' value' differs start name => ?_,
    fun between value' further start name => ?_⟩
  · obtain ⟨links, linked⟩ := chained start inside
    have linked' := linked.grows (.register heap ref key value)
    obtain ⟨found, kept⟩ := findSome?_register there key value links
    refine ⟨links, linked, fun name => ⟨?_, fun other => ?_⟩⟩
    · rintro ⟨rfl, nearest⟩
      rw [linked'.lookup, found nearest]
      rfl
    · rw [linked'.lookup, linked.lookup]
      by_cases same : name = key
      · subst same
        rw [kept fun nearest => other ⟨rfl, nearest⟩]
      · rw [findSome?_register_of_ne same]
  · exact (agreeBut_register_comm differs value value').lookup start name
  · have inside : ref < ((heap.register ref key value).registerAll between).size := by
      rw [size_registerAll, size_register]
      exact there
    have hidden := (agreeBut_register heap ref key value).registerAll between
    exact ((hidden.register_only inside value').registerAll further).lookup start name

/-- Three scopes, each inside the one before. The middle one holds undefined for a name that the
outermost binds. -/
def nestedScopes : Heap :=
  ⟨#[.scope none [("x", .int 5)], .scope (some 0) [("x", .undefined)], .scope (some 1) []]⟩

theorem linked_nestedScopes : nestedScopes.Linked 2 [2, 1, 0] :=
  .next rfl rfl (.next rfl rfl (.last rfl rfl))

theorem chained_nestedScopes : nestedScopes.Chained := by
  intro ref inside
  match ref, inside with
  | 0, _ => exact ⟨[0], .last rfl rfl⟩
  | 1, _ => exact ⟨[1, 0], .next rfl rfl (.last rfl rfl)⟩
  | 2, _ => exact ⟨[2, 1, 0], linked_nestedScopes⟩

/-- Seen from the innermost scope, a binding in the middle one is found, and one in the outermost
stays hidden. -/
theorem lookup_after_register_nestedScopes :
    nestedScopes.Chained ∧ 0 < nestedScopes.size ∧ 1 < nestedScopes.size ∧
      (nestedScopes.register 1 "x" (.int 7)).lookup 2 "x" = .int 7 ∧
      (nestedScopes.register 0 "x" (.int 7)).lookup 2 "x" = .undefined := by
  have outermost : 0 < nestedScopes.size := by decide
  have middle : 1 < nestedScopes.size := by decide
  have innermost : 2 < nestedScopes.size := by decide
  refine ⟨chained_nestedScopes, outermost, middle, ?_, ?_⟩
  · obtain ⟨links, linked, found⟩ :=
      (lookup_after_register chained_nestedScopes middle "x" (.int 7)).1 2 innermost
    obtain rfl := linked.unique linked_nestedScopes
    refine (found "x").1 ⟨rfl, [2], [0], rfl, fun link listed => ?_⟩
    exact List.mem_singleton.mp listed ▸ rfl
  · obtain ⟨links, linked, found⟩ :=
      (lookup_after_register chained_nestedScopes outermost "x" (.int 7)).1 2 innermost
    obtain rfl := linked.unique linked_nestedScopes
    have hidden : ¬ nestedScopes.Nearest [2, 1, 0] 0 "x" := by
      rw [nearest_cons, nearest_cons]
      rintro (⟨⟨⟩⟩ | ⟨-, ⟨⟨⟩⟩ | ⟨⟨⟩, -⟩⟩)
    exact (found "x").2 fun both => hidden both.2

end ScriptTree.Heap
