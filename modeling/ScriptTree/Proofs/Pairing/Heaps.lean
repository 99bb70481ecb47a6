import Mathlib.Data.List.Forall2
import ScriptTree.Eval
import ScriptTree.Proofs.HeapGrowth

/-!
# Two heaps side by side

Two programs that differ a little run side by side, and their heaps correspond: objects of the one
are matched with objects of the other, which may stand at other references and may be fewer or more.
A `Pairing` says how the two programs differ. Names of variables may be written differently on the
two sides, so every matched object has a region, which tells how (`Naming`); only scopes can have
another region than the outer one, in which all names are the same.

`Pairing.Heaps` is the correspondence of two heaps under a matching. This module shows what it says
about reading (lookups, texts, kinds and identity of values correspond) and that it is kept by what
a run does to a heap.
-/

namespace ScriptTree

/-! ## How two programs differ -/

/-- How the names of variables are written on the other side, by region. -/
structure Naming (Region : Type) where
  outer : Region
  /-- The names that the code of a region uses. -/
  known : Region → String → Prop
  rename : Region → String → String
  known_outer : ∀ name, known outer name
  rename_outer : ∀ name, rename outer name = name
  known_this : ∀ region, known region "this"
  rename_this : ∀ region, rename region "this" = "this"
  injective : ∀ {region first second}, known region first → known region second →
    rename region first = rename region second → first = second

/-- The same names everywhere on both sides. -/
def Naming.same : Naming Unit where
  outer := ()
  known _ _ := True
  rename _ name := name
  known_outer _ := trivial
  rename_outer _ := rfl
  known_this _ := trivial
  rename_this _ := rfl
  injective _ _ same := same

/-- How two programs differ: in their names, in their code, region by region, and in their lines. -/
structure Pairing (Region : Type) extends Naming Region where
  /-- The code of a region and its counterpart. -/
  code : Region → Expr → Expr → Prop
  line : Line → Line → Prop
  line_refl : ∀ own, line own own
  line_orElse : ∀ {own own' other other'}, line own own' → line other other' →
    line (own <|> other) (own' <|> other')
  /-- The name of an unknown variable, as the two sides report it. -/
  unknown : String → String → Prop
  /-- What stands in blocks of the other side without a counterpart. -/
  inserted : Expr → Prop
  /-- Whether a block of the other side may stand for its elements, which have counterparts. -/
  nested : Prop := False

/-- The other side may need more room: an evaluation may be nested deeper there. -/
def Pairing.Costlier {Region : Type} (pairing : Pairing Region) : Prop :=
  pairing.nested ∨ ∃ expr, pairing.inserted expr

/-- An error has the same line on both sides if its own line is the same and that of the call is. -/
theorem Line.orElse_congr {own own' other other' : Line} (same : own = own')
    (same' : other = other') : (own <|> other) = (own' <|> other') := by
  rw [same, same']

/-- The parameters of a function, as the code inside and the code around it write the names: what
is no parameter means the same inside and around. -/
structure Naming.Binds {Region : Type} (names : Naming Region) (around inside : Region)
    (parameters parameters' : List String) : Prop where
  renamed : parameters' = parameters.map (names.rename inside)
  known : ∀ name ∈ parameters, names.known inside name
  free : ∀ name, names.known inside name → name ≠ "this" → name ∉ parameters →
    names.known around name ∧ names.rename around name = names.rename inside name

/-- A function and its counterpart, in code of a region. -/
structure Pairing.Lambdas {Region : Type} (pairing : Pairing Region) (around : Region)
    (lambda lambda' : Lambda) : Prop where
  line : pairing.line lambda.line lambda'.line
  name : lambda'.name = lambda.name
  inside : ∃ region, pairing.Binds around region lambda.parameters lambda'.parameters ∧
    pairing.code region (.block lambda.body) (.block lambda'.body)

/-! ## Matched objects -/

/-- A value and its counterpart: the same but for the objects that are meant. -/
inductive Value.Alike (same : Ref → Ref → Prop) : Value → Value → Prop
  | undefined : Alike same .undefined .undefined
  | int {value : Int} : Alike same (.int value) (.int value)
  | str {value : String} : Alike same (.str value) (.str value)
  | obj {ref ref' : Ref} (matched : same ref ref') : Alike same (.obj ref) (.obj ref')
  | flag {value : Bool} : Alike same (.flag value) (.flag value)
  | null : Alike same .null .null

theorem Value.Alike.mono {same same' : Ref → Ref → Prop} {value value' : Value}
    (alike : value.Alike same value') (le : ∀ ref ref', same ref ref' → same' ref ref') :
    value.Alike same' value' := by
  cases alike with
  | obj matched => exact .obj (le _ _ matched)
  | undefined => exact .undefined
  | int => exact .int
  | str => exact .str
  | flag => exact .flag
  | null => exact .null

/-- The counterparts of objects, with their regions. -/
abbrev Matching (Region : Type) := Ref → Option (Region × Ref)

namespace Matching

variable {Region : Type}

/-- Whatever is matched stays matched. -/
def Le (matching later : Matching Region) : Prop :=
  ∀ ⦃ref region ref'⦄, matching ref = some (region, ref') → later ref = some (region, ref')

theorem Le.refl (matching : Matching Region) : matching.Le matching :=
  fun _ _ _ => id

theorem Le.trans {first second third : Matching Region} (le : first.Le second)
    (le' : second.Le third) : first.Le third :=
  fun _ _ _ matched => le' (le matched)

/-- A matching with one more pair of objects. -/
def add (matching : Matching Region) (ref : Ref) (region : Region) (ref' : Ref) :
    Matching Region :=
  Function.update matching ref (some (region, ref'))

variable {matching : Matching Region} {ref ref' other other' : Ref} {region region' : Region}

theorem add_self : matching.add ref region ref' ref = some (region, ref') :=
  Function.update_self ..

theorem le_add (new : matching ref = none) (region : Region) (ref' : Ref) :
    matching.Le (matching.add ref region ref') := by
  intro other region' other' matched
  have differs : other ≠ ref := by
    rintro rfl
    cases new.symm.trans matched
  exact (Function.update_of_ne differs _ _).trans matched

theorem eq_or_of_add (matched : matching.add ref region ref' other = some (region', other')) :
    (other = ref ∧ region' = region ∧ other' = ref') ∨
      matching other = some (region', other') := by
  by_cases same : other = ref
  · subst same
    cases add_self.symm.trans matched
    exact .inl ⟨rfl, rfl, rfl⟩
  · exact .inr ((Function.update_of_ne same _ _).symm.trans matched)

/-- An object of the other side without a counterpart. -/
def Free (matching : Matching Region) (ref' : Ref) : Prop :=
  ∀ ref region, matching ref ≠ some (region, ref')

/-- The matching and the heap of the other side later on. Whatever is matched stays matched, and an
object without a counterpart gets none and stays as it is. -/
structure Onward (matching : Matching Region) (heap' : Heap) (later : Matching Region)
    (new' : Heap) : Prop where
  le : matching.Le later
  size_le : heap'.size ≤ new'.size
  free : ∀ {ref'}, ref' < heap'.size → matching.Free ref' →
    later.Free ref' ∧ new'.get? ref' = heap'.get? ref'

section Onward

variable {later last : Matching Region} {heap' middle' new' : Heap}

theorem Onward.refl (matching : Matching Region) (heap' : Heap) :
    matching.Onward heap' matching heap' :=
  ⟨.refl matching, Nat.le_refl _, fun _ free => ⟨free, rfl⟩⟩

theorem Onward.trans (first : matching.Onward heap' later middle')
    (second : later.Onward middle' last new') : matching.Onward heap' last new' := by
  refine ⟨first.le.trans second.le, Nat.le_trans first.size_le second.size_le,
    fun inside free => ?_⟩
  obtain ⟨between, same⟩ := first.free inside free
  obtain ⟨after, same'⟩ := second.free (Nat.lt_of_lt_of_le inside first.size_le) between
  exact ⟨after, same'.trans same⟩

/-- A step of the other side that binds no name in an object that is there. -/
theorem Onward.steps (matching : Matching Region) (steps : heap'.Steps none new') :
    matching.Onward heap' matching new' :=
  ⟨.refl matching, steps.grows.size_le, fun inside free => ⟨free, steps.kept _ inside nofun⟩⟩

/-- A name is bound in an object that has a counterpart. -/
theorem Onward.register (matched : matching ref = some (region, ref')) (heap' : Heap)
    (name : String) (value : Value) :
    matching.Onward heap' matching (heap'.register ref' name value) := by
  refine ⟨.refl matching, ?_, fun _ free => ⟨free, ?_⟩⟩
  · exact Nat.le_of_eq (Heap.size_register heap' ref' name value).symm
  · rw [Heap.get?_register, if_neg fun same => free _ _ (same ▸ matched)]

/-- Two new objects are matched. -/
theorem Onward.add (new : matching ref = none) (region : Region) (heap' : Heap) (object : Object) :
    matching.Onward heap' (matching.add ref region heap'.size) (heap'.add object) := by
  refine ⟨le_add new region heap'.size, ?_,
    fun inside free => ⟨fun other region' matched => ?_, ?_⟩⟩
  · rw [Heap.size_add]
    exact Nat.le_succ _
  · rcases eq_or_of_add matched with ⟨-, -, rfl⟩ | before
    · exact Nat.lt_irrefl _ inside
    · exact free other region' before
  · rw [Heap.get?_add, if_neg (Nat.ne_of_lt inside)]

/-- A name is bound in an object that was not there. -/
theorem Onward.register_new (onward : matching.Onward heap' later new')
    (outside : heap'.size ≤ ref') (name : String) (value : Value) :
    matching.Onward heap' later (new'.register ref' name value) := by
  refine ⟨onward.le, ?_, fun inside free => ?_⟩
  · rw [Heap.size_register]
    exact onward.size_le
  · obtain ⟨still, same⟩ := onward.free inside free
    rw [Heap.get?_register, if_neg (Nat.ne_of_gt (Nat.lt_of_lt_of_le inside outside))]
    exact ⟨still, same⟩

/-- An object that was not there gets a counterpart. -/
theorem Onward.match_new (onward : matching.Onward heap' later new') (new : later ref = none)
    (region : Region) (outside : heap'.size ≤ ref') :
    matching.Onward heap' (later.add ref region ref') new' := by
  refine ⟨onward.le.trans (le_add new region ref'), onward.size_le, fun inside free => ?_⟩
  obtain ⟨still, same⟩ := onward.free inside free
  refine ⟨fun other region' matched => ?_, same⟩
  rcases eq_or_of_add matched with ⟨-, -, rfl⟩ | before
  · exact Nat.not_lt.mpr outside inside
  · exact still other region' before

end Onward

end Matching

namespace Pairing

variable {Region : Type} (pairing : Pairing Region)

/-- Objects that are matched as values: names mean the same in both. -/
def Same (matching : Matching Region) (ref ref' : Ref) : Prop :=
  matching ref = some (pairing.outer, ref')

/-- Values that correspond. -/
abbrev Values (matching : Matching Region) : Value → Value → Prop :=
  Value.Alike (pairing.Same matching)

/-- Bindings of a region that correspond, in the same order. -/
abbrev Bindings (region : Region) (matching : Matching Region) :
    Fields Value → Fields Value → Prop :=
  List.Forall₂ fun binding binding' =>
    pairing.known region binding.1 ∧ binding'.1 = pairing.rename region binding.1 ∧
      pairing.Values matching binding.2 binding'.2

/-- The parents of matched objects. They are older, and a name that an object does not bind means
the same in its parent. -/
inductive Parents (matching : Matching Region) (region : Region) (bound : List String)
    (ref ref' : Ref) : Option Ref → Option Ref → Prop
  | none : Parents matching region bound ref ref' .none .none
  | some {parent parent' : Ref} {around : Region} (older : parent < ref) (older' : parent' < ref')
      (matched : matching parent = .some (around, parent'))
      (free : ∀ name, pairing.known region name → name ∉ bound →
        pairing.known around name ∧ pairing.rename around name = pairing.rename region name) :
    Parents matching region bound ref ref' (.some parent) (.some parent')

/-- What invoking matched objects does. -/
inductive Bodies (matching : Matching Region) : Option Body → Option Body → Prop
  | none : Bodies matching .none .none
  | builtin {builtin : Builtin} :
    Bodies matching (.some (.builtin builtin)) (.some (.builtin builtin))
  | closure {lambda lambda' : Lambda} {scope scope' : Ref} {around : Region}
      (matched : matching scope = .some (around, scope'))
      (lambdas : pairing.Lambdas around lambda lambda') :
    Bodies matching (.some (.closure lambda scope)) (.some (.closure lambda' scope'))

/-- Matched objects. -/
structure Objects (matching : Matching Region) (region : Region) (ref ref' : Ref)
    (object object' : Object) : Prop where
  name : object'.name = object.name
  parents : pairing.Parents matching region object.fields.keys ref ref' object.parent object'.parent
  bodies : pairing.Bodies matching object.body object'.body
  fields : pairing.Bindings region matching object.fields object'.fields

/-- Two heaps that correspond: no two objects are matched with one, and the root scopes are
matched. -/
structure Heaps (matching : Matching Region) (heap heap' : Heap) : Prop where
  root : pairing.Same matching Heap.root Heap.root
  unique : ∀ {ref other region region' ref'}, matching ref = some (region, ref') →
    matching other = some (region', ref') → ref = other
  objects : ∀ {ref region ref'}, matching ref = some (region, ref') →
    ∃ object object', heap.get? ref = some object ∧ heap'.get? ref' = some object' ∧
      pairing.Objects matching region ref ref' object object'

variable {pairing}

/-! ## Later matchings -/

section Later

variable {matching later : Matching Region} {region : Region}

theorem Values.le {value value' : Value} (values : pairing.Values matching value value')
    (le : matching.Le later) : pairing.Values later value value' :=
  values.mono fun _ _ matched => le matched

theorem Bindings.le {fields fields' : Fields Value}
    (bindings : pairing.Bindings region matching fields fields') (le : matching.Le later) :
    pairing.Bindings region later fields fields' :=
  bindings.imp fun _ _ ⟨known, renamed, values⟩ => ⟨known, renamed, values.le le⟩

theorem Objects.le {ref ref' : Ref} {object object' : Object}
    (objects : pairing.Objects matching region ref ref' object object') (le : matching.Le later) :
    pairing.Objects later region ref ref' object object' := by
  obtain ⟨name, parents, bodies, fields⟩ := objects
  refine ⟨name, ?_, ?_, Bindings.le fields le⟩
  · generalize object.parent = parent at parents
    generalize object'.parent = parent' at parents
    cases parents with
    | none => exact .none
    | some older older' matched free => exact .some older older' (le matched) free
  · generalize object.body = body at bodies
    generalize object'.body = body' at bodies
    cases bodies with
    | none => exact .none
    | builtin => exact .builtin
    | closure matched lambdas => exact .closure (le matched) lambdas

end Later

/-! ## Bindings -/

section Bindings

variable {matching : Matching Region} {region : Region} {fields fields' : Fields Value}

/-- A name is read on both sides, under its own spelling, or on none. -/
theorem Bindings.get? (bindings : pairing.Bindings region matching fields fields') {name : String}
    (known : pairing.known region name) :
    Option.Rel (pairing.Values matching) (fields.get? name)
      (Fields.get? fields' (pairing.rename region name)) := by
  induction bindings with
  | nil => exact .none
  | @cons binding binding' rest rest' pair _ ih =>
      obtain ⟨knownFirst, renamed, values⟩ := pair
      rw [Fields.get?_cons, Fields.get?_cons]
      by_cases same : binding.1 = name
      · have same' : binding'.1 = pairing.rename region name := renamed.trans (congrArg _ same)
        rw [if_pos same, if_pos same']
        exact .some values
      · have differs : ¬ binding'.1 = pairing.rename region name := fun same' =>
          same (pairing.injective knownFirst known (renamed.symm.trans same'))
        rw [if_neg same, if_neg differs]
        exact ih

theorem Bindings.put (bindings : pairing.Bindings region matching fields fields') {name : String}
    (known : pairing.known region name) {value value' : Value}
    (values : pairing.Values matching value value') :
    pairing.Bindings region matching (fields.put name value)
      (Fields.put fields' (pairing.rename region name) value') := by
  induction bindings with
  | nil => exact .cons ⟨known, rfl, values⟩ .nil
  | @cons binding binding' rest rest' pair others ih =>
      obtain ⟨knownFirst, renamed, first⟩ := pair
      rw [Fields.put, Fields.put]
      by_cases same : binding.1 = name
      · have same' : binding'.1 = pairing.rename region name := renamed.trans (congrArg _ same)
        rw [if_pos same, if_pos same']
        exact .cons ⟨knownFirst, renamed, values⟩ others
      · have differs : ¬ binding'.1 = pairing.rename region name := fun same' =>
          same (pairing.injective knownFirst known (renamed.symm.trans same'))
        rw [if_neg same, if_neg differs]
        exact .cons ⟨knownFirst, renamed, first⟩ ih

theorem Bindings.putAll {pairs pairs' : Fields Value}
    (bindings : pairing.Bindings region matching fields fields')
    (more : pairing.Bindings region matching pairs pairs') :
    pairing.Bindings region matching (fields.putAll pairs) (Fields.putAll fields' pairs') := by
  induction more generalizing fields fields' with
  | nil => exact bindings
  | @cons pair pair' rest rest' first _ ih =>
      obtain ⟨known, renamed, values⟩ := first
      have step := Bindings.put bindings known values
      rw [← renamed] at step
      exact ih step

theorem Bindings.ofList {pairs pairs' : Fields Value}
    (bindings : pairing.Bindings region matching pairs pairs') :
    pairing.Bindings region matching (Fields.ofList pairs) (Fields.ofList pairs') :=
  Bindings.putAll .nil bindings

end Bindings

/-! ## Reading -/

section Reading

variable {matching : Matching Region} {heap heap' : Heap} {region : Region} {ref ref' : Ref}

theorem Heaps.lt_size (heaps : pairing.Heaps matching heap heap')
    (matched : matching ref = some (region, ref')) : ref < heap.size ∧ ref' < heap'.size := by
  obtain ⟨object, object', found, found', -⟩ := heaps.objects matched
  exact ⟨Heap.lt_size_of_get? found, Heap.lt_size_of_get? found'⟩

/-- Along the chains of matched scopes a name is found on both sides or on none, if both searches
may go on to the end. -/
theorem Heaps.find (heaps : pairing.Heaps matching heap heap')
    (matched : matching ref = some (region, ref')) {name : String}
    (known : pairing.known region name) {count count' : Nat} (enough : ref < count)
    (enough' : ref' < count') :
    Option.Rel (pairing.Values matching)
      ((heap.chainUpTo count ref).findSome? fun link => (heap.fields link).get? name)
      ((heap'.chainUpTo count' ref').findSome? fun link =>
        (heap'.fields link).get? (pairing.rename region name)) := by
  induction ref using Nat.strongRecOn generalizing ref' region count count' with
  | _ ref ih =>
      obtain ⟨object, object', found, found', -, parents, -, fields⟩ := heaps.objects matched
      obtain ⟨count, rfl⟩ := Nat.exists_eq_succ_of_ne_zero (Nat.ne_of_gt (Nat.zero_lt_of_lt enough))
      obtain ⟨count', rfl⟩ :=
        Nat.exists_eq_succ_of_ne_zero (Nat.ne_of_gt (Nat.zero_lt_of_lt enough'))
      have own := Bindings.get? fields known
      simp only [Heap.chainUpTo, found, found', List.findSome?_cons, Heap.fields_of_get? found,
        Heap.fields_of_get? found']
      cases bound : object.fields.get? name with
      | some value =>
          rw [bound] at own
          generalize Fields.get? object'.fields (pairing.rename region name) = bound' at own
          cases own with
          | some values => exact .some values
      | none =>
          -- what the object does not bind means the same in its parent
          have notBound : name ∉ object.fields.keys := fun listed => by
            rw [← Fields.get?_isSome_iff, bound] at listed
            cases listed
          rw [bound] at own
          generalize Fields.get? object'.fields (pairing.rename region name) = bound' at own
          cases own
          generalize object.parent = parent at parents
          generalize object'.parent = parent' at parents
          cases parents with
          | none => exact .none
          | some older older' around free =>
              obtain ⟨knownAround, renamed⟩ := free name known notBound
              have further := ih _ older around knownAround
                (Nat.lt_of_lt_of_le older (Nat.le_of_lt_succ enough))
                (Nat.lt_of_lt_of_le older' (Nat.le_of_lt_succ enough'))
              rw [renamed] at further
              exact further

/-- Names are looked up to corresponding values. -/
theorem Heaps.lookup (heaps : pairing.Heaps matching heap heap')
    (matched : matching ref = some (region, ref')) {name : String}
    (known : pairing.known region name) :
    pairing.Values matching (heap.lookup ref name)
      (heap'.lookup ref' (pairing.rename region name)) := by
  obtain ⟨inside, inside'⟩ := heaps.lt_size matched
  have found := heaps.find matched known inside inside'
  unfold Heap.lookup Heap.find? Heap.chain
  generalize (heap.chainUpTo heap.size ref).findSome? _ = value at found
  generalize (heap'.chainUpTo heap'.size ref').findSome? _ = value' at found
  cases found with
  | none => exact .undefined
  | some values => exact values

theorem Bodies.isSome {body body' : Option Body} (bodies : pairing.Bodies matching body body') :
    body'.isSome = body.isSome := by
  cases bodies <;> rfl

theorem Heaps.isFunction (heaps : pairing.Heaps matching heap heap')
    (matched : matching ref = some (region, ref')) :
    heap'.isFunction ref' = heap.isFunction ref := by
  obtain ⟨object, object', found, found', -, -, bodies, -⟩ := heaps.objects matched
  rw [Heap.isFunction, Heap.isFunction, found, found']
  exact bodies.isSome

theorem Heaps.kind (heaps : pairing.Heaps matching heap heap') {value value' : Value}
    (values : pairing.Values matching value value') : value'.kind heap' = value.kind heap := by
  cases values with
  | obj matched => rw [Value.kind, Value.kind, heaps.isFunction matched]
  | _ => rfl

/-- Values are the same exactly when their counterparts are. -/
theorem Heaps.eq_iff (heaps : pairing.Heaps matching heap heap') {left left' right right' : Value}
    (lefts : pairing.Values matching left left') (rights : pairing.Values matching right right') :
    left' = right' ↔ left = right := by
  cases lefts with
  | obj matched =>
      cases rights with
      | obj other =>
          constructor
          · intro same
            cases same
            rw [heaps.unique matched other]
          · intro same
            cases same
            cases matched.symm.trans other
            rfl
      | _ => exact ⟨nofun, nofun⟩
  | _ => cases rights <;> simp

end Reading

/-! ## Texts -/

section Texts

variable {matching : Matching Region} {heap heap' : Heap} {value value' : Value}

theorem Objects.nestedText {region : Region} {ref ref' : Ref} {object object' : Object}
    (objects : pairing.Objects matching region ref ref' object object') :
    object'.nestedText = object.nestedText := by
  have same : object'.isFunction = object.isFunction := objects.bodies.isSome
  rw [Object.nestedText, Object.nestedText, same, Object.functionText, Object.functionText,
    objects.name]

theorem Heaps.nested? (heaps : pairing.Heaps matching heap heap')
    (values : pairing.Values matching value value') :
    value'.nested? heap' = value.nested? heap := by
  cases values with
  | obj matched =>
      obtain ⟨object, object', found, found', objects⟩ := heaps.objects matched
      simp only [Value.nested?, Value.textWith?, found, found', Option.map_some, objects.nestedText]
  | @flag value => cases value <;> rfl
  | _ => rfl

theorem Heaps.bindings? (heaps : pairing.Heaps matching heap heap') {fields fields' : Fields Value}
    (bindings : pairing.Bindings pairing.outer matching fields fields') :
    Value.bindings? heap' fields' = Value.bindings? heap fields := by
  unfold Value.bindings?
  induction bindings with
  | nil => rfl
  | cons pair _ ih =>
      obtain ⟨-, renamed, values⟩ := pair
      rw [pairing.rename_outer] at renamed
      rw [List.mapM_cons, List.mapM_cons, ih, heaps.nested? values, renamed]

theorem Heaps.display? (heaps : pairing.Heaps matching heap heap')
    (values : pairing.Values matching value value') :
    value'.display? heap' = value.display? heap := by
  cases values with
  | obj matched =>
      obtain ⟨object, object', found, found', objects⟩ := heaps.objects matched
      have same : object'.isFunction = object.isFunction := objects.bodies.isSome
      simp only [Value.display?, Value.textWith?, found, found', Option.bind_some, Value.object?,
        same, Object.functionText, objects.name, heaps.bindings? objects.fields]
  | @flag value => cases value <;> rfl
  | _ => rfl

theorem Heaps.quoted? (heaps : pairing.Heaps matching heap heap')
    (values : pairing.Values matching value value') :
    value'.quoted? heap' = value.quoted? heap := by
  have shown := heaps.display? values
  cases values with
  | str => rfl
  | _ => exact shown

/-- Texts of values one by one are the same if each is. -/
theorem Values.mapM_eq {texts texts' : Value → Option String}
    (same : ∀ {value value'}, pairing.Values matching value value' → texts' value' = texts value)
    {values values' : List Value} (all : List.Forall₂ (pairing.Values matching) values values') :
    values'.mapM texts' = values.mapM texts := by
  induction all with
  | nil => rfl
  | cons first _ ih => rw [List.mapM_cons, List.mapM_cons, ih, same first]

theorem Heaps.quotedList? (heaps : pairing.Heaps matching heap heap') {values values' : List Value}
    (all : List.Forall₂ (pairing.Values matching) values values') :
    Value.quotedList? heap' values' = Value.quotedList? heap values := by
  rw [Value.quotedList?, Value.quotedList?, Values.mapM_eq heaps.quoted? all]

end Texts

/-! ## What keeps heaps in correspondence -/

section Writing

variable {matching : Matching Region} {heap heap' : Heap} {region : Region} {ref ref' : Ref}

/-- Binding a name in matched objects, under the spelling of each side. -/
theorem Heaps.register (heaps : pairing.Heaps matching heap heap')
    (matched : matching ref = some (region, ref')) {name : String}
    (known : pairing.known region name) {value value' : Value}
    (values : pairing.Values matching value value') :
    pairing.Heaps matching (heap.register ref name value)
      (heap'.register ref' (pairing.rename region name) value') := by
  refine ⟨heaps.root, heaps.unique, fun {other region' other'} matched' => ?_⟩
  obtain ⟨object, object', found, found', objects⟩ := heaps.objects matched'
  by_cases same : ref = other
  · subst same
    cases matched.symm.trans matched'
    have written : (heap.register ref name value).get? ref =
        some { object with fields := object.fields.put name value } := by
      rw [Heap.get?_register, if_pos rfl, found]
      rfl
    have written' : (heap'.register ref' (pairing.rename region name) value').get? ref' =
        some { object' with
          fields := Fields.put object'.fields (pairing.rename region name) value' } := by
      rw [Heap.get?_register, if_pos rfl, found']
      rfl
    refine ⟨_, _, written, written', objects.name, ?_, objects.bodies,
      Bindings.put objects.fields known values⟩
    -- the object binds the names of before, if not one more
    have parents := objects.parents
    dsimp only
    generalize object.parent = parent at parents
    generalize object'.parent = parent' at parents
    cases parents with
    | none => exact .none
    | some older older' around free =>
        refine .some older older' around fun other known notBound => free other known ?_
        exact fun listed => notBound ((Fields.keys_prefix_keys_put _ _ _).subset listed)
  · have same' : ref' ≠ other' := fun same' => same (heaps.unique matched (same' ▸ matched'))
    refine ⟨object, object', ?_, ?_, objects⟩
    · rw [Heap.get?_register, if_neg same, found]
    · rw [Heap.get?_register, if_neg same', found']

/-- What the other side does to objects without a counterpart does not matter. -/
theorem Heaps.steps (heaps : pairing.Heaps matching heap heap') {later : Heap}
    (steps : heap'.Steps none later) : pairing.Heaps matching heap later := by
  refine ⟨heaps.root, heaps.unique, fun matched => ?_⟩
  obtain ⟨object, object', found, found', objects⟩ := heaps.objects matched
  have kept := steps.kept _ (Heap.lt_size_of_get? found') nofun
  exact ⟨object, object', found, kept.trans found', objects⟩

/-- Nor do names that the other side binds in them. -/
theorem Heaps.register_free (heaps : pairing.Heaps matching heap heap') (free : matching.Free ref')
    (name : String) (value : Value) :
    pairing.Heaps matching heap (heap'.register ref' name value) := by
  refine ⟨heaps.root, heaps.unique, fun matched => ?_⟩
  obtain ⟨object, object', found, found', objects⟩ := heaps.objects matched
  refine ⟨object, object', found, ?_, objects⟩
  rw [Heap.get?_register, if_neg fun same => free _ _ (same ▸ matched)]
  exact found'

theorem Heaps.size_unmatched (heaps : pairing.Heaps matching heap heap') :
    matching heap.size = none := by
  cases matched : matching heap.size with
  | none => rfl
  | some pair => exact absurd (heaps.lt_size matched).1 (Nat.lt_irrefl _)

theorem Heaps.le_add (heaps : pairing.Heaps matching heap heap') (region : Region) :
    matching.Le (matching.add heap.size region heap'.size) :=
  Matching.le_add heaps.size_unmatched region heap'.size

/-- An object that is added is matched with one of the other side that has no counterpart. -/
theorem Heaps.match_free (heaps : pairing.Heaps matching heap heap') (free : matching.Free ref')
    {object object' : Object} (found' : heap'.get? ref' = some object')
    (objects : pairing.Objects (matching.add heap.size region ref') region heap.size ref' object
      object') :
    pairing.Heaps (matching.add heap.size region ref') (heap.add object) heap' := by
  have le := Matching.le_add heaps.size_unmatched region ref'
  refine ⟨le heaps.root, fun matched other => ?_, fun {ref region' other'} matched => ?_⟩
  · rcases Matching.eq_or_of_add matched with ⟨rfl, -, rfl⟩ | before
    · rcases Matching.eq_or_of_add other with ⟨rfl, -, -⟩ | before'
      · rfl
      · exact absurd before' (free _ _)
    · rcases Matching.eq_or_of_add other with ⟨rfl, -, rfl⟩ | before'
      · exact absurd before (free _ _)
      · exact heaps.unique before before'
  · rcases Matching.eq_or_of_add matched with ⟨rfl, rfl, rfl⟩ | before
    · refine ⟨object, object', ?_, found', objects⟩
      rw [Heap.get?_add, if_pos rfl]
    · obtain ⟨there, there', found, found', objects⟩ := heaps.objects before
      refine ⟨there, there', ?_, found', objects.le le⟩
      rw [Heap.get?_add, if_neg (Nat.ne_of_lt (heaps.lt_size before).1), found]

/-- Objects that are added on both sides are matched. -/
theorem Heaps.add (heaps : pairing.Heaps matching heap heap') {object object' : Object}
    (objects : pairing.Objects (matching.add heap.size region heap'.size) region heap.size
      heap'.size object object') :
    pairing.Heaps (matching.add heap.size region heap'.size) (heap.add object)
      (heap'.add object') := by
  have free : matching.Free heap'.size := fun ref region matched =>
    Nat.lt_irrefl _ (heaps.lt_size matched).2
  refine (heaps.steps (.add none heap' object')).match_free free ?_ objects
  rw [Heap.get?_add, if_pos rfl]

end Writing

end Pairing

end ScriptTree
