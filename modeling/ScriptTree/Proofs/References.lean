import ScriptTree.Proofs.HeapGrowth
import ScriptTree.Proofs.Machine.Adequacy

/-!
# What objects refer to

An object refers to others from its fields, to the scope around it and to the scope that it keeps
(`Object.RefersTo`). An evaluation comes to references in no other way than by these, by its scope
and by what it adds itself. So a heap in which nothing refers to what is not there stays one, and an
object to which nothing refers stays so, and stays as it is (`Heap.Sound`).

An action is safe if it keeps this, whether it ends with a result or with a fault (`Action.Safe`).
The rules of evaluation are safe if the evaluations inside are (`safe_rules`).
-/

namespace ScriptTree

open ScriptTree.Action ScriptTree.Eval

/-! ## References -/

/-- An object refers to another one: from a field, as its parent, or as the scope that it keeps. -/
def Object.RefersTo (object : Object) (target : Ref) : Prop :=
  (∃ binding ∈ object.fields, binding.2 = .obj target) ∨ object.parent = some target ∨
    object.captured? = some target

/-- A record has no references but its fields. -/
theorem Object.refersTo_record {fields : Fields Value} {target : Ref} :
    (Object.record fields).RefersTo target ↔ ∃ binding ∈ fields, binding.2 = .obj target := by
  constructor
  · rintro (bound | above | kept)
    · exact bound
    · cases above
    · cases kept
  · exact .inl

/-- An object that an evaluation may come to: it is there, and it is not hidden. One object may
be. -/
def Shown (hidden : Option Ref) (size : Nat) (ref : Ref) : Prop :=
  ref < size ∧ hidden ≠ some ref

/-- A value that refers to no object, or to one that is shown. -/
def Value.Shown (hidden : Option Ref) (size : Nat) (value : Value) : Prop :=
  ∀ ref, value = .obj ref → ScriptTree.Shown hidden size ref

namespace Heap

/-- The objects refer to nothing that is not there, and not to the hidden one. No function calls
out to the embedding program. -/
structure Sound (hidden : Option Ref) (heap : Heap) : Prop where
  there : ∀ {ref}, hidden = some ref → ref < heap.size
  shown : ∀ {ref object target}, heap.get? ref = some object → object.RefersTo target →
    Shown hidden heap.size target
  inside : ∀ {ref object}, heap.get? ref = some object →
    ∀ call, object.body ≠ some (.external call)

/-- No object is taken away, and the hidden one is as it was. -/
structure Keeps (hidden : Option Ref) (old new : Heap) : Prop where
  size_le : old.size ≤ new.size
  same : ∀ {ref}, hidden = some ref → new.get? ref = old.get? ref

end Heap

section Shown

variable {hidden : Option Ref} {size later : Nat} {value : Value} {ref : Ref}

theorem Shown.mono (shown : Shown hidden size ref) (le : size ≤ later) : Shown hidden later ref :=
  ⟨Nat.lt_of_lt_of_le shown.1 le, shown.2⟩

theorem Value.Shown.mono (shown : value.Shown hidden size) (le : size ≤ later) :
    value.Shown hidden later :=
  fun ref refers => (shown ref refers).mono le

theorem Value.shown_obj : (Value.obj ref).Shown hidden size ↔ ScriptTree.Shown hidden size ref := by
  constructor
  · exact fun shown => shown ref rfl
  · rintro shown _ ⟨⟩
    exact shown

theorem Value.shown_undefined : Value.undefined.Shown hidden size := nofun

theorem Value.shown_int (n : Int) : (Value.int n).Shown hidden size := nofun

theorem Literal.shown_toValue (literal : Literal) : literal.toValue.Shown hidden size := by
  cases literal <;> exact nofun

end Shown

/-! ## Sound heaps -/

namespace Heap

variable {hidden : Option Ref} {heap middle later : Heap} {object : Object} {ref : Ref}

theorem Keeps.refl (hidden : Option Ref) (heap : Heap) : heap.Keeps hidden heap :=
  ⟨Nat.le_refl _, fun _ => rfl⟩

theorem Keeps.trans (first : heap.Keeps hidden middle) (second : middle.Keeps hidden later) :
    heap.Keeps hidden later :=
  ⟨Nat.le_trans first.size_le second.size_le,
    fun same => (second.same same).trans (first.same same)⟩

/-- What a lookup finds is shown. -/
theorem Sound.lookup (sound : heap.Sound hidden) (ref : Ref) (key : String) :
    (heap.lookup ref key).Shown hidden heap.size := by
  rcases heap.lookup_eq_undefined_or_mem ref key with unbound | ⟨link, object, found, bound⟩
  · rw [unbound]
    exact Value.shown_undefined
  · exact fun target refers => sound.shown found (.inl ⟨_, bound, refers⟩)

/-- A heap with one more object, which refers to what is shown. -/
theorem Sound.add (sound : heap.Sound hidden)
    (shown : ∀ target, object.RefersTo target → Shown hidden heap.size target)
    (inside : ∀ call, object.body ≠ some (.external call)) : (heap.add object).Sound hidden := by
  have more : heap.size ≤ (heap.add object).size := by rw [size_add]; omega
  refine ⟨fun same => Nat.lt_of_lt_of_le (sound.there same) more, fun found refers => ?_,
    fun found => ?_⟩
  · rw [get?_add] at found
    split at found
    · cases found
      exact (shown _ refers).mono more
    · exact (sound.shown found refers).mono more
  · rw [get?_add] at found
    split at found
    · cases found
      exact inside
    · exact sound.inside found

/-- A value that is shown is bound, in whichever object. -/
theorem Sound.register (sound : heap.Sound hidden) (ref : Ref) (key : String) {value : Value}
    (shown : value.Shown hidden heap.size) : (heap.register ref key value).Sound hidden := by
  refine ⟨fun same => by rw [size_register]; exact sound.there same,
    fun {other there target} found refers => ?_, fun {other there} found => ?_⟩
  · rw [size_register]
    rw [get?_register] at found
    split at found
    · obtain ⟨before, old, rfl⟩ := Option.map_eq_some_iff.mp found
      rcases refers with ⟨binding, bound, refers⟩ | above | kept
      · have all : ∀ binding ∈ before.fields.put key value,
            binding.2.Shown hidden heap.size := by
          refine Fields.forall_put (fun binding bound target refers => ?_) shown
          exact sound.shown old (.inl ⟨binding, bound, refers⟩)
        exact all binding bound target refers
      · exact sound.shown old (.inr (.inl above))
      · exact sound.shown old (.inr (.inr kept))
    · exact sound.shown found refers
  · rw [get?_register] at found
    split at found
    · obtain ⟨before, old, rfl⟩ := Option.map_eq_some_iff.mp found
      have inside := sound.inside old
      exact inside
    · exact sound.inside found

/-- A new object is shown, once it is there. -/
theorem Sound.shown_added (sound : heap.Sound hidden) (object : Object) :
    Shown hidden (heap.add object).size heap.size := by
  refine ⟨by rw [size_add]; exact Nat.lt_succ_self _, fun same => ?_⟩
  exact Nat.lt_irrefl _ (sound.there same)

theorem Sound.keeps_add (sound : heap.Sound hidden) (object : Object) :
    heap.Keeps hidden (heap.add object) := by
  refine ⟨by rw [size_add]; omega, fun same => ?_⟩
  rw [get?_add, if_neg (Nat.ne_of_lt (sound.there same))]

theorem keeps_register (heap : Heap) (key : String) (value : Value)
    (other : hidden ≠ some ref) : heap.Keeps hidden (heap.register ref key value) := by
  refine ⟨Nat.le_of_eq (size_register heap ref key value).symm, fun same => ?_⟩
  rw [get?_register, if_neg fun here => other (same.trans (congrArg some here.symm))]

/-- Nothing refers to an object that is added last, so it may be hidden. -/
theorem Sound.hide (sound : heap.Sound none)
    (shown : ∀ target, object.RefersTo target → target < heap.size)
    (inside : ∀ call, object.body ≠ some (.external call)) :
    (heap.add object).Sound (some heap.size) := by
  have more : heap.size < (heap.add object).size := by rw [size_add]; omega
  have before {target : Ref} (lt : target < heap.size) :
      Shown (some heap.size) (heap.add object).size target :=
    ⟨Nat.lt_trans lt more, fun same => Nat.ne_of_gt lt (Option.some.inj same)⟩
  refine ⟨?_, fun found refers => ?_, fun found => ?_⟩
  · rintro _ ⟨⟩
    exact more
  · rw [get?_add] at found
    split at found
    · cases found
      exact before (shown _ refers)
    · exact before (sound.shown found refers).1
  · rw [get?_add] at found
    split at found
    · cases found
      exact inside
    · exact sound.inside found

/-- Nothing refers to the hidden object. -/
theorem Sound.not_refersTo (sound : heap.Sound (some ref)) {other : Ref}
    (found : heap.get? other = some object) : ¬ object.RefersTo ref :=
  fun refers => (sound.shown found refers).2 rfl

end Heap

/-! ## Safe actions -/

/-- However the action ends, from sound objects it comes to sound objects and keeps what is
hidden. Results may depend on how many objects there are at the end. -/
def Action.Safe {α : Type} (hidden : Option Ref) (size : Nat) (results : Nat → α → Prop)
    (action : Action α) : Prop :=
  ∀ state, state.heap.size = size → state.heap.Sound hidden →
    action.Ends state
      (fun result after => (state.heap.Keeps hidden after.heap ∧ after.heap.Sound hidden) ∧
        results after.heap.size result)
      fun _ after => state.heap.Keeps hidden after.heap ∧ after.heap.Sound hidden

section Outcomes

variable {hidden : Option Ref} {α : Type} {results : Nat → α → Prop} {action : Action α}
  {state after : State}

theorem Action.Safe.of_ok {result : α} (safe : action.Safe hidden state.heap.size results)
    (sound : state.heap.Sound hidden) (ran : action state = .ok result after) :
    state.heap.Keeps hidden after.heap ∧ after.heap.Sound hidden ∧
      results after.heap.size result := by
  have ends := safe state rfl sound
  rw [Ends, ran] at ends
  exact ⟨ends.1.1, ends.1.2, ends.2⟩

theorem Action.Safe.of_error {fault : Fault} (safe : action.Safe hidden state.heap.size results)
    (sound : state.heap.Sound hidden) (ran : action state = .error fault after) :
    state.heap.Keeps hidden after.heap ∧ after.heap.Sound hidden := by
  have ends := safe state rfl sound
  rw [Ends, ran] at ends
  exact ends

end Outcomes

/-- Results that nothing is said about. -/
abbrev Action.Anything {α : Type} : Nat → α → Prop :=
  fun _ _ => True

section Safe

variable {hidden : Option Ref} {size : Nat} {α β : Type} {results : Nat → α → Prop}
  {first : Nat → β → Prop}

theorem safe_pure {result : α} (given : results size result) :
    Safe hidden size results (pure result) := by
  rintro state rfl sound
  exact ⟨⟨.refl _ _, sound⟩, given⟩

theorem safe_throw (fault : Fault) : Safe hidden size results (throw fault) :=
  fun state _ sound => ⟨.refl hidden state.heap, sound⟩

theorem safe_fail (cause : Cause) (line : Line) : Safe hidden size results (fail cause line) :=
  safe_throw _

theorem safe_bind {action : Action β} {next : β → Action α} (safe : Safe hidden size first action)
    (further : ∀ later, size ≤ later → ∀ result, first later result →
      Safe hidden later results (next result)) :
    Safe hidden size results (action >>= next) := by
  rintro state rfl sound
  rw [ends_bind]
  refine (safe state rfl sound).mono (fun result between ⟨⟨keeps, sound⟩, given⟩ => ?_)
    fun _ _ => id
  have ends := further _ keeps.size_le result given between rfl sound
  exact ends.mono (fun _ _ ⟨⟨more, sound⟩, given⟩ => ⟨⟨keeps.trans more, sound⟩, given⟩)
    fun _ _ ⟨more, sound⟩ => ⟨keeps.trans more, sound⟩

theorem safe_ite (condition : Prop) [Decidable condition] {yes no : Action α}
    (safeYes : condition → Safe hidden size results yes)
    (safeNo : ¬ condition → Safe hidden size results no) :
    Safe hidden size results (if condition then yes else no) := by
  by_cases holds : condition
  · rw [if_pos holds]
    exact safeYes holds
  · rw [if_neg holds]
    exact safeNo holds

/-- An action that leaves the objects alone, with what holds of its result. -/
theorem safe_of_ends {action : Action α} {P : α → Prop}
    (ends : ∀ state, action.Ends state (fun result after => P result ∧ after.heap = state.heap)
      fun _ after => after.heap = state.heap)
    (given : ∀ result, P result → results size result) : Safe hidden size results action := by
  rintro state rfl sound
  refine (ends state).mono (fun result after ⟨holds, same⟩ => ?_) fun _ _ same => ?_
  · rw [same]
    exact ⟨⟨.refl _ _, sound⟩, given result holds⟩
  · rw [same]
    exact ⟨.refl _ _, sound⟩

theorem safe_quiet {action : Action α} (quiet : action.Quiet) :
    Safe hidden size Anything action :=
  safe_of_ends (P := fun _ => True)
    (fun state => (quiet state).mono (fun _ _ same => ⟨trivial, same⟩) fun _ _ => id)
    fun _ => id

theorem safe_view {look : State → α}
    (given : ∀ state, state.heap.size = size → state.heap.Sound hidden →
      results size (look state)) : Safe hidden size results (view look) := by
  rintro state rfl sound
  exact ⟨⟨.refl _ _, sound⟩, given state rfl sound⟩

theorem safe_orAt (line : Line) {action : Action α} (safe : Safe hidden size results action) :
    Safe hidden size results (orAt line action) := by
  intro state same sound
  have ends := safe state same sound
  unfold Ends orAt at *
  revert ends
  cases action state with
  | ok result after => exact id
  | error fault after => cases fault <;> exact id

theorem safe_lookup (ref : Ref) (key : String) :
    Safe hidden size (fun later value => value.Shown hidden later) (lookup ref key) :=
  safe_view fun _ same sound => same ▸ sound.lookup ref key

theorem safe_add {object : Object}
    (shown : ∀ target, object.RefersTo target → Shown hidden size target)
    (inside : ∀ call, object.body ≠ some (.external call)) :
    Safe hidden size (Shown hidden) (add object) := by
  rintro state rfl sound
  exact ⟨⟨sound.keeps_add object, sound.add shown inside⟩, sound.shown_added object⟩

theorem safe_register {ref : Ref} (target : Shown hidden size ref) (key : String) {value : Value}
    (shown : value.Shown hidden size) :
    Safe hidden size Anything (register ref key value) := by
  rintro state rfl sound
  exact ⟨⟨Heap.keeps_register _ _ _ target.2, sound.register ref key shown⟩, trivial⟩

/-! ### Checks and functions of the language -/

theorem safe_integer (line : Line) (value : Value) :
    Safe hidden size Anything (integer line value) :=
  safe_of_ends (P := fun _ => True)
    (fun _ => (ends_integer line value).mono (fun _ _ ⟨_, same⟩ => ⟨trivial, same ▸ rfl⟩)
      fun _ _ same => same ▸ rfl)
    fun _ => id

theorem safe_object (line : Line) {value : Value} (shown : value.Shown hidden size) :
    Safe hidden size (Shown hidden) (object line value) :=
  safe_of_ends (P := fun ref => value = .obj ref)
    (fun _ => (ends_object line value).mono (fun _ _ ⟨given, same⟩ => ⟨given, same ▸ rfl⟩)
      fun _ _ same => same ▸ rfl)
    shown

theorem safe_function (line : Line) {value : Value} (shown : value.Shown hidden size) :
    Safe hidden size (Shown hidden) (function line value) :=
  safe_of_ends (P := fun ref => value = .obj ref)
    (fun _ => (ends_function line value).mono (fun _ _ ⟨given, _, same⟩ => ⟨given, same ▸ rfl⟩)
      fun _ _ same => same ▸ rfl)
    shown

theorem safe_notFunction (value : Value) (line : Line) :
    Safe hidden size results (notFunction value line) :=
  safe_of_ends (P := fun _ => False)
    (fun _ => (ends_notFunction value line).mono (fun _ _ given => given)
      fun _ _ same => same ▸ rfl)
    fun _ => False.elim

theorem safe_run (builtin : Builtin) (values : List Value) :
    Safe hidden size (fun later value => value.Shown hidden later) (builtin.run values) := by
  refine safe_of_ends (fun _ => Builtin.ends_run builtin values) fun result given => ?_
  rcases given with rfl | ⟨n, rfl⟩
  · exact Value.shown_undefined
  · exact Value.shown_int n

end Safe

/-! ## Safe evaluation -/

/-- A completion whose value, returning or not, is as it should be. -/
inductive Completion.Shown {α : Type} (hidden : Option Ref) (results : Nat → α → Prop)
    (size : Nat) : Completion α → Prop
  | value {result : α} (given : results size result) : Shown hidden results size (.value result)
  | returning {result : Value} (given : result.Shown hidden size) :
    Shown hidden results size (.returning result)

/-- An evaluator that is safe in all scopes that are shown. -/
def Evaluator.Safe (hidden : Option Ref) (self : Evaluator) : Prop :=
  ∀ ⦃size scope⦄, Shown hidden size scope → ∀ expr,
    Action.Safe hidden size (Completion.Shown hidden fun later value => value.Shown hidden later)
      (self expr scope)

section Evaluation

variable {hidden : Option Ref} {size : Nat} {scope : Ref} {self : Evaluator} {α β : Type}

/-- Evaluations are safe that are safe in a part and then go on with its value. -/
theorem safe_step {results : Nat → α → Prop} {first : Nat → β → Prop}
    {action : Action (Completion β)} {next : β → Action (Completion α)}
    (safe : Safe hidden size (Completion.Shown hidden first) action)
    (further : ∀ later, size ≤ later → ∀ result, first later result →
      Safe hidden later (Completion.Shown hidden results) (next result)) :
    Safe hidden size (Completion.Shown hidden results)
      (action >>= fun completion => completion.andThen next) := by
  refine safe_bind safe fun later le completion given => ?_
  cases given with
  | value given => exact further later le _ given
  | returning given => exact safe_pure (.returning given)

theorem safe_sequence (safe : self.Safe hidden) (shown : Shown hidden size scope)
    (exprs : List Expr) :
    Safe hidden size (Completion.Shown hidden fun later value => value.Shown hidden later)
      (sequence self scope exprs) := by
  induction exprs generalizing size with
  | nil => exact safe_pure (.value Value.shown_undefined)
  | cons expr rest ih =>
      rw [sequence_cons]
      exact safe_step (safe shown expr) fun later le _ _ => ih (shown.mono le)

theorem safe_arguments (safe : self.Safe hidden) (shown : Shown hidden size scope)
    (exprs : List Expr) :
    Safe hidden size
      (Completion.Shown hidden fun later values => ∀ value ∈ values, value.Shown hidden later)
      (arguments self scope exprs) := by
  induction exprs generalizing size with
  | nil => exact safe_pure (.value fun _ listed => absurd listed List.not_mem_nil)
  | cons expr rest ih =>
      rw [arguments]
      refine safe_step (safe shown expr) fun later le value given => ?_
      refine safe_step (ih (shown.mono le)) fun later le others all => ?_
      exact safe_pure (.value (List.forall_mem_cons.mpr ⟨given.mono le, all⟩))

theorem safe_fieldValues (safe : self.Safe hidden) (shown : Shown hidden size scope)
    (fields : List (String × Expr)) :
    Safe hidden size
      (Completion.Shown hidden fun later bindings =>
        ∀ binding ∈ bindings, binding.2.Shown hidden later)
      (fieldValues self scope fields) := by
  induction fields generalizing size with
  | nil => exact safe_pure (.value fun _ listed => absurd listed List.not_mem_nil)
  | cons field rest ih =>
      rw [fieldValues]
      refine safe_step (safe shown field.2) fun later le value given => ?_
      refine safe_step (ih (shown.mono le)) fun later le others all => ?_
      exact safe_pure (.value (List.forall_mem_cons.mpr ⟨given.mono le, all⟩))

/-- The scope of a call refers to the scope around it, to the receiver and to the arguments. -/
theorem safe_enter (safe : self.Safe hidden) (shown : Shown hidden size scope) (lambda : Lambda)
    {receiver : Value} {values : List Value} (receives : receiver.Shown hidden size)
    (all : ∀ value ∈ values, value.Shown hidden size) :
    Safe hidden size (fun later value => value.Shown hidden later)
      (enter self lambda scope receiver values) := by
  unfold enter
  refine safe_ite _ (fun _ => ?_) fun _ => safe_fail _ _
  have bound : ∀ binding ∈ callBindings lambda receiver values,
      binding.2.Shown hidden size := by
    refine Fields.forall_ofList (List.forall_mem_cons.mpr ⟨receives, fun pair listed => ?_⟩)
    exact all _ (List.of_mem_zip (a := pair.1) (b := pair.2) listed).2
  have adds : Safe hidden size (Shown hidden)
      (add (.scope (some scope) (callBindings lambda receiver values))) := by
    refine safe_add (fun target refers => ?_) fun _ => nofun
    rcases refers with ⟨binding, listed, refers⟩ | above | kept
    · exact bound binding listed target refers
    · cases above
      exact shown
    · cases kept
  refine safe_bind adds fun later le inner there => ?_
  refine safe_bind (safe there _) fun later le completion given => ?_
  cases given with
  | value => exact safe_pure Value.shown_undefined
  | returning given => exact safe_pure given

theorem safe_invoke (safe : self.Safe hidden) (ref : Ref) {receiver : Value} {values : List Value}
    (receives : receiver.Shown hidden size) (all : ∀ value ∈ values, value.Shown hidden size) :
    Safe hidden size (fun later value => value.Shown hidden later)
      (Eval.invoke self ref receiver values) := by
  have views : Safe hidden size
      (fun later (body : Option Body) => (∀ call, body ≠ some (.external call)) ∧
        ∀ lambda scope, body = some (.closure lambda scope) → Shown hidden later scope)
      (view fun state => (state.heap.get? ref).bind Object.body) := by
    refine safe_view fun state same sound => ?_
    cases found : state.heap.get? ref with
    | none => exact ⟨fun _ => nofun, fun _ _ => nofun⟩
    | some object =>
        refine ⟨sound.inside found, fun lambda scope closure => ?_⟩
        have kept : object.captured? = some scope := by
          rw [Object.captured?, show object.body = _ from closure]
        exact same ▸ sound.shown found (.inr (.inr kept))
  refine safe_bind views fun later le body ⟨inside, closures⟩ => ?_
  have all := fun value listed => (all value listed).mono le
  match body with
  | none => exact safe_notFunction _ _
  | some (.builtin builtin) => exact safe_run builtin values
  | some (.closure lambda scope) =>
      exact safe_enter safe (closures lambda scope rfl) lambda (receives.mono le) all
  | some (.external call) => exact absurd rfl (inside call)

theorem safe_call (safe : self.Safe hidden) (settings : Settings) (line : Line) (ref : Ref)
    {receiver : Value} {values : List Value} (receives : receiver.Shown hidden size)
    (all : ∀ value ∈ values, value.Shown hidden size) :
    Safe hidden size (fun later value => value.Shown hidden later)
      (call settings self line ref receiver values) := by
  have invokes := safe_orAt line (safe_invoke safe ref receives all)
  unfold call
  refine safe_ite _ (fun _ => ?_) fun _ => invokes
  refine safe_bind (safe_quiet (quiet_log _)) fun later le _ _ => ?_
  have all := fun value listed => (all value listed).mono le
  exact safe_orAt line (safe_invoke safe ref (receives.mono le) all)

/-- The rules of evaluation are safe if the evaluations inside are. -/
theorem safe_rules (safe : self.Safe hidden) (settings : Settings) :
    Evaluator.Safe hidden (rules settings self) := by
  intro size scope shown expr
  cases expr with
  | block body => exact safe_sequence safe shown body.instrs
  | literal line literal => exact safe_pure (.value (Literal.shown_toValue literal))
  | var line name =>
      exact safe_bind (safe_lookup scope name) fun _ _ _ given => safe_pure (.value given)
  | assignment line name value declares =>
      refine safe_step (safe shown value) fun later le result given => ?_
      refine safe_bind (safe_lookup scope name) fun later' le' _ _ => ?_
      refine safe_ite _ (fun _ => safe_fail _ _) fun _ => ?_
      have target := shown.mono (Nat.le_trans le le')
      refine safe_bind (safe_register target name (given.mono le')) fun _ _ _ _ => ?_
      exact safe_pure (.value Value.shown_undefined)
  | function line name parameters body =>
      have adds : Safe hidden size (Shown hidden)
          (add (.function (name.getD "lambda")
            (.closure ⟨line, name.getD "lambda", parameters, body⟩ scope))) := by
        refine safe_add (fun target refers => ?_) fun _ => nofun
        rcases refers with ⟨_, listed, _⟩ | above | kept
        · cases listed
        · cases above
        · cases kept
          exact shown
      refine safe_bind adds fun later le ref there => ?_
      have given := Value.shown_obj.mpr there
      cases name with
      | none => exact safe_pure (.value given)
      | some name =>
          refine safe_bind (safe_register (shown.mono le) name given) fun _ le _ _ => ?_
          exact safe_pure (.value (given.mono le))
  | returns line value =>
      exact safe_step (safe shown value) fun _ _ _ given => safe_pure (.returning given)
  | branch line condition onTrue onFalse =>
      refine safe_step (safe shown condition) fun later le value _ => ?_
      refine safe_bind (safe_integer line value) fun later' le' n _ => ?_
      exact safe_sequence safe (shown.mono (Nat.le_trans le le')) _
  | record line fields =>
      refine safe_step (safe_fieldValues safe shown fields) fun later le bindings all => ?_
      have adds : Safe hidden later (Shown hidden) (add (.record (.ofList bindings))) := by
        refine safe_add (fun target refers => ?_) fun _ => nofun
        obtain ⟨binding, listed, refers⟩ := Object.refersTo_record.mp refers
        exact Fields.forall_ofList all binding listed target refers
      exact safe_bind adds fun _ _ _ there => safe_pure (.value (Value.shown_obj.mpr there))
  | field line receiver name =>
      refine safe_step (safe shown receiver) fun later le value given => ?_
      refine safe_bind (safe_object line given) fun _ _ ref _ => ?_
      exact safe_bind (safe_lookup ref name) fun _ _ _ given => safe_pure (.value given)
  | fieldAssignment line receiver name value =>
      refine safe_step (safe shown receiver) fun later le target given => ?_
      refine safe_bind (safe_object line given) fun later' le' ref there => ?_
      have scopes := shown.mono (Nat.le_trans le le')
      refine safe_step (safe scopes value) fun later le result given => ?_
      refine safe_bind (safe_register (there.mono le) name given) fun _ _ _ _ => ?_
      exact safe_pure (.value Value.shown_undefined)
  | call line callee exprs =>
      refine safe_step (safe shown callee) fun later le value given => ?_
      refine safe_bind (safe_function line given) fun later' le' ref _ => ?_
      have scopes := shown.mono (Nat.le_trans le le')
      refine safe_step (safe_arguments safe scopes exprs) fun later le values all => ?_
      refine safe_bind (safe_call safe settings line ref Value.shown_undefined all) ?_
      exact fun _ _ _ given => safe_pure (.value given)
  | methodCall line receiver name exprs =>
      refine safe_step (safe shown receiver) fun later le value given => ?_
      refine safe_bind (safe_object line given) fun later' le' target there => ?_
      refine safe_bind (safe_lookup target name) fun later'' le'' found looked => ?_
      refine safe_bind (safe_function line looked) fun _ le''' ref _ => ?_
      have scopes := shown.mono (Nat.le_trans le (Nat.le_trans le' (Nat.le_trans le'' le''')))
      have receives := Value.shown_obj.mpr (there.mono (Nat.le_trans le'' le'''))
      refine safe_step (safe_arguments safe scopes exprs) fun later le values all => ?_
      refine safe_bind (safe_call safe settings line ref (receives.mono le) all) ?_
      exact fun _ _ _ given => safe_pure (.value given)
  | unknown line kind => exact safe_fail _ _

/-- Every evaluation is safe, with any depth left. -/
theorem safe_evaluator (hidden : Option Ref) (settings : Settings) (depth : Nat) :
    Evaluator.Safe hidden (evaluator settings depth) := by
  induction depth with
  | zero => exact fun _ _ _ _ => safe_throw _
  | succ depth ih => exact safe_rules ih settings

end Evaluation

end ScriptTree
