import ScriptTree.Proofs.InPlace
import ScriptTree.Proofs.VisibleVariables

/-!
# Records are built whole or not seen at all

The initializers of a record are code like any other: they may call functions, build and change
other objects, and any of them may fail or return. Either all of them give values in their turn
(`Eval.Turns`), or there is a first one that does not (`Eval.Stops`).

In the first case the record is there with all its fields, and nothing refers to it yet
(`Heap.Built`). In the second case the node ends as that initializer did. If records are built in
place, then a record with some of its fields stays behind, but nothing refers to it: no evaluation
comes to an object to which nothing refers (`Heap.Building`). `Script.records_whole` says this of
every record in every scope and in every state that a run can come to.
-/

namespace ScriptTree

open ScriptTree.Action ScriptTree.Eval

/-! ## The turns of the initializers -/

namespace Eval

section Turns

variable (self : Evaluator) (scope : Ref) (store : String → Value → Heap → Heap)

/-- Initializers that all give values, one after another. `store` is what is done with a value
before the next one has its turn. -/
inductive Turns : State → List (String × Expr) → List Value → State → Prop
  | nil {state : State} : Turns state [] [] state
  | cons {state between after : State} {field : String × Expr} {rest : List (String × Expr)}
      {value : Value} {values : List Value}
      (given : self field.2 scope state = .ok (.value value) between)
      (others : Turns { between with heap := store field.1 value between.heap } rest values after) :
    Turns state (field :: rest) (value :: values) after

/-- Initializers of which the first ones give values, and the next one fails or returns: the values
so far, and how it ends. -/
inductive Stops : State → List (String × Expr) → List Value →
    EStateM.Result Fault State (Completion Value) → Prop
  | fails {state after : State} {field : String × Expr} {rest : List (String × Expr)}
      {fault : Fault} (failed : self field.2 scope state = .error fault after) :
    Stops state (field :: rest) [] (.error fault after)
  | returns {state after : State} {field : String × Expr} {rest : List (String × Expr)}
      {result : Value} (returned : self field.2 scope state = .ok (.returning result) after) :
    Stops state (field :: rest) [] (.ok (.returning result) after)
  | later {state between : State} {field : String × Expr} {rest : List (String × Expr)}
      {value : Value} {values : List Value}
      {outcome : EStateM.Result Fault State (Completion Value)}
      (given : self field.2 scope state = .ok (.value value) between)
      (others : Stops { between with heap := store field.1 value between.heap } rest values
        outcome) :
    Stops state (field :: rest) (value :: values) outcome

end Turns

/-- Values are kept for later, and the objects are left alone. -/
def keep (_ : String) (_ : Value) (heap : Heap) : Heap :=
  heap

/-- Values are bound in an object at once. -/
def bindIn (ref : Ref) (name : String) (value : Value) (heap : Heap) : Heap :=
  heap.register ref name value

variable {self : Evaluator} {scope ref : Ref}

theorem Turns.length_eq {store : String → Value → Heap → Heap} {state after : State}
    {fields : List (String × Expr)} {values : List Value}
    (turns : Turns self scope store state fields values after) :
    values.length = (fields.map Prod.fst).length := by
  induction turns with
  | nil => rfl
  | cons _ _ ih => rw [List.length_cons, List.map_cons, List.length_cons, ih]

/-- The values of all fields are there and something goes on with them, or an initializer ends it
all. -/
theorem fieldValues_cases (fields : List (String × Expr)) (state : State)
    (next : List (String × Value) → Action (Completion Value)) :
    (∃ values after, Turns self scope keep state fields values after ∧
      (fieldValues self scope fields >>= fun completion => completion.andThen next) state =
        next ((fields.map Prod.fst).zip values) after) ∨
    ∃ values outcome, Stops self scope keep state fields values outcome ∧
      (fieldValues self scope fields >>= fun completion => completion.andThen next) state =
        outcome := by
  induction fields generalizing state next with
  | nil => exact .inl ⟨[], state, .nil, rfl⟩
  | cons field rest ih =>
      rw [fieldValues_cons_andThen, bind_apply]
      cases given : self field.2 scope state with
      | error fault after => exact .inr ⟨[], _, .fails given, rfl⟩
      | ok completion between =>
          cases completion with
          | returning result => exact .inr ⟨[], _, .returns given, rfl⟩
          | value value =>
              rcases ih between fun bindings => next ((field.1, value) :: bindings) with
                ⟨values, after, turns, same⟩ | ⟨values, outcome, stops, same⟩
              · exact .inl ⟨value :: values, after, .cons given turns, same⟩
              · exact .inr ⟨value :: values, outcome, .later given stops, same⟩

/-- All fields are bound, or an initializer ends it all. -/
theorem bindFields_cases (fields : List (String × Expr)) (state : State) :
    (∃ values after, Turns self scope (bindIn ref) state fields values after ∧
      bindFields self scope ref fields state = .ok (.value (.obj ref)) after) ∨
    ∃ values outcome, Stops self scope (bindIn ref) state fields values outcome ∧
      bindFields self scope ref fields state = outcome := by
  induction fields generalizing state with
  | nil => exact .inl ⟨[], state, .nil, rfl⟩
  | cons field rest ih =>
      rw [bindFields, bind_apply]
      cases given : self field.2 scope state with
      | error fault after => exact .inr ⟨[], _, .fails given, rfl⟩
      | ok completion between =>
          cases completion with
          | returning result => exact .inr ⟨[], _, .returns given, rfl⟩
          | value value =>
              rcases ih { between with heap := bindIn ref field.1 value between.heap } with
                ⟨values, after, turns, same⟩ | ⟨values, outcome, stops, same⟩
              · exact .inl ⟨value :: values, after, .cons given turns, same⟩
              · exact .inr ⟨value :: values, outcome, .later given stops, same⟩

end Eval

/-! ## Records in the making -/

namespace Heap

/-- A record in the making, with some of its fields. Nothing refers to it. -/
structure Building (heap : Heap) (ref : Ref) (fields : Fields Value) : Prop where
  record : heap.get? ref = some (.record fields)
  alone : ∀ {other object}, heap.get? other = some object → ¬ object.RefersTo ref

/-- A record that has been built: it has no parent, its keys are the names in their order, each with
its value, and nothing refers to it yet. It is equal to no other object. -/
structure Built (heap : Heap) (ref : Ref) (names : List String) (values : List Value) : Prop
    extends heap.Building ref (names.zip values) where
  complete : values.length = names.length
  keys : (heap.fields ref).keys = names
  holds : ∀ {k : Nat} {name value}, names[k]? = some name → values[k]? = some value →
    heap.lookup ref name = value
  differs : ∀ {other}, other ≠ ref → ∀ symbol,
    (Builtin.equality symbol false).run [.obj ref, .obj other] = pure (.int 0)

variable {heap : Heap} {ref : Ref} {names : List String} {values : List Value}

/-- A record in the making that has all its fields is built. -/
theorem Building.built (building : heap.Building ref (names.zip values)) (distinct : names.Nodup)
    (complete : values.length = names.length) : heap.Built ref names values where
  toBuilding := building
  complete := complete
  keys := by
    rw [fields_of_get? building.record]
    exact List.map_fst_zip (Nat.le_of_eq complete.symm)
  holds := by
    intro k name value named given
    have keys : Fields.keys (names.zip values) = names :=
      List.map_fst_zip (Nat.le_of_eq complete.symm)
    have bound : (name, value) ∈ names.zip values :=
      List.mem_of_getElem? (List.getElem?_zip_eq_some.mpr ⟨named, given⟩)
    rw [lookup_of_top building.record rfl]
    exact congrArg (Option.getD · .undefined) (Fields.get?_of_mem (keys.symm ▸ distinct) bound)
  differs := by
    intro other differs symbol
    have no : decide (Value.obj ref = Value.obj other) = false := by
      simpa using differs.symm
    change (pure (Value.ofBool (decide (Value.obj ref = Value.obj other) != false)) : Action _) = _
    rw [no]
    rfl

end Heap

namespace Eval

section Building

variable {self : Evaluator} {scope ref : Ref} {state : State} {fields : List (String × Expr)}
  {values : List Value}

/-- From sound objects, initializers whose values are kept come to sound objects, and their values
are all there. -/
theorem Turns.sound {after : State} (safe : self.Safe none)
    (turns : Turns self scope keep state fields values after) (sound : state.heap.Sound none)
    (shown : Shown none state.heap.size scope) :
    after.heap.Sound none ∧ state.heap.size ≤ after.heap.size ∧
      ∀ value ∈ values, value.Shown none after.heap.size := by
  induction turns with
  | nil => exact ⟨sound, Nat.le_refl _, fun _ listed => absurd listed List.not_mem_nil⟩
  | cons given _ ih =>
      obtain ⟨keeps, sound, completes⟩ := (safe shown _).of_ok sound given
      obtain ⟨sound, le, all⟩ := ih sound (shown.mono keeps.size_le)
      have more := Nat.le_trans keeps.size_le le
      cases completes with
      | value first => exact ⟨sound, more, List.forall_mem_cons.mpr ⟨first.mono le, all⟩⟩

/-- One turn, when values are bound in a record to which nothing refers. -/
theorem building_turn {between : State} {field : String × Expr} {value : Value}
    {done : Fields Value} (safe : self.Safe (some ref)) (sound : state.heap.Sound (some ref))
    (shown : Shown (some ref) state.heap.size scope)
    (record : state.heap.get? ref = some (.record done))
    (given : self field.2 scope state = .ok (.value value) between) :
    (bindIn ref field.1 value between.heap).Sound (some ref) ∧
      Shown (some ref) (bindIn ref field.1 value between.heap).size scope ∧
      (bindIn ref field.1 value between.heap).get? ref =
        some (.record (done.put field.1 value)) := by
  obtain ⟨keeps, sound, completes⟩ := (safe shown _).of_ok sound given
  cases completes with
  | value there =>
      refine ⟨sound.register ref field.1 there, ?_, ?_⟩
      · rw [bindIn, Heap.size_register]
        exact shown.mono keeps.size_le
      · rw [bindIn, Heap.get?_register, if_pos rfl, keeps.same rfl, record]
        rfl

theorem Turns.building {after : State} {done : Fields Value} (safe : self.Safe (some ref))
    (turns : Turns self scope (bindIn ref) state fields values after)
    (sound : state.heap.Sound (some ref)) (shown : Shown (some ref) state.heap.size scope)
    (record : state.heap.get? ref = some (.record done)) :
    after.heap.Building ref (done.putAll ((fields.map Prod.fst).zip values)) := by
  induction turns generalizing done with
  | nil => exact ⟨record, sound.not_refersTo⟩
  | cons given _ ih =>
      obtain ⟨sound, shown, record⟩ := building_turn safe sound shown record given
      exact ih sound shown record

end Building

/-! ## How the node of a record ends -/

section Endings

variable (self : Evaluator) (scope : Ref) (fields : List (String × Expr)) (state : State)

/-- The outcome of a record that is added at the end.
* All initializers give values. The new record has them, and all else is as the last one left it.
* An initializer fails or returns. All is as that one left it, there is no record, and neither an
  object nor the value that is returned refers to one that is not there. -/
inductive EndsLast : EStateM.Result Fault State (Completion Value) → Prop
  | whole {values : List Value} {between : State}
      (turns : Turns self scope keep state fields values between)
      (built : (between.heap.add (.record ((fields.map Prod.fst).zip values))).Built
        between.heap.size (fields.map Prod.fst) values) :
    EndsLast (.ok (.value (.obj between.heap.size))
      { between with heap := between.heap.add (.record ((fields.map Prod.fst).zip values)) })
  | fails {values : List Value} {fault : Fault} {after : State}
      (stops : Stops self scope keep state fields values (.error fault after))
      (sound : after.heap.Sound none) :
    EndsLast (.error fault after)
  | returns {values : List Value} {result : Value} {after : State}
      (stops : Stops self scope keep state fields values (.ok (.returning result) after))
      (sound : after.heap.Sound none) (there : result.Shown none after.heap.size) :
    EndsLast (.ok (.returning result) after)

/-- The outcome of a record that is built in place. It is the first object that is added.
* All initializers give values. The record has them, and all else is as the last one left it.
* An initializer fails or returns. All is as that one left it. The record has the values so far, and
  neither an object nor the value that is returned refers to it. -/
inductive EndsInPlace : EStateM.Result Fault State (Completion Value) → Prop
  | whole {values : List Value} {after : State}
      (turns : Turns self scope (bindIn state.heap.size)
        { state with heap := state.heap.add (.record []) } fields values after)
      (built : after.heap.Built state.heap.size (fields.map Prod.fst) values) :
    EndsInPlace (.ok (.value (.obj state.heap.size)) after)
  | fails {values : List Value} {fault : Fault} {after : State}
      (stops : Stops self scope (bindIn state.heap.size)
        { state with heap := state.heap.add (.record []) } fields values (.error fault after))
      (partly : after.heap.Building state.heap.size ((fields.map Prod.fst).zip values)) :
    EndsInPlace (.error fault after)
  | returns {values : List Value} {result : Value} {after : State}
      (stops : Stops self scope (bindIn state.heap.size)
        { state with heap := state.heap.add (.record []) } fields values
        (.ok (.returning result) after))
      (partly : after.heap.Building state.heap.size ((fields.map Prod.fst).zip values))
      (other : result ≠ .obj state.heap.size) :
    EndsInPlace (.ok (.returning result) after)

end Endings

section Records

variable {self : Evaluator} {scope ref : Ref} {state : State} {fields : List (String × Expr)}
  {values : List Value} {outcome : EStateM.Result Fault State (Completion Value)}

/-- The initializer that ends it all leaves sound objects, if values are kept. -/
theorem Stops.sound (safe : self.Safe none)
    (stops : Stops self scope keep state fields values outcome) (sound : state.heap.Sound none)
    (shown : Shown none state.heap.size scope) :
    (∃ fault after, outcome = .error fault after ∧ after.heap.Sound none) ∨
      ∃ result after, outcome = .ok (.returning result) after ∧ after.heap.Sound none ∧
        result.Shown none after.heap.size := by
  induction stops with
  | fails failed => exact .inl ⟨_, _, rfl, ((safe shown _).of_error sound failed).2⟩
  | returns returned =>
      obtain ⟨-, sound, completes⟩ := (safe shown _).of_ok sound returned
      cases completes with
      | returning there => exact .inr ⟨_, _, rfl, sound, there⟩
  | later given _ ih =>
      obtain ⟨keeps, sound, -⟩ := (safe shown _).of_ok sound given
      exact ih sound (shown.mono keeps.size_le)

/-- The initializer that ends it all leaves the record as it was, and nothing refers to it. -/
theorem Stops.building {done : Fields Value} (safe : self.Safe (some ref))
    (stops : Stops self scope (bindIn ref) state fields values outcome)
    (sound : state.heap.Sound (some ref)) (shown : Shown (some ref) state.heap.size scope)
    (record : state.heap.get? ref = some (.record done)) :
    (∃ fault after, outcome = .error fault after ∧
      after.heap.Building ref (done.putAll ((fields.map Prod.fst).zip values))) ∨
      ∃ result after, outcome = .ok (.returning result) after ∧
        after.heap.Building ref (done.putAll ((fields.map Prod.fst).zip values)) ∧
        result ≠ .obj ref := by
  induction stops generalizing done with
  | fails failed =>
      obtain ⟨keeps, sound⟩ := (safe shown _).of_error sound failed
      exact .inl ⟨_, _, rfl, (keeps.same rfl).trans record, sound.not_refersTo⟩
  | returns returned =>
      obtain ⟨keeps, sound, completes⟩ := (safe shown _).of_ok sound returned
      cases completes with
      | returning there =>
          refine .inr ⟨_, _, rfl, ⟨(keeps.same rfl).trans record, sound.not_refersTo⟩, ?_⟩
          exact fun same => (there ref same).2 rfl
  | later given _ ih =>
      obtain ⟨sound, shown, record⟩ := building_turn safe sound shown record given
      exact ih sound shown record

/-- Names that are all different, with values, stay as they stand when they are bound in turn. -/
theorem putAll_zip (distinct : (fields.map Prod.fst).Nodup) (values : List Value) :
    Fields.putAll [] ((fields.map Prod.fst).zip values) = (fields.map Prod.fst).zip values := by
  refine Fields.ofList_of_nodup (List.Sublist.nodup ?_ distinct)
  generalize fields.map Prod.fst = names
  induction names generalizing values with
  | nil => exact .slnil
  | cons name names ih =>
      cases values with
      | nil => exact List.nil_sublist _
      | cons value values => exact (ih values).cons_cons name

/-- From sound objects, a record that is added at the end is built, or there is none. -/
theorem endsLast (settings : Settings) (depth : Nat) (line : Line) (sound : state.heap.Sound none)
    (inside : scope < state.heap.size) (distinct : (fields.map Prod.fst).Nodup) :
    EndsLast (evaluator settings depth) scope fields state
      (evaluator settings (depth + 1) (.record line fields) scope state) := by
  have shown : Shown none state.heap.size scope := ⟨inside, nofun⟩
  have safe := safe_evaluator none settings depth
  have rule : evaluator settings (depth + 1) (.record line fields) scope =
      (fieldValues (evaluator settings depth) scope fields >>= fun completion =>
        completion.andThen fun bindings => do
          let ref ← add (.record (.ofList bindings))
          pure (.value (.obj ref))) := rfl
  rw [rule]
  rcases fieldValues_cases fields state _ with
    ⟨values, between, turns, same⟩ | ⟨values, outcome, stops, same⟩
  · obtain ⟨sound, -, all⟩ := turns.sound safe sound shown
    have stand : Fields.ofList ((fields.map Prod.fst).zip values) =
        (fields.map Prod.fst).zip values := putAll_zip distinct values
    have refers (target : Ref)
        (refers : (Object.record ((fields.map Prod.fst).zip values)).RefersTo target) :
        target < between.heap.size := by
      obtain ⟨binding, listed, refers⟩ := Object.refersTo_record.mp refers
      have given := (List.of_mem_zip (a := binding.1) (b := binding.2) listed).2
      exact (all _ given target refers).1
    have hidden := sound.hide refers fun _ => nofun
    rw [same, stand]
    refine .whole turns (Heap.Building.built ⟨?_, hidden.not_refersTo⟩ distinct turns.length_eq)
    rw [Heap.get?_add, if_pos rfl]
  · rw [same]
    rcases stops.sound safe sound shown with
      ⟨fault, after, rfl, sound⟩ | ⟨result, after, rfl, sound, there⟩
    · exact .fails stops sound
    · exact .returns stops sound there

/-- From sound objects, a record that is built in place is built, or nothing refers to it. -/
theorem endsInPlace (settings : Settings) (depth : Nat) (line : Line)
    (sound : state.heap.Sound none) (inside : scope < state.heap.size)
    (distinct : (fields.map Prod.fst).Nodup) :
    EndsInPlace (evaluatorInPlace settings depth) scope fields state
      (evaluatorInPlace settings (depth + 1) (.record line fields) scope state) := by
  have safe := safe_evaluatorInPlace (some state.heap.size) settings depth
  have hidden : (state.heap.add (.record [])).Sound (some state.heap.size) :=
    sound.hide (fun target refers => absurd refers (Object.not_refersTo_record_nil target))
      fun _ => nofun
  have shown : Shown (some state.heap.size) (state.heap.add (.record [])).size scope := by
    refine ⟨by rw [Heap.size_add]; exact Nat.lt_succ_of_lt inside, fun same => ?_⟩
    exact Nat.ne_of_gt inside (Option.some.inj same)
  have record : (state.heap.add (.record [])).get? state.heap.size = some (.record []) := by
    rw [Heap.get?_add, if_pos rfl]
  have rule : evaluatorInPlace settings (depth + 1) (.record line fields) scope state =
      bindFields (evaluatorInPlace settings depth) scope state.heap.size fields
        { state with heap := state.heap.add (.record []) } := rfl
  rw [rule]
  rcases bindFields_cases fields { state with heap := state.heap.add (.record []) } with
    ⟨values, after, turns, same⟩ | ⟨values, outcome, stops, same⟩
  · have building := turns.building safe hidden shown record
    rw [putAll_zip distinct values] at building
    rw [same]
    exact .whole turns (building.built distinct turns.length_eq)
  · have building := stops.building safe hidden shown record
    rw [putAll_zip distinct values] at building
    rw [same]
    rcases building with ⟨fault, after, rfl, building⟩ | ⟨result, after, rfl, building, other⟩
    · exact .fails stops building
    · exact .returns stops building other

end Records

end Eval

namespace Script

/-- The objects of a run are sound at every moment. -/
theorem sound_moment (script : Script) (settings : Settings) (sink : Sink) (log : Log) (n : Nat) :
    (script.moment settings sink log n).state.heap.Sound none := by
  have closed := (script.plain_moment settings sink log n).heap
  refine ⟨nofun, fun {ref object target} found refers => ⟨?_, nofun⟩, closed.inside⟩
  rcases refers with ⟨binding, bound, refers⟩ | above | kept
  · have plain := closed.plain found binding bound
    rw [refers] at plain
    rcases plain with rfl | ⟨there, found, -⟩
    · obtain ⟨fields, found⟩ := closed.rooted
      exact Heap.lt_size_of_get? found
    · exact Heap.lt_size_of_get? found
  · by_cases atRoot : ref = Heap.root
    · obtain ⟨fields, rooted⟩ := closed.rooted
      rw [atRoot, rooted] at found
      cases found
      cases above
    · rcases closed.kinds found atRoot with ⟨top, -⟩ | ⟨parent, fields, rfl⟩
      · cases top.symm.trans above
      · cases above
        obtain ⟨depth, scopes⟩ := exists_scopeAt found
        cases scopes with
        | root => exact absurd rfl atRoot
        | inner there _ around =>
            cases found.symm.trans there
            exact around.lt_size
  · rw [Object.captured?] at kept
    split at kept
    · rename_i lambda scope body
      cases kept
      obtain ⟨name, stands⟩ :=
        (script.placed_moment settings sink log n).closures found body
      exact stands.scope.lt_size
    · cases kept

/-- Records are built whole or not seen at all. The objects of a run are sound at every moment: they
refer to nothing that is not there. And a record whose names are all different, evaluated in any
scope and from any objects that are sound, is built if all its initializers give values in their
turn. If one of them fails or returns, then this is how the record ends, in the state that this
initializer left, and no record is there.

If records are built in place, then a record is built in the same cases. In all others it stays
behind, with the values so far, but no object refers to it, and nor does a value that is
returned. -/
theorem records_whole (settings : Settings) :
    (∀ script sink log n, (moment script settings sink log n).state.heap.Sound none) ∧
    ∀ {state : State} {scope : Ref} {fields : List (String × Expr)}, state.heap.Sound none →
      scope < state.heap.size → (fields.map Prod.fst).Nodup → ∀ depth line,
        EndsLast (evaluator settings depth) scope fields state
          (evaluator settings (depth + 1) (.record line fields) scope state) ∧
        EndsInPlace (evaluatorInPlace settings depth) scope fields state
          (evaluatorInPlace settings (depth + 1) (.record line fields) scope state) := by
  refine ⟨fun script sink log n => script.sound_moment settings sink log n, ?_⟩
  intro state scope fields sound inside distinct depth line
  exact ⟨endsLast settings depth line sound inside distinct,
    endsInPlace settings depth line sound inside distinct⟩

/-- A function that builds a record. -/
def maker : Script :=
  ⟨.mk none [
    .function none (some "make") ["x"]
      (.mk none [.returns none (.record none [("inner", .var none "x")])]),
    .assignment none "kept" (.record none []) true]⟩

/-- Initializers of which one builds a record inside a function, and the next one returns. -/
def madeAndReturned : List (String × Expr) :=
  [("a", .call none (.var none "make") [.var none "kept"]), ("b", .returns none (.var none "kept"))]

theorem records_whole_maker : ∃ state,
    state = (maker.moment .standard .empty {} 10).state ∧
    (state.heap.Sound none ∧ Heap.root < state.heap.size ∧
      (madeAndReturned.map Prod.fst).Nodup) ∧
    EndsLast (evaluator .standard 9) Heap.root madeAndReturned state
      (evaluator .standard 10 (.record none madeAndReturned) Heap.root state) ∧
    EndsInPlace (evaluatorInPlace .standard 9) Heap.root madeAndReturned state
      (evaluatorInPlace .standard 10 (.record none madeAndReturned) Heap.root state) := by
  obtain ⟨sound, whole⟩ := records_whole .standard
  have there : Heap.root < (maker.moment .standard .empty {} 10).state.heap.size := by decide
  have different : (madeAndReturned.map Prod.fst).Nodup := by decide
  exact ⟨_, rfl, ⟨sound _ _ _ _, there, different⟩, whole (sound _ _ _ _) there different 9 none⟩

end Script

end ScriptTree
