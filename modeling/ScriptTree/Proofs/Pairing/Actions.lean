import ScriptTree.Proofs.Outcome
import ScriptTree.Proofs.Pairing.Heaps

/-!
# Two actions side by side

Two actions agree when they take corresponding states to corresponding outcomes: both to results, or
both to faults. The other side may also run into the depth limit if evaluations are nested deeper
there, whatever this side does (`Pairing.Outcomes`).

Agreement is proved along the way in which actions are built (`agree_bind`), from one lemma for each
action on a state. The checks of values and the functions of the language follow.
-/

namespace ScriptTree

namespace Pairing

/-! ## Corresponding outcomes -/

section Outcomes

variable {Region : Type} (pairing : Pairing Region)

/-- Records of the two logs. A program in which something is inserted, or stands in a block of its
own, may have another number of expressions at its top level. -/
inductive Records : LogRecord → LogRecord → Prop
  | started {expressions expressions' : Nat}
      (same : expressions' = expressions ∨ pairing.Costlier) :
    Records (.started expressions) (.started expressions')
  | finished : Records .finished .finished
  | printing {shown : Option String} : Records (.printing shown) (.printing shown)
  | calling {line line' : Line} {function : String} {shown : Option String}
      (lines : pairing.line line line') :
    Records (.calling line function shown) (.calling line' function shown)

/-- The two logs. -/
structure Logs (log log' : Log) : Prop where
  strict : log'.strict = log.strict
  records : List.Forall₂ pairing.Records log.records.toList log'.records.toList

/-- Two states that correspond: they have the same lines printed. -/
structure States (matching : Matching Region) (state state' : State) : Prop where
  heaps : pairing.Heaps matching state.heap state'.heap
  sink : state'.sink = state.sink
  logs : pairing.Logs state.log state'.log

/-- Causes that correspond: the same, but an unknown variable is reported under the name that it has
on each side. -/
inductive Causes : Cause → Cause → Prop
  | same {cause : Cause} (other : ∀ name, cause ≠ .unknownVariable name) : Causes cause cause
  | unknownVariable {name name' : String} (unknown : pairing.unknown name name') :
    Causes (.unknownVariable name) (.unknownVariable name')

/-- Faults that correspond. -/
inductive Faults : Fault → Fault → Prop
  | failure {cause cause' : Cause} {line line' : Line} (causes : pairing.Causes cause cause')
      (lines : pairing.line line line') :
    Faults (.failure ⟨cause, line⟩) (.failure ⟨cause', line'⟩)
  | digitLimit : Faults .digitLimit .digitLimit
  | sinkClosed : Faults .sinkClosed .sinkClosed
  | tooDeep : Faults .tooDeep .tooDeep

/-- Outcomes that correspond. What was matched stays matched, the results are related under the
matching at the end, and objects of the other side without a counterpart stay as they are. Where
evaluations are nested deeper, the other side may hit the depth limit before. -/
inductive Outcomes {α β : Type} (matching : Matching Region) (heap' : Heap)
    (related : Matching Region → α → β → Prop) :
    EStateM.Result Fault State α → EStateM.Result Fault State β → Prop
  | ok {later : Matching Region} {result : α} {result' : β} {state state' : State}
      (onward : matching.Onward heap' later state'.heap)
      (states : pairing.States later state state') (results : related later result result') :
    Outcomes matching heap' related (.ok result state) (.ok result' state')
  | error {later : Matching Region} {fault fault' : Fault} {state state' : State}
      (onward : matching.Onward heap' later state'.heap)
      (states : pairing.States later state state') (faults : pairing.Faults fault fault') :
    Outcomes matching heap' related (.error fault state) (.error fault' state')
  | deeper {outcome : EStateM.Result Fault State α} {state' : State}
      (costlier : pairing.Costlier) :
    Outcomes matching heap' related outcome (.error .tooDeep state')

/-- Results that are the same on both sides. -/
abbrev Identical {α : Type} : Matching Region → α → α → Prop :=
  fun _ result result' => result' = result

/-- Results that nothing is said about. -/
abbrev Anything {α β : Type} : Matching Region → α → β → Prop :=
  fun _ _ _ => True

/-- Two actions take corresponding states to corresponding outcomes. -/
def Agree {α β : Type} (matching : Matching Region) (related : Matching Region → α → β → Prop)
    (action : Action α) (action' : Action β) : Prop :=
  ∀ ⦃state state'⦄, pairing.States matching state state' →
    pairing.Outcomes matching state'.heap related (action state) (action' state')

end Outcomes

variable {Region : Type} {pairing : Pairing Region} {matching later : Matching Region}
  {α β γ δ : Type} {related related' : Matching Region → α → β → Prop}

theorem Outcomes.after {outcome : EStateM.Result Fault State α}
    {outcome' : EStateM.Result Fault State β} {heap' middle' : Heap}
    (outcomes : pairing.Outcomes later middle' related outcome outcome')
    (before : matching.Onward heap' later middle') :
    pairing.Outcomes matching heap' related outcome outcome' := by
  cases outcomes with
  | ok onward states results => exact .ok (before.trans onward) states results
  | error onward states faults => exact .error (before.trans onward) states faults
  | deeper costlier => exact .deeper costlier

/-! ## How actions are built -/

open ScriptTree.Action

theorem agree_pure {result : α} {result' : β} (results : related matching result result') :
    pairing.Agree matching related (pure result) (pure result') :=
  fun _ _ states => .ok (.refl _ _) states results

theorem agree_throw {fault fault' : Fault} (faults : pairing.Faults fault fault') :
    pairing.Agree matching related (throw fault) (throw fault') :=
  fun _ _ states => .error (.refl _ _) states faults

/-- Actions agree that agree first and then, whatever the first results. -/
theorem agree_bind {first : Matching Region → γ → δ → Prop} {action : Action γ}
    {action' : Action δ} {next : γ → Action α} {next' : δ → Action β}
    (agree : pairing.Agree matching first action action')
    (further : ∀ ⦃later⦄, matching.Le later → ∀ ⦃result result'⦄, first later result result' →
      pairing.Agree later related (next result) (next' result')) :
    pairing.Agree matching related (action >>= next) (action' >>= next') := by
  intro state state' states
  have outcomes := agree states
  rw [bind_apply, bind_apply]
  generalize action state = outcome at outcomes
  generalize action' state' = outcome' at outcomes
  cases outcomes with
  | ok onward between results => exact (further onward.le results between).after onward
  | error onward between faults => exact .error onward between faults
  | deeper costlier => exact .deeper costlier

/-- Actions agree that go on with the same result on both sides. -/
theorem agree_bind_same {action action' : Action γ} {next : γ → Action α} {next' : γ → Action β}
    (agree : pairing.Agree matching Identical action action')
    (further : ∀ ⦃later⦄, matching.Le later → ∀ result,
      pairing.Agree later related (next result) (next' result)) :
    pairing.Agree matching related (action >>= next) (action' >>= next') := by
  refine agree_bind agree fun later le result result' same => ?_
  rw [show result' = result from same]
  exact further le result

theorem agree_ite {condition condition' : Prop} [Decidable condition] [Decidable condition']
    (same : condition' ↔ condition) {yes no : Action α} {yes' no' : Action β}
    (agreeYes : condition → pairing.Agree matching related yes yes')
    (agreeNo : ¬ condition → pairing.Agree matching related no no') :
    pairing.Agree matching related (if condition then yes else no)
      (if condition' then yes' else no') := by
  by_cases holds : condition
  · rw [if_pos holds, if_pos (same.mpr holds)]
    exact agreeYes holds
  · rw [if_neg holds, if_neg fun holds' => holds (same.mp holds')]
    exact agreeNo holds

theorem agree_fail {cause : Cause} {line line' : Line}
    (other : ∀ name, cause ≠ .unknownVariable name) (lines : pairing.line line line') :
    pairing.Agree matching related (fail cause line) (fail cause line') :=
  agree_throw (.failure (.same other) lines)

/-- A view of corresponding states. -/
theorem agree_view {look : State → α} {look' : State → β}
    (views : ∀ {state state'}, pairing.States matching state state' →
      related matching (look state) (look' state')) :
    pairing.Agree matching related (view look) (view look') :=
  fun _ _ states => .ok (.refl _ _) states (views states)

/-- The same text is shown on both sides, or none. -/
theorem agree_shown {text? text?' : Heap → Option String}
    (same : ∀ {heap heap'}, pairing.Heaps matching heap heap' → text?' heap' = text? heap) :
    pairing.Agree matching Identical (shown text?) (shown text?') := by
  intro state state' states
  unfold shown
  rw [same states.heaps]
  cases text? state.heap with
  | some text => exact .ok (.refl _ _) states rfl
  | none => exact .error (.refl _ _) states .digitLimit

theorem Records.message?_isSome {record record' : LogRecord}
    (records : pairing.Records record record') :
    record'.message?.isSome = record.message?.isSome := by
  cases records with
  | started => rfl
  | finished => rfl
  | @printing shown => rfl
  | @calling line line' function shown => cases shown <;> rfl

/-- A record is taken by both logs, or by none. -/
theorem agree_log {record record' : Heap → LogRecord}
    (records : ∀ {heap heap'}, pairing.Heaps matching heap heap' →
      pairing.Records (record heap) (record' heap')) :
    pairing.Agree matching Anything (log record) (log record') := by
  intro state state' states
  have new := records states.heaps
  have same : (record' state'.heap).message?.isNone = (record state.heap).message?.isNone := by
    rw [← Option.not_isSome, ← Option.not_isSome, new.message?_isSome]
  unfold Action.log Log.write?
  rw [states.logs.strict, same]
  split <;> rename_i written
  · split at written
    · cases written
    · rename_i taken
      cases written
      rw [if_neg taken]
      refine .ok (.refl _ _) ⟨states.heaps, states.sink, rfl, ?_⟩ trivial
      rw [Array.toList_push, Array.toList_push]
      exact List.rel_append states.logs.records (.cons new .nil)
  · split at written
    · rename_i refused
      rw [if_pos refused]
      exact .error (.refl _ _) states .digitLimit
    · cases written

theorem agree_writeLine (line : String) :
    pairing.Agree matching Anything (writeLine line) (writeLine line) := by
  intro state state' states
  unfold writeLine
  rw [states.sink]
  cases state.sink.write? line with
  | some sink => exact .ok (.refl _ _) ⟨states.heaps, rfl, states.logs⟩ trivial
  | none => exact .error (.refl _ _) states .sinkClosed

/-- Failures take corresponding lines. -/
theorem agree_orAt {line line' : Line} (lines : pairing.line line line') {action : Action α}
    {action' : Action β} (agree : pairing.Agree matching related action action') :
    pairing.Agree matching related (orAt line action) (orAt line' action') := by
  intro state state' states
  have outcomes := agree states
  unfold orAt
  generalize action state = outcome at outcomes
  generalize action' state' = outcome' at outcomes
  cases outcomes with
  | ok onward between results => exact .ok onward between results
  | error onward between faults =>
      cases faults with
      | failure causes own =>
          exact .error onward between (.failure causes (pairing.line_orElse own lines))
      | digitLimit => exact .error onward between .digitLimit
      | sinkClosed => exact .error onward between .sinkClosed
      | tooDeep => exact .error onward between .tooDeep
  | deeper costlier => exact .deeper costlier

/-! ## Actions on the objects -/

section Objects

variable {region : Region} {ref ref' : Ref}

theorem agree_lookup (matched : matching ref = some (region, ref')) {name : String}
    (known : pairing.known region name) :
    pairing.Agree matching pairing.Values (lookup ref name)
      (lookup ref' (pairing.rename region name)) :=
  agree_view fun states => states.heaps.lookup matched known

theorem agree_register (matched : matching ref = some (region, ref')) {name : String}
    (known : pairing.known region name) {value value' : Value}
    (values : pairing.Values matching value value') :
    pairing.Agree matching Anything (register ref name value)
      (register ref' (pairing.rename region name) value') :=
  fun _ _ states => .ok (.register matched _ _ _)
    ⟨states.heaps.register matched known values, states.sink, states.logs⟩ trivial

/-- Objects without a parent that are added on both sides are matched as values. -/
theorem agree_add {object object' : Object} (top : object.parent = none)
    (top' : object'.parent = none) (name : object'.name = object.name)
    (bodies : pairing.Bodies matching object.body object'.body)
    (fields : pairing.Bindings pairing.outer matching object.fields object'.fields) :
    pairing.Agree matching pairing.Same (add object) (add object') := by
  intro state state' states
  have le := states.heaps.le_add pairing.outer
  have objects : pairing.Objects matching pairing.outer state.heap.size state'.heap.size
      object object' := by
    refine ⟨name, ?_, bodies, fields⟩
    rw [top, top']
    exact .none
  exact .ok (.add states.heaps.size_unmatched _ _ _)
    ⟨states.heaps.add (objects.le le), states.sink, states.logs⟩ Matching.add_self

/-- The scopes of two calls are matched, in the region of the code inside the function. -/
theorem agree_addScope {around inside : Region} {scope scope' : Ref}
    (matched : matching scope = some (around, scope')) {fields fields' : Fields Value}
    (bindings : pairing.Bindings inside matching fields fields')
    (free : ∀ name, pairing.known inside name → name ∉ fields.keys →
      pairing.known around name ∧ pairing.rename around name = pairing.rename inside name) :
    pairing.Agree matching (fun later ref ref' => later ref = some (inside, ref'))
      (add (.scope (some scope) fields)) (add (.scope (some scope') fields')) := by
  intro state state' states
  have le := states.heaps.le_add inside
  obtain ⟨older, older'⟩ := states.heaps.lt_size matched
  have objects : pairing.Objects matching inside state.heap.size state'.heap.size
      (.scope (some scope) fields) (.scope (some scope') fields') :=
    ⟨rfl, .some older older' matched free, .none, bindings⟩
  exact .ok (.add states.heaps.size_unmatched _ _ _)
    ⟨states.heaps.add (objects.le le), states.sink, states.logs⟩ Matching.add_self

end Objects

/-! ## Checks -/

section Checks

open Eval

variable {line line' : Line} {value value' : Value}

/-- A value that does not fit is shown on both sides in the same way. -/
theorem agree_refuse (values : pairing.Values matching value value') {cause : String → Cause}
    (other : ∀ text name, cause text ≠ .unknownVariable name)
    (lines : pairing.line line line') :
    pairing.Agree matching related
      (do let text ← shown fun heap => value.display? heap
          fail (cause text) line)
      (do let text ← shown fun heap => value'.display? heap
          fail (cause text) line') := by
  refine agree_bind_same (agree_shown fun heaps => heaps.display? values) fun _ _ text => ?_
  exact agree_fail (other text) lines

theorem agree_mismatch (values : pairing.Values matching value value') (expected : Expected)
    (lines : pairing.line line line') :
    pairing.Agree matching related
      (do let text ← shown fun heap => value.display? heap
          fail (.mismatch text expected) line)
      (do let text ← shown fun heap => value'.display? heap
          fail (.mismatch text expected) line') :=
  agree_refuse values (fun _ _ => nofun) lines

theorem agree_integer (values : pairing.Values matching value value')
    (lines : pairing.line line line') :
    pairing.Agree matching Identical (integer line value) (integer line' value') := by
  have refused : pairing.Agree matching (Identical : _ → Int → Int → Prop) _ _ :=
    agree_mismatch values .integer lines
  cases values with
  | int => exact agree_pure rfl
  | _ => exact refused

theorem agree_object (values : pairing.Values matching value value')
    (lines : pairing.line line line') :
    pairing.Agree matching pairing.Same (object line value) (object line' value') := by
  have refused : pairing.Agree matching pairing.Same _ _ := agree_mismatch values .object lines
  cases values with
  | obj matched => exact agree_pure matched
  | _ => exact refused

theorem agree_function (values : pairing.Values matching value value')
    (lines : pairing.line line line') :
    pairing.Agree matching pairing.Same (function line value) (function line' value') := by
  have refused : pairing.Agree matching pairing.Same _ _ := agree_mismatch values .function lines
  cases values with
  | obj matched =>
      have views : pairing.Agree matching Identical
          (view fun state => state.heap.isFunction _) (view fun state => state.heap.isFunction _) :=
        agree_view fun states => states.heaps.isFunction matched
      refine agree_bind_same views fun later le isFunction => ?_
      refine agree_ite Iff.rfl (fun _ => agree_pure (le matched)) fun _ => ?_
      exact agree_mismatch (.obj (le matched)) .function lines
  | _ => exact refused

end Checks

/-! ## Functions of the language -/

section Builtins

open Builtin

variable {values values' : List Value} {left left' right right' value value' : Value}

theorem agree_operands (symbol : String)
    (all : List.Forall₂ (pairing.Values matching) values values') :
    pairing.Agree matching
      (fun later pair pair' => pairing.Values later pair.1 pair'.1 ∧
        pairing.Values later pair.2 pair'.2)
      (operands symbol values) (operands symbol values') := by
  match all with
  | .cons first (.cons second .nil) => exact agree_pure ⟨first, second⟩
  | .nil => exact agree_fail (fun _ => nofun) (pairing.line_refl none)
  | .cons _ .nil => exact agree_fail (fun _ => nofun) (pairing.line_refl none)
  | .cons _ (.cons _ (.cons _ rest)) =>
      simp only [operands, List.length_cons, rest.length_eq]
      exact agree_fail (fun _ => nofun) (pairing.line_refl none)

theorem agree_integerOperand (symbol : String) (operand : pairing.Values matching value value') :
    pairing.Agree matching Identical (integerOperand symbol value)
      (integerOperand symbol value') := by
  have other (text name : String) : Cause.operandMismatch text symbol ≠ .unknownVariable name :=
    nofun
  have refused : pairing.Agree matching (Identical : _ → Int → Int → Prop) _ _ :=
    agree_refuse operand other (pairing.line_refl none)
  cases operand with
  | int => exact agree_pure rfl
  | _ => exact refused

/-- A truth value is the same on both sides. -/
theorem alike_ofBool (same : Ref → Ref → Prop) (b : Bool) :
    (Value.ofBool b).Alike same (Value.ofBool b) :=
  .int

/-- Values are ordered as their counterparts are. -/
theorem compare?_eq (lefts : pairing.Values matching left left')
    (rights : pairing.Values matching right right') (comparison : Comparison) :
    left'.compare? comparison right' = left.compare? comparison right := by
  cases lefts <;> cases rights <;> rfl

theorem agree_run (builtin : Builtin)
    (all : List.Forall₂ (pairing.Values matching) values values') :
    pairing.Agree matching pairing.Values (builtin.run values) (builtin.run values') := by
  cases builtin with
  | print =>
      have printing : pairing.Agree matching Anything
          (log fun heap => .printing (Value.quotedList? heap values))
          (log fun heap => .printing (Value.quotedList? heap values')) := by
        refine agree_log fun heaps => ?_
        rw [heaps.quotedList? all]
        exact .printing
      refine agree_bind printing fun later le _ _ _ => ?_
      have all := all.imp fun _ _ values => Values.le values le
      have shows : pairing.Agree later Identical
          (shown fun heap => (values.mapM (Value.display? heap)).map (String.intercalate " "))
          (shown fun heap => (values'.mapM (Value.display? heap)).map (String.intercalate " ")) :=
        agree_shown fun heaps => by rw [Values.mapM_eq heaps.display? all]
      refine agree_bind_same shows fun later le text => ?_
      exact agree_bind (agree_writeLine text) fun _ _ _ _ _ => agree_pure .undefined
  | arithmetic symbol operation =>
      refine agree_bind (agree_operands symbol all) fun later le pair pair' pairs => ?_
      obtain ⟨lefts, rights⟩ := pairs
      refine agree_bind_same (agree_integerOperand symbol lefts) fun later le a => ?_
      have second := agree_integerOperand symbol (Values.le rights le)
      refine agree_bind_same second fun later le b => ?_
      cases applied : operation.apply a b with
      | ok n => exact agree_pure .int
      | error cause =>
          have other (name : String) : cause ≠ .unknownVariable name := by
            rcases Arithmetic.cause_of_apply applied with rfl | rfl <;> exact nofun
          exact agree_fail other (pairing.line_refl none)
  | equality symbol negated =>
      refine agree_bind (agree_operands symbol all) fun later le pair pair' pairs => ?_
      intro state state' states
      have same : decide (pair'.1 = pair'.2) = decide (pair.1 = pair.2) :=
        decide_eq_decide.mpr (states.heaps.eq_iff pairs.1 pairs.2)
      refine .ok (.refl _ _) states ?_
      rw [same]
      exact alike_ofBool _ _
  | ordering symbol comparison =>
      refine agree_bind (agree_operands symbol all) fun later le pair pair' pairs => ?_
      obtain ⟨lefts, rights⟩ := pairs
      dsimp only
      rw [compare?_eq lefts rights]
      cases pair.1.compare? comparison pair.2 with
      | some holds => exact agree_pure (alike_ofBool _ _)
      | none =>
          have shownLeft := agree_shown fun heaps => heaps.display? lefts
          refine agree_bind_same shownLeft fun later le left => ?_
          have rights := Values.le rights le
          have shownRight := agree_shown fun heaps => heaps.display? rights
          refine agree_bind_same shownRight fun later' le' right => ?_
          have kinds : pairing.Agree later' Identical
              (view fun state => (pair.1.kind state.heap, pair.2.kind state.heap))
              (view fun state => (pair'.1.kind state.heap, pair'.2.kind state.heap)) := by
            refine agree_view fun states => ?_
            have left := states.heaps.kind (Values.le lefts (le.trans le'))
            have right := states.heaps.kind (Values.le rights le')
            exact congrArg₂ Prod.mk left right
          refine agree_bind_same kinds fun later le kinds => ?_
          exact agree_fail (fun _ => nofun) (pairing.line_refl none)

end Builtins

end Pairing

end ScriptTree
