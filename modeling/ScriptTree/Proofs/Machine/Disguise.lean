import ScriptTree.Proofs.Machine
import ScriptTree.Proofs.Outcome

/-!
# States in disguise

A `Disguise` changes a state in a way that evaluation does not see: names are looked up, values are
shown and told apart, objects are added and names are bound as if it were not worn. An action
commutes with it (`Action.Commutes`) when it ends in the same way in the disguised state, and in the
disguise of the state that it would leave.

The actions of which steps are made commute with every disguise. What does not is at most the record
of a call and an invocation, since these look at the log, at the sink and at what an object does;
a step commutes where they do (`Moment.next_disguised`).
-/

namespace ScriptTree

open ScriptTree.Eval

/-- A change of the states in which it is allowed. -/
structure Disguise where
  allowed : State → Prop
  apply : State → State
  size : ∀ {state}, allowed state → (apply state).heap.size = state.heap.size
  lookup : ∀ {state}, allowed state → ∀ ref key,
    (apply state).heap.lookup ref key = state.heap.lookup ref key
  isFunction : ∀ {state}, allowed state → ∀ ref,
    (apply state).heap.isFunction ref = state.heap.isFunction ref
  display? : ∀ {state}, allowed state → ∀ value : Value,
    value.display? (apply state).heap = value.display? state.heap
  add : ∀ {state}, allowed state → ∀ object,
    allowed { state with heap := state.heap.add object } ∧
      apply { state with heap := state.heap.add object } =
        { apply state with heap := (apply state).heap.add object }
  register : ∀ {state}, allowed state → ∀ ref key value,
    allowed { state with heap := state.heap.register ref key value } ∧
      apply { state with heap := state.heap.register ref key value } =
        { apply state with heap := (apply state).heap.register ref key value }

namespace Disguise

variable {disguise : Disguise} {state : State}

theorem kind (allowed : disguise.allowed state) (value : Value) :
    value.kind (disguise.apply state).heap = value.kind state.heap := by
  cases value with
  | obj ref => rw [Value.kind, Value.kind, disguise.isFunction allowed]
  | _ => rfl

end Disguise

namespace Action

variable {α β : Type} {disguise : Disguise}

/-- The action ends in the same way in the disguised state, and in the disguise of the state that it
leaves. -/
def CommutesAt (disguise : Disguise) (action : Action α) (state : State) : Prop :=
  action.Ends state
    (fun a after => disguise.allowed after ∧
      action (disguise.apply state) = .ok a (disguise.apply after))
    (fun fault after => disguise.allowed after ∧
      action (disguise.apply state) = .error fault (disguise.apply after))

/-- The action does so in every state in which the disguise is allowed. -/
def Commutes (disguise : Disguise) (action : Action α) : Prop :=
  ∀ state, disguise.allowed state → action.CommutesAt disguise state

theorem commutes_pure (a : α) : (pure a : Action α).Commutes disguise :=
  fun _ allowed => ⟨allowed, rfl⟩

theorem commutes_throw (fault : Fault) : (throw fault : Action α).Commutes disguise :=
  fun _ allowed => ⟨allowed, rfl⟩

theorem Commutes.bind {first : Action β} {next : β → Action α} (here : first.Commutes disguise)
    (later : ∀ b, (next b).Commutes disguise) : (first >>= next).Commutes disguise := by
  intro state allowed
  refine (ends_bind first next).mpr ((here state allowed).mono (fun b between first => ?_)
    fun fault after first => ?_)
  · refine (later b between first.1).mono (fun a after second => ⟨second.1, ?_⟩)
      fun fault after second => ⟨second.1, ?_⟩
    · rw [bind_apply, first.2]
      exact second.2
    · rw [bind_apply, first.2]
      exact second.2
  · refine ⟨first.1, ?_⟩
    rw [bind_apply, first.2]

theorem commutes_ite {condition : Prop} [Decidable condition] {yes no : Action α}
    (whenTrue : yes.Commutes disguise) (whenFalse : no.Commutes disguise) :
    (if condition then yes else no).Commutes disguise := by
  split
  · exact whenTrue
  · exact whenFalse

/-- A view of what the disguise does not change. -/
theorem commutes_view {look : State → α}
    (same : ∀ {state}, disguise.allowed state → look (disguise.apply state) = look state) :
    (view look).Commutes disguise := by
  intro state allowed
  refine ⟨allowed, ?_⟩
  rw [view, same allowed]

theorem commutes_lookup (ref : Ref) (key : String) : (lookup ref key).Commutes disguise :=
  commutes_view fun allowed => disguise.lookup allowed ref key

theorem commutes_add (object : Object) : (add object).Commutes disguise := by
  intro state allowed
  obtain ⟨allowed', same⟩ := disguise.add allowed object
  refine ⟨allowed', ?_⟩
  rw [same, add, disguise.size allowed]

theorem commutes_register (ref : Ref) (key : String) (value : Value) :
    (register ref key value).Commutes disguise := by
  intro state allowed
  obtain ⟨allowed', same⟩ := disguise.register allowed ref key value
  refine ⟨allowed', ?_⟩
  rw [same]
  rfl

/-- A text that is the same in disguise. -/
theorem commutes_shown {text? : Heap → Option String}
    (same : ∀ {state}, disguise.allowed state →
      text? (disguise.apply state).heap = text? state.heap) :
    (shown text?).Commutes disguise := by
  intro state allowed
  unfold CommutesAt Ends shown
  rw [same allowed]
  cases text? state.heap with
  | some text => exact ⟨allowed, rfl⟩
  | none => exact ⟨allowed, rfl⟩

theorem commutes_display (value : Value) :
    (shown fun heap => value.display? heap).Commutes disguise :=
  commutes_shown fun allowed => disguise.display? allowed value

/-! ## Checks -/

theorem commutes_notFunction (value : Value) (line : Line) :
    (notFunction value line : Action α).Commutes disguise :=
  (commutes_display value).bind fun _ => commutes_throw _

theorem commutes_integer (line : Line) (value : Value) :
    (integer line value).Commutes disguise := by
  unfold integer
  split
  · exact commutes_pure _
  · exact (commutes_display _).bind fun _ => commutes_throw _

theorem commutes_object (line : Line) (value : Value) : (object line value).Commutes disguise := by
  unfold object
  split
  · exact commutes_pure _
  · exact (commutes_display _).bind fun _ => commutes_throw _

theorem commutes_function (line : Line) (value : Value) :
    (function line value).Commutes disguise := by
  unfold function
  split
  · apply (commutes_view fun allowed => disguise.isFunction allowed _).bind
    intro isFunction
    exact commutes_ite (commutes_pure _) (commutes_notFunction _ line)
  · exact commutes_notFunction _ line

theorem commutes_operands (symbol : String) (values : List Value) :
    (Builtin.operands symbol values).Commutes disguise := by
  match values with
  | [] | [_] | _ :: _ :: _ :: _ => exact commutes_throw _
  | [_, _] => exact commutes_pure _

theorem commutes_integerOperand (symbol : String) (value : Value) :
    (Builtin.integerOperand symbol value).Commutes disguise := by
  unfold Builtin.integerOperand
  split
  · exact commutes_pure _
  · exact (commutes_display _).bind fun _ => commutes_throw _

/-- The operators look at their operands only. -/
theorem commutes_run {builtin : Builtin} (operator : builtin ≠ .print) (values : List Value) :
    (builtin.run values).Commutes disguise := by
  cases builtin with
  | print => exact absurd rfl operator
  | arithmetic symbol operation =>
      apply (commutes_operands _ _).bind
      rintro ⟨left, right⟩
      apply (commutes_integerOperand _ _).bind
      intro a
      apply (commutes_integerOperand _ _).bind
      intro b
      cases operation.apply a b with
      | ok n => exact commutes_pure _
      | error cause => exact commutes_throw _
  | equality symbol negated => exact (commutes_operands _ _).bind fun _ => commutes_pure _
  | ordering symbol comparison =>
      apply (commutes_operands _ _).bind
      rintro ⟨left, right⟩
      dsimp only
      cases left.compare? comparison right with
      | some holds => exact commutes_pure _
      | none =>
          apply (commutes_display _).bind
          intro leftText
          apply (commutes_display _).bind
          intro rightText
          have kinds : (view fun state => (left.kind state.heap, right.kind state.heap)).Commutes
              disguise :=
            commutes_view fun allowed => by rw [Disguise.kind allowed, Disguise.kind allowed]
          exact kinds.bind fun _ => commutes_throw _

end Action

open ScriptTree.Action

variable {disguise : Disguise}

/-! ## The actions of a step -/

theorem Occurrence.commutes_begin (code : Occurrence) (scope : Ref) :
    (code.begin scope).Commutes disguise := by
  obtain ⟨place, node⟩ := code
  cases node with
  | var line name => exact (commutes_lookup _ _).bind fun _ => commutes_pure _
  | function line name parameters body =>
      apply (commutes_add _).bind
      intro ref
      cases name with
      | none => exact commutes_pure _
      | some name => exact (commutes_register _ _ _).bind fun _ => commutes_pure _
  | unknown line kind => exact commutes_throw _
  | _ => exact commutes_pure _

/-- What an invocation does, other than that of `print`. -/
theorem Task.commutes_invoked (origin : Place) (callee : Ref) (receiver : Value)
    (values : List Value) {body : Option Body} (other : body ≠ some (.builtin .print)) :
    (invoked origin callee receiver values body).Commutes disguise := by
  cases body with
  | none => exact commutes_notFunction _ _
  | some body =>
      cases body with
      | builtin builtin =>
          have operator : builtin ≠ .print := fun same => other (by rw [same])
          exact (commutes_run operator values).bind fun _ => commutes_pure _
      | closure lambda scope =>
          exact commutes_ite ((commutes_add _).bind fun _ => commutes_pure _) (commutes_throw _)
      | external call =>
          simp only [invoked]
          cases call callee receiver values with
          | ok result => exact commutes_pure _
          | error failure => exact commutes_throw _

/-- The invocation of an object that does the same in disguise commutes if what it does commutes. -/
theorem Task.commutesAt_invoke {settings : Settings} {origins : Ref → Place} {room : Bool}
    {callee : Ref} {receiver : Value} {values : List Value} {state : State}
    (same : invoked (origins callee) callee receiver values
        (((disguise.apply state).heap.get? callee).bind Object.body) =
      invoked (origins callee) callee receiver values ((state.heap.get? callee).bind Object.body))
    (commutes : (invoked (origins callee) callee receiver values
      ((state.heap.get? callee).bind Object.body)).CommutesAt disguise state) :
    (Task.begin settings origins room (.invoke callee receiver values)).CommutesAt disguise
      state := by
  have disguised : Task.begin settings origins room (.invoke callee receiver values)
      (disguise.apply state) = invoked (origins callee) callee receiver values
        ((state.heap.get? callee).bind Object.body) (disguise.apply state) := by
    rw [← same]
    rfl
  unfold CommutesAt
  rw [disguised]
  exact commutes

theorem Frame.commutes_resume (frame : Frame) (value : Value) :
    (frame.resume value).Commutes disguise := by
  cases frame with
  | assignment line name declares scope =>
      apply (commutes_lookup _ _).bind
      intro found
      exact commutes_ite (commutes_throw _)
        ((commutes_register _ _ _).bind fun _ => commutes_pure _)
  | condition line onTrue onFalse scope =>
      exact (commutes_integer line value).bind fun _ => commutes_pure _
  | field line name =>
      apply (commutes_object line value).bind
      intro ref
      exact (commutes_lookup _ _).bind fun _ => commutes_pure _
  | target line name code scope =>
      exact (commutes_object line value).bind fun _ => commutes_pure _
  | write ref name => exact (commutes_register _ _ _).bind fun _ => commutes_pure _
  | callee line rest scope => exact (commutes_function line value).bind fun _ => commutes_pure _
  | receiver line name rest scope =>
      apply (commutes_object line value).bind
      intro holder
      apply (commutes_lookup _ _).bind
      intro found
      exact (commutes_function line found).bind fun _ => commutes_pure _
  | _ => exact commutes_pure _

/-! ## Steps -/

namespace Moment

variable {settings : Settings} {limit : Nat} {moment : Moment}

/-- The moment with its state in disguise. -/
def disguised (disguise : Disguise) (moment : Moment) : Moment :=
  { moment with state := disguise.apply moment.state }

theorem after_disguised {action : Action Next}
    (commutes : action.CommutesAt disguise moment.state) (frames : List Frame) :
    (moment.disguised disguise).after frames action =
        (moment.after frames action).disguised disguise ∧
      disguise.allowed (moment.after frames action).state := by
  unfold CommutesAt Ends at commutes
  unfold after
  dsimp only [disguised]
  cases ran : action moment.state with
  | ok next after | error fault after =>
      rw [ran] at commutes
      rw [commutes.2]
      exact ⟨rfl, commutes.1⟩

theorem state_noting (moment : Moment) (task : Task) :
    (moment.noting task).state = moment.state := by
  cases task <;> rfl

theorem noting_disguised (allowed : disguise.allowed moment.state) (task : Task) :
    (moment.disguised disguise).noting task = (moment.noting task).disguised disguise := by
  cases task with
  | eval code scope =>
      unfold noting disguised
      dsimp only
      rw [disguise.size allowed]
  | _ => rfl

/-- A task goes on in disguise as it does without, if it begins with an action that commutes. -/
theorem next_disguised_of_task (allowed : disguise.allowed moment.state) {task : Task}
    (focus : moment.focus = .task task)
    (commutes : (task.begin settings moment.origins (moment.frames.length < limit)).CommutesAt
      disguise moment.state) :
    (moment.disguised disguise).next settings limit =
        (moment.next settings limit).disguised disguise ∧
      disguise.allowed (moment.next settings limit).state := by
  rw [← state_noting moment task] at commutes
  obtain ⟨focus, frames, state, origins⟩ := moment
  cases focus
  have after := after_disguised commutes frames
  rw [← noting_disguised allowed] at after
  exact after

/-- A step goes on in disguise as it does without, if the record of a call and an invocation do. -/
theorem next_disguised (allowed : disguise.allowed moment.state)
    (recorded : ∀ line callee receiver values scope,
      moment.focus = .task (.arguments line callee receiver values [] scope) →
        (Task.begin settings moment.origins (moment.frames.length < limit)
          (.arguments line callee receiver values [] scope)).CommutesAt disguise moment.state)
    (invoked : ∀ callee receiver values, moment.focus = .task (.invoke callee receiver values) →
      (Task.begin settings moment.origins (moment.frames.length < limit)
        (.invoke callee receiver values)).CommutesAt disguise moment.state) :
    (moment.disguised disguise).next settings limit =
        (moment.next settings limit).disguised disguise ∧
      disguise.allowed (moment.next settings limit).state := by
  cases focus : moment.focus with
  | answer completion =>
      obtain ⟨_, frames, state, origins⟩ := moment
      cases focus
      cases frames with
      | nil => cases completion <;> exact ⟨rfl, allowed⟩
      | cons frame frames =>
          cases completion with
          | value value => exact after_disguised (frame.commutes_resume value state allowed) frames
          | returning value => exact ⟨rfl, allowed⟩
  | raise fault =>
      obtain ⟨_, frames, state, origins⟩ := moment
      cases focus
      cases frames <;> exact ⟨rfl, allowed⟩
  | task task =>
      refine next_disguised_of_task allowed focus ?_
      match task with
      | .eval code scope =>
          exact commutes_ite (code.commutes_begin scope) (commutes_throw _) _ allowed
      | .fields done [] scope => exact (commutes_add _).bind (fun _ => commutes_pure _) _ allowed
      | .arguments line callee receiver values [] scope => exact recorded _ _ _ _ _ focus
      | .invoke callee receiver values => exact invoked _ _ _ focus
      | .elements [] _ | .elements (_ :: _) _ | .fields _ (_ :: _) _
      | .arguments _ _ _ _ (_ :: _) _ => exact commutes_pure _ _ allowed

end Moment

end ScriptTree
