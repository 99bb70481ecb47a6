import ScriptTree.Eval

/-!
# What an action ends with

A statement about an action is a statement about both of its endings: the result or the fault, and
the state that either leaves. `Action.Ends` puts the two together, and its lemmas take an action
apart, one for each way in which actions are built.

The functions of the language and the checks that a node makes of a value are quiet: however they
end, the heap is the one they found.
-/

namespace ScriptTree

namespace Action

variable {α β : Type}

theorem bind_apply (first : Action β) (next : β → Action α) (state : State) :
    (first >>= next) state = match first state with
      | .ok b after => next b after
      | .error fault after => .error fault after := by
  change EStateM.bind first next state = _
  unfold EStateM.bind
  cases first state <;> rfl

theorem map_apply (f : β → α) (action : Action β) (state : State) :
    (f <$> action) state = match action state with
      | .ok b after => .ok (f b) after
      | .error fault after => .error fault after := by
  change EStateM.map f action state = _
  unfold EStateM.map
  cases action state <;> rfl

/-- What holds of an action's result, or of its fault, and of the state it ends in. -/
def Ends (action : Action α) (state : State) (gives : α → State → Prop)
    (fails : Fault → State → Prop) : Prop :=
  match action state with
  | .ok result after => gives result after
  | .error fault after => fails fault after

section Parts

variable {state : State} {gives : α → State → Prop} {fails : Fault → State → Prop}

theorem Ends.mono {gives' : α → State → Prop} {fails' : Fault → State → Prop}
    {action : Action α} (ends : action.Ends state gives fails)
    (result : ∀ a after, gives a after → gives' a after)
    (fault : ∀ f after, fails f after → fails' f after) : action.Ends state gives' fails' := by
  unfold Ends at ends ⊢
  cases ran : action state with
  | ok a after =>
      rw [ran] at ends
      exact result a after ends
  | error f after =>
      rw [ran] at ends
      exact fault f after ends

@[simp] theorem ends_view (look : State → α) :
    (view look).Ends state gives fails ↔ gives (look state) state := Iff.rfl

/-- An action that goes on after another ends as what follows does. -/
@[simp] theorem ends_bind (first : Action β) (next : β → Action α) :
    (first >>= next).Ends state gives fails ↔
      first.Ends state (fun b after => (next b).Ends after gives fails) fails := by
  unfold Ends
  rw [bind_apply]
  cases first state <;> rfl

@[simp] theorem ends_ite (condition : Prop) [Decidable condition] (yes no : Action α) :
    (if condition then yes else no).Ends state gives fails ↔
      if condition then yes.Ends state gives fails else no.Ends state gives fails := by
  split <;> rfl

@[simp] theorem ends_lookup {gives : Value → State → Prop} (ref : Ref) (key : String) :
    (lookup ref key).Ends state gives fails ↔ gives (state.heap.lookup ref key) state := Iff.rfl

end Parts

/-! ## Actions that leave the objects alone -/

/-- However the action ends, the heap is the one it found. -/
def Quiet (action : Action α) : Prop :=
  ∀ state, action.Ends state (fun _ after => after.heap = state.heap)
    fun _ after => after.heap = state.heap

/-- Showing a value ends with its text, or with the fault of an integer that is too long. -/
theorem ends_shown {state : State} (text? : Heap → Option String) :
    (shown text?).Ends state (fun _ after => after = state)
      fun fault after => fault = .digitLimit ∧ after = state := by
  unfold Ends shown
  cases text? state.heap with
  | none => exact ⟨rfl, rfl⟩
  | some text => rfl

theorem quiet_log (record : Heap → LogRecord) : (log record).Quiet := by
  intro state
  unfold Ends log
  cases state.log.write? (record state.heap) <;> rfl

theorem quiet_writeLine (line : String) : (writeLine line).Quiet := by
  intro state
  unfold Ends writeLine
  cases state.sink.write? line <;> rfl

end Action

/-! ## Checks

A check that succeeds gives what the value is, and one that fails says so; neither changes the
state. -/

namespace Eval

open ScriptTree.Action

/-- A check that fails says so of the value it was given, and never gives anything. -/
theorem ends_mismatch {α : Type} {state : State} {gives : α → State → Prop} (value : Value)
    (expected : Expected) (line : Line) :
    (do let text ← Action.shown fun heap => value.display? heap
        Action.fail (.mismatch text expected) line : Action α).Ends state gives
      fun _ after => after = state := by
  rw [ends_bind]
  exact (ends_shown _).mono (fun text after same => same) fun fault after same => same.2

theorem ends_notFunction {α : Type} {state : State} {gives : α → State → Prop} (value : Value)
    (line : Line) :
    (notFunction value line : Action α).Ends state gives fun _ after => after = state :=
  ends_mismatch value .function line

theorem ends_integer {state : State} (line : Line) (value : Value) :
    (integer line value).Ends state (fun n after => value = .int n ∧ after = state)
      fun _ after => after = state := by
  unfold integer
  split
  · exact ⟨rfl, rfl⟩
  · exact ends_mismatch _ _ line

theorem ends_object {state : State} (line : Line) (value : Value) :
    (object line value).Ends state (fun ref after => value = .obj ref ∧ after = state)
      fun _ after => after = state := by
  unfold object
  split
  · exact ⟨rfl, rfl⟩
  · exact ends_mismatch _ _ line

theorem ends_function {state : State} (line : Line) (value : Value) :
    (function line value).Ends state
      (fun ref after => value = .obj ref ∧ state.heap.isFunction ref = true ∧ after = state)
      fun _ after => after = state := by
  unfold function
  split
  · simp only [ends_bind, ends_view, ends_ite]
    split
    · exact ⟨rfl, ‹_›, rfl⟩
    · exact ends_notFunction _ line
  · exact ends_notFunction _ line

end Eval

/-! ## Functions of the language -/

namespace Builtin

open ScriptTree.Action

theorem ends_operands {state : State} (symbol : String) (values : List Value) :
    (operands symbol values).Ends state (fun _ after => after = state)
      fun _ after => after = state := by
  match values with
  | [] | [_] | _ :: _ :: _ :: _ => exact rfl
  | [_, _] => exact rfl

theorem ends_integerOperand {state : State} (symbol : String) (value : Value) :
    (integerOperand symbol value).Ends state (fun n after => value = .int n ∧ after = state)
      fun _ after => after = state := by
  unfold integerOperand
  split
  · exact ⟨rfl, rfl⟩
  · rw [ends_bind]
    exact (ends_shown _).mono (fun text after same => same) fun fault after same => same.2

/-- A function of the language gives undefined or an integer, and touches no object. -/
theorem ends_run {state : State} (builtin : Builtin) (values : List Value) :
    (builtin.run values).Ends state
      (fun result after =>
        (result = .undefined ∨ ∃ n, result = .int n) ∧ after.heap = state.heap)
      fun _ after => after.heap = state.heap := by
  cases builtin with
  | print =>
      simp only [run, ends_bind]
      refine (quiet_log _ _).mono (fun _ logged sameLog => ?_) fun _ _ same => same
      refine (ends_shown _).mono (fun _ shown sameShown => ?_) fun _ _ same => same.2 ▸ sameLog
      subst sameShown
      refine (quiet_writeLine _ _).mono (fun _ _ same => ?_) fun _ _ same => same.trans sameLog
      exact ⟨.inl rfl, same.trans sameLog⟩
  | arithmetic symbol operation =>
      simp only [run, ends_bind]
      refine (ends_operands _ _).mono (fun pair after same => ?_) fun _ _ same => same ▸ rfl
      subst same
      refine (ends_integerOperand _ _).mono (fun a after checked => ?_) fun _ _ same => same ▸ rfl
      obtain ⟨-, rfl⟩ := checked
      refine (ends_integerOperand _ _).mono (fun b after checked => ?_) fun _ _ same => same ▸ rfl
      obtain ⟨-, rfl⟩ := checked
      cases operation.apply a b with
      | ok n => exact ⟨.inr ⟨n, rfl⟩, rfl⟩
      | error cause => exact rfl
  | equality symbol negated =>
      simp only [run, ends_bind]
      refine (ends_operands _ _).mono (fun pair after same => ?_) fun _ _ same => same ▸ rfl
      subst same
      exact ⟨.inr ⟨_, rfl⟩, rfl⟩
  | ordering symbol comparison =>
      simp only [run, ends_bind]
      refine (ends_operands _ _).mono (fun pair after same => ?_) fun _ _ same => same ▸ rfl
      subst same
      cases pair.1.compare? comparison pair.2 with
      | some holds => exact ⟨.inr ⟨_, rfl⟩, rfl⟩
      | none =>
          simp only [ends_bind]
          refine (ends_shown _).mono (fun _ after same => ?_) fun _ _ same => same.2 ▸ rfl
          subst same
          refine (ends_shown _).mono (fun _ after same => ?_) fun _ _ same => same.2 ▸ rfl
          subst same
          exact rfl

end Builtin

end ScriptTree
