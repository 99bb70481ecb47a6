import ScriptTree.Proofs.Machine.Adequacy
import ScriptTree.Proofs.Machine.Effects

/-!
# What is next, by itself

The evaluation or the invocation that is next at a moment is a run of its own, without the
evaluations that wait for it (`Moment.alone`). It comes to the outcome that the evaluator gives,
with as many evaluations nested as those that wait leave of the limit.

So what every move keeps is kept by a whole evaluation, whatever the node, the scope and the state
in which it begins (`Moment.holds_ended`).
-/

namespace ScriptTree

/-- The state that an action ends in, in whichever way it ends. -/
def Action.final {α : Type} (action : Action α) (state : State) : State :=
  match action state with
  | .ok _ after | .error _ after => after

/-- The result of a call is that of what it invokes, and so is the state. -/
theorem Eval.final_invoke (self : Evaluator) (callee : Ref) (receiver : Value)
    (values : List Value) (state : State) :
    (invoke self callee receiver values).final state =
      (invoked self callee receiver values ((state.heap.get? callee).bind Object.body)).final
        state := by
  rw [invoke_eq]
  unfold Action.final
  rw [Action.bind_apply]
  dsimp only [Action.view]
  rw [Action.map_apply]
  cases invoked self callee receiver values _ state <;> rfl

namespace Moment

variable {moment : Moment} {settings : Settings} {limit : Nat}

/-- The evaluator at a moment: as many evaluations may still be nested as those that wait leave of
the limit. -/
def evaluator (settings : Settings) (moment : Moment) : Evaluator :=
  Eval.evaluator settings (settings.depth - moment.frames.length)

/-- What is next, step by step and by itself: without the evaluations that wait for it, and with as
many nested in it as they leave of the limit. -/
def alone (settings : Settings) (moment : Moment) (k : Nat) : Moment :=
  (Moment.next settings (settings.depth - moment.frames.length))^[k] { moment with frames := [] }

theorem move_alone (settings : Settings) (moment : Moment) (k : Nat) :
    Move (moment.alone settings k) (moment.alone settings (k + 1)) := by
  rw [alone, alone, Function.iterate_succ_apply']
  exact move_next _

/-- An outcome of the machine is that of an action when it ends in the same state. -/
theorem Arrives.exists_final {action : Action (Completion Value)} {state : State}
    (arrives : moment.Arrives settings limit [] (action state)) :
    ∃ last, ((Moment.next settings limit)^[last] moment).Ended ∧
      ((Moment.next settings limit)^[last] moment).state = action.final state := by
  obtain ⟨last, origins, reached⟩ := arrives
  refine ⟨last, ?_⟩
  rw [reached, Action.final]
  cases action state with
  | ok completion after => exact ⟨⟨rfl, nofun⟩, rfl⟩
  | error fault after => exact ⟨⟨rfl, nofun⟩, rfl⟩

/-- An evaluation by itself comes to its outcome. -/
theorem exists_alone_evaluated (settings : Settings) {code : Occurrence} {scope : Ref}
    (evaluates : moment.focus = .task (.eval code scope)) :
    ∃ last, (moment.alone settings last).Ended ∧
      (moment.alone settings last).state =
        (moment.evaluator settings code.node scope).final moment.state := by
  obtain ⟨focus, frames, state, origins⟩ := moment
  cases evaluates
  exact (arrives_evaluator settings _ _ code scope [] state origins (Nat.zero_add _)).exists_final

/-- An invocation by itself comes to its outcome. -/
theorem exists_alone_invoked (settings : Settings) {callee : Ref} {receiver : Value}
    {values : List Value} (invokes : moment.focus = .task (.invoke callee receiver values)) :
    ∃ last, (moment.alone settings last).Ended ∧
      (moment.alone settings last).state =
        (Eval.invoke (moment.evaluator settings) callee receiver values).final moment.state := by
  obtain ⟨focus, frames, state, origins⟩ := moment
  cases invokes
  rw [Eval.final_invoke]
  exact (arrives_invoked (arrives_evaluator settings _ _) (Nat.zero_add _) callee receiver values
    state origins).exists_final

/-- What every move keeps holds at the end of an evaluation, if it holds at the beginning. -/
theorem holds_ended {P : Moment → Prop} (kept : ∀ {a b}, Move a b → P a → P b)
    (settings : Settings) (depth : Nat) (node : Expr) (scope : Ref) {state : State}
    (begun : P (.start ⟨[], node⟩ scope state)) :
    ∃ origins, P (ended [] origins (Eval.evaluator settings depth node scope state)) := by
  obtain ⟨n, origins, reached⟩ := arrives_evaluator settings depth depth ⟨[], node⟩ scope [] state
    (fun _ => []) (Nat.zero_add depth)
  refine ⟨origins, ?_⟩
  rw [← reached]
  exact holds_iterate kept begun n

end Moment

/-- An evaluation takes no object away, in whichever way it ends. -/
theorem Eval.ends_grows (settings : Settings) (depth : Nat) (node : Expr) (scope : Ref)
    (state : State) :
    (evaluator settings depth node scope).Ends state (fun _ after => state.heap.Grows after.heap)
      fun _ after => state.heap.Grows after.heap := by
  obtain ⟨origins, grows⟩ :=
    Moment.holds_ended (P := fun moment => state.heap.Grows moment.state.heap)
      (fun move grows => grows.trans move.steps.grows) settings depth node scope (.refl _)
  unfold Action.Ends
  cases outcome : evaluator settings depth node scope state with
  | ok completion after | error fault after =>
      rw [outcome] at grows
      exact grows

end ScriptTree
