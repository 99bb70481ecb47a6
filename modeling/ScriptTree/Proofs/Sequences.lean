import ScriptTree.Proofs.RecursionLimit

/-!
# Blocks inside sequences

The elements of a block are evaluated in the scope of the block and in the state that those before
have left, and the block adds nothing to that: no scope and no value. So a sequence may be taken
apart anywhere (`Eval.sequence_append`), and a block among its elements stands for its own elements
(`Eval.sequence_block`). The only difference is the depth: a block takes one of the evaluations that
may be nested.
-/

namespace ScriptTree

namespace Eval

open ScriptTree.Action

/-- A sequence goes on with its second part after the value of the first. -/
theorem sequence_append (self : Evaluator) (scope : Ref) (first rest : List Expr) :
    sequence self scope (first ++ rest) =
      sequence self scope first >>= fun completion =>
        completion.andThen fun _ => sequence self scope rest := by
  induction first with
  | nil => exact (Completion.pure_value_andThen _ _).symm
  | cons node first ih =>
      rw [List.cons_append, sequence_cons, sequence_cons, Completion.andThen_assoc, ih]

variable {settings : Settings} {small large : Nat} {scope : Ref} {nodes : List Expr} {state : State}

/-- A block is evaluated as the sequence of its elements, with one fewer evaluation allowed. -/
theorem evaluator_block (settings : Settings) (depth : Nat) (body : Block Expr) (scope : Ref) :
    evaluator settings (depth + 1) (.block body) scope =
      sequence (evaluator settings depth) scope body.instrs :=
  rfl

/-- A sequence that does not end by the limit ends in the same way when more evaluations may be
nested. -/
theorem sequence_of_le (le : small ≤ large)
    (inside : ∀ after, sequence (evaluator settings small) scope nodes state ≠
      .error .tooDeep after) :
    sequence (evaluator settings large) scope nodes state =
      sequence (evaluator settings small) scope nodes state := by
  have deeper := @evaluator_of_le settings _ _ (Nat.succ_le_succ le) (.block ⟨none, nodes⟩) scope
    state
  rw [evaluator_block, evaluator_block] at deeper
  exact deeper inside

/-- A block at the head of a sequence stands for its elements, unless the limit leaves no room for
it. -/
theorem sequence_block (settings : Settings) (depth : Nat) (scope : Ref) (body : Block Expr)
    (rest : List Expr) (state : State) :
    (∃ after, sequence (evaluator settings depth) scope (.block body :: rest) state =
      .error .tooDeep after) ∨
    sequence (evaluator settings depth) scope (.block body :: rest) state =
      sequence (evaluator settings depth) scope (body.instrs ++ rest) state := by
  rw [sequence_cons, sequence_append, bind_apply, bind_apply]
  cases depth with
  | zero => exact .inl ⟨state, rfl⟩
  | succ depth =>
      rw [evaluator_block]
      by_cases full : ∃ after, sequence (evaluator settings depth) scope body.instrs state =
        .error .tooDeep after
      · rcases full with ⟨after, tooDeep⟩
        rw [tooDeep]
        exact .inl ⟨after, rfl⟩
      · have inside := not_exists.mp full
        rw [sequence_of_le (Nat.le_succ depth) inside]
        exact .inr rfl

end Eval

end ScriptTree
