import Mathlib.Data.List.Forall2
import ScriptTree.Proofs.Machine.Alone
import ScriptTree.Proofs.Sequences

/-!
# A program piece by piece

The nodes of a program may be evaluated one after another, each by itself, or some of them together
in a block (`Cut`). All that one of them leaves to the next is the state, so this comes to the same
as evaluating one block with all of them (`Script.piecewise`): in the same state, up to the first
error, and with this error. Only a `return` outside of any function is an error of whatever is
evaluated, so it has the line of the piece or of the block.

An error takes nothing back. The state is the one at the step that raised the error
(`Eval.StopsAt`), and a session may go on in it with whatever comes next (`evaluateGroups`).
-/

namespace ScriptTree

open ScriptTree.Action ScriptTree.Eval

/-! ## Evaluating one after another -/

/-- Evaluates nodes one after another, outside of any function and up to the first error. -/
def evaluateEach (settings : Settings) (scope : Ref) : List Expr → Action Unit
  | [] => pure ()
  | piece :: rest => do
      let _ ← evaluate settings piece scope
      evaluateEach settings scope rest

/-- How an action ends. -/
def Action.ending {α : Type} (action : Action α) (state : State) : Except Fault α :=
  match action state with
  | .ok result _ => .ok result
  | .error fault _ => .error fault

/-- Evaluates groups of nodes, one group after another. An error ends its group only: the next one
goes on in the state that it left. Gives the endings of all groups and the last state. -/
def evaluateGroups (settings : Settings) (scope : Ref) :
    List (List Expr) → State → List (Except Fault Unit) × State
  | [], state => ([], state)
  | group :: groups, state =>
      let later := evaluateGroups settings scope groups
        ((evaluateEach settings scope group).final state)
      ((evaluateEach settings scope group).ending state :: later.1, later.2)

/-! ## Cutting a list -/

/-- A node that stands for some nodes: for itself, or for the elements of a block. -/
inductive Piece : Expr → List Expr → Prop
  | node {node : Expr} : Piece node [node]
  | block {body : Block Expr} : Piece (.block body) body.instrs

/-- Pieces that stand for the nodes of a list, in their order. -/
inductive Cut : List Expr → List Expr → Prop
  | nil : Cut [] []
  | cons {piece : Expr} {nodes pieces rest : List Expr} (first : Piece piece nodes)
      (others : Cut pieces rest) : Cut (piece :: pieces) (nodes ++ rest)

/-- The list is cut into consecutive blocks. -/
theorem cut_blocks (chunks : List (Block Expr)) :
    Cut (chunks.map .block) (chunks.map Block.instrs).flatten := by
  induction chunks with
  | nil => exact .nil
  | cons chunk chunks ih => exact .cons .block ih

/-- Every node is a piece of its own. -/
theorem cut_nodes (nodes : List Expr) : Cut nodes nodes := by
  induction nodes with
  | nil => exact .nil
  | cons node nodes ih => exact .cons .node ih

/-! ## The step of an error -/

namespace Moment

variable {settings : Settings} {limit : Nat} {moment next : Moment}

/-- A step that raises an error changes no object. -/
theorem Move.heap_of_raise (move : Move moment next)
    (calm : ∀ fault, moment.focus ≠ .raise fault) {fault : Fault}
    (raised : next.focus = .raise fault) : next.state.heap = moment.state.heap := by
  cases move with
  | perform does => exact absurd raised does.focus_ne_raise
  | resume resumes => exact absurd raised resumes.focus_ne_raise
  | refuse same | reject same => exact same
  | pass => cases raised
  | unwind => exact absurd rfl (calm _)
  | rest ended => rfl

/-- Once an error is raised, nothing changes any more. -/
theorem Move.state_of_raise (move : Move moment next) {fault : Fault}
    (raised : moment.focus = .raise fault) : next.state = moment.state := by
  cases move with
  | unwind => rfl
  | rest => rfl
  | _ => cases raised

/-- An error that is under way was raised at some step. -/
theorem exists_raised {n : Nat} (calm : ∀ fault, moment.focus ≠ .raise fault) {fault : Fault}
    (raised : ((Moment.next settings limit)^[n] moment).focus = .raise fault) :
    ∃ k given, (∀ fault, ((Moment.next settings limit)^[k] moment).focus ≠ .raise fault) ∧
      ((Moment.next settings limit)^[k + 1] moment).focus = .raise given ∧
      ((Moment.next settings limit)^[k + 1] moment).state =
        ((Moment.next settings limit)^[n] moment).state ∧
      ((Moment.next settings limit)^[k] moment).state.heap =
        ((Moment.next settings limit)^[n] moment).state.heap := by
  induction n generalizing fault with
  | zero => exact absurd raised (calm fault)
  | succ n ih =>
      have move : Move ((Moment.next settings limit)^[n] moment)
          ((Moment.next settings limit)^[n + 1] moment) := by
        rw [Function.iterate_succ_apply']
        exact move_next _
      by_cases before : ∃ earlier, ((Moment.next settings limit)^[n] moment).focus = .raise earlier
      · obtain ⟨earlier, before⟩ := before
        rw [move.state_of_raise before]
        exact ih before
      · have here := not_exists.mp before
        exact ⟨n, fault, here, raised, rfl, (move.heap_of_raise here raised).symm⟩

end Moment

/-- The evaluation of a node comes to a step that raises an error. That step changes no object, and
the state is what it leaves. -/
def Eval.StopsAt (settings : Settings) (node : Expr) (scope : Ref) (state after : State) : Prop :=
  ∃ k given,
    (∀ fault, ((Moment.next settings settings.depth)^[k]
      (.start ⟨[], node⟩ scope state)).focus ≠ .raise fault) ∧
    ((Moment.next settings settings.depth)^[k + 1]
      (.start ⟨[], node⟩ scope state)).focus = .raise given ∧
    ((Moment.next settings settings.depth)^[k + 1]
      (.start ⟨[], node⟩ scope state)).state = after ∧
    ((Moment.next settings settings.depth)^[k]
      (.start ⟨[], node⟩ scope state)).state.heap = after.heap

theorem Eval.stopsAt_of_error {settings : Settings} {node : Expr} {scope : Ref}
    {state after : State} {fault : Fault}
    (failed : evaluator settings settings.depth node scope state = .error fault after) :
    StopsAt settings node scope state after := by
  obtain ⟨n, origins, reached⟩ := Moment.arrives_evaluator settings settings.depth settings.depth
    ⟨[], node⟩ scope [] state (fun _ => []) (Nat.zero_add _)
  rw [failed] at reached
  change (Moment.next settings settings.depth)^[n] (.start ⟨[], node⟩ scope state) = _ at reached
  have raised : ((Moment.next settings settings.depth)^[n]
      (.start ⟨[], node⟩ scope state)).focus = .raise fault := by
    rw [reached]
    rfl
  have calm (fault : Fault) : (Moment.start ⟨[], node⟩ scope state).focus ≠ .raise fault := nofun
  have stops := Moment.exists_raised calm raised
  rw [reached] at stops
  exact stops

/-! ## Pieces and the whole -/

/-- How the pieces of a block and the block itself end, evaluated in a scope and a state.
* All of them give values, and so does the block.
* The first pieces give values, and the next one fails where the block fails.
* The first pieces give values, and the next one is left by a `return`. This is an error of the
  piece on the one side and of the block on the other.

Either way both end in one state. -/
inductive Piecewise (settings : Settings) (scope : Ref) (line : Line) (pieces : List Expr)
    (state : State) : EStateM.Result Fault State Unit → EStateM.Result Fault State Value → Prop
  | ends {after : State} :
    Piecewise settings scope line pieces state (.ok () after) (.ok .undefined after)
  | fails {before rest : List Expr} {piece : Expr} {between after : State} {fault : Fault}
      (split : pieces = before ++ piece :: rest)
      (done : evaluateEach settings scope before state = .ok () between)
      (failed : evaluator settings settings.depth piece scope between = .error fault after)
      (stops : StopsAt settings piece scope between after) :
    Piecewise settings scope line pieces state (.error fault after) (.error fault after)
  | returns {before rest : List Expr} {piece : Expr} {between after : State} {value : Value}
      (split : pieces = before ++ piece :: rest)
      (done : evaluateEach settings scope before state = .ok () between)
      (returned : evaluator settings settings.depth piece scope between =
        .ok (.returning value) after) :
    Piecewise settings scope line pieces state
      (.error (.failure ⟨.strayReturn, piece.line⟩) after)
      (.error (.failure ⟨.strayReturn, line⟩) after)

theorem Piecewise.cons {settings : Settings} {scope : Ref} {line : Line} {piece : Expr}
    {pieces : List Expr} {state between : State} {value : Value}
    {outcome : EStateM.Result Fault State Unit} {whole : EStateM.Result Fault State Value}
    (first : evaluate settings piece scope state = .ok value between)
    (later : Piecewise settings scope line pieces between outcome whole) :
    Piecewise settings scope line (piece :: pieces) state outcome whole := by
  have onward {before : List Expr} {after : State}
      (done : evaluateEach settings scope before between = .ok () after) :
      evaluateEach settings scope (piece :: before) state = .ok () after := by
    rw [evaluateEach, bind_apply, first]
    exact done
  cases later with
  | ends => exact .ends
  | fails split done failed stops =>
      exact .fails (congrArg (piece :: ·) split) (onward done) failed stops
  | returns split done returned =>
      exact .returns (congrArg (piece :: ·) split) (onward done) returned

/-- How a node ends outside of any function, where a `return` is an error. -/
def Eval.outside (line : Line) : EStateM.Result Fault State (Completion Value) →
    EStateM.Result Fault State Value
  | .ok (.value result) after => .ok result after
  | .ok (.returning _) after => .error (.failure ⟨.strayReturn, line⟩) after
  | .error fault after => .error fault after

section Pieces

variable {settings : Settings} {depth : Nat} {scope : Ref} {piece : Expr}
  {nodes pieces rest : List Expr} {state : State}

theorem evaluate_apply (settings : Settings) (node : Expr) (scope : Ref) (state : State) :
    evaluate settings node scope state =
      outside node.line (evaluator settings settings.depth node scope state) := by
  rw [evaluate, bind_apply]
  cases evaluator settings settings.depth node scope state with
  | ok completion after => cases completion <;> rfl
  | error fault after => rfl

/-- There is room for some evaluation under every limit. -/
theorem Settings.exists_depth_eq_succ (settings : Settings) :
    ∃ depth, settings.depth = depth + 1 := by
  refine Nat.exists_eq_succ_of_ne_zero ?_
  unfold depth effectiveLimit leastLimit
  omega

/-- A sequence begins with a piece as with the nodes for which it stands, if the limit leaves room
for these. -/
theorem Piece.sequence_append (stands : Piece piece nodes)
    (inside : ∀ after, sequence (evaluator settings depth) scope (nodes ++ rest) state ≠
      .error .tooDeep after) :
    sequence (evaluator settings depth) scope (nodes ++ rest) state =
      (evaluator settings (depth + 1) piece scope >>= fun completion =>
        completion.andThen fun _ => sequence (evaluator settings depth) scope rest) state := by
  cases stands with
  | block =>
      rw [Eval.sequence_append]
      rfl
  | node =>
      rw [List.singleton_append, sequence_cons] at inside ⊢
      have room (after : State) :
          evaluator settings depth piece scope state ≠ .error .tooDeep after := by
        intro tooDeep
        refine inside after ?_
        rw [bind_apply, tooDeep]
      rw [bind_apply, bind_apply, evaluator_of_le (Nat.le_succ depth) room]

/-- The pieces of a list end as the sequence of its nodes does, if the limit leaves room for it. -/
theorem Cut.piecewise (cut : Cut pieces nodes) (room : settings.depth = depth + 1) (line : Line)
    (inside : ∀ after, sequence (evaluator settings depth) scope nodes state ≠
      .error .tooDeep after) :
    Piecewise settings scope line pieces state (evaluateEach settings scope pieces state)
      (outside line (sequence (evaluator settings depth) scope nodes state)) := by
  induction cut generalizing state with
  | nil => exact .ends
  | @cons piece nodes pieces rest first _ ih =>
      have starts := evaluate_apply settings piece scope state
      have same := first.sequence_append inside
      have split : piece :: pieces = [] ++ piece :: pieces := rfl
      rw [bind_apply, ← room] at same
      rw [same] at inside ⊢
      rw [evaluateEach, bind_apply]
      cases outcome : evaluator settings settings.depth piece scope state with
      | error fault after =>
          rw [outcome] at starts
          rw [starts]
          exact .fails split rfl outcome (stopsAt_of_error outcome)
      | ok completion after =>
          rw [outcome] at starts inside
          rw [starts]
          cases completion with
          | value result => exact .cons starts (ih inside)
          | returning result => exact .returns split rfl outcome

end Pieces

/-! ## Sessions -/

/-- Two endings: one and the same, or both a `return` outside of any function. -/
inductive SameButReturnLine : Except Fault Unit → Except Fault Unit → Prop
  | same {ending : Except Fault Unit} : SameButReturnLine ending ending
  | strayReturn {line line' : Line} :
    SameButReturnLine (.error (.failure ⟨.strayReturn, line⟩))
      (.error (.failure ⟨.strayReturn, line'⟩))

section Sessions

variable {settings : Settings} {scope : Ref} {line : Line} {pieces : List Expr} {body : Block Expr}
  {state : State}

/-- Pieces and the whole leave one state, and the same error but for the line of a `return`. -/
theorem Piecewise.ends_alike
    (piecewise : Piecewise settings scope line pieces state
      (evaluateEach settings scope pieces state) (evaluate settings (.block body) scope state)) :
    (evaluateEach settings scope pieces).final state =
        (evaluateEach settings scope [.block body]).final state ∧
      SameButReturnLine ((evaluateEach settings scope pieces).ending state)
        ((evaluateEach settings scope [.block body]).ending state) := by
  have whole : evaluateEach settings scope [.block body] state =
      ((fun _ => ()) <$> evaluate settings (.block body) scope) state := by
    rw [evaluateEach, bind_apply, map_apply]
    cases evaluate settings (.block body) scope state <;> rfl
  unfold Action.final Action.ending
  rw [whole, map_apply]
  generalize evaluateEach settings scope pieces state = outcome at piecewise
  generalize evaluate settings (.block body) scope state = outcome' at piecewise
  cases piecewise with
  | ends => exact ⟨rfl, .same⟩
  | fails => exact ⟨rfl, .same⟩
  | returns => exact ⟨rfl, .strayReturn⟩

end Sessions

/-- Running a program piece by piece equals running it whole, in any scope and any state, also one
that an error has left. Evaluated one after another up to the first error, the pieces into which the
elements of a block are cut end as the block does, if that does not hit the depth limit: in the same
state, with the same lines printed and the same objects, and with the same error on the same line,
but for the line of a `return` that leaves everything. If a piece fails, the state is the one at the
step that failed.

So two sessions that go on after errors, one piece by piece and one block by block, stay in the same
states and have the same errors. -/
theorem evaluateEach_piecewise (settings : Settings) (scope : Ref) (state : State) :
    (∀ pieces body, Cut pieces body.instrs →
      (∀ after, evaluate settings (.block body) scope state ≠ .error .tooDeep after) →
        Piecewise settings scope body.line pieces state (evaluateEach settings scope pieces state)
          (evaluate settings (.block body) scope state)) ∧
    ∀ groups bodies, List.Forall₂ (fun pieces body => Cut pieces body.instrs) groups bodies →
      (∀ ending ∈ (evaluateGroups settings scope (bodies.map fun body => [.block body]) state).1,
        ending ≠ .error .tooDeep) →
      (evaluateGroups settings scope groups state).2 =
          (evaluateGroups settings scope (bodies.map fun body => [.block body]) state).2 ∧
        List.Forall₂ SameButReturnLine (evaluateGroups settings scope groups state).1
          (evaluateGroups settings scope (bodies.map fun body => [.block body]) state).1 := by
  have one (pieces : List Expr) (body : Block Expr) (state : State) (cut : Cut pieces body.instrs)
      (inside : ∀ after, evaluate settings (.block body) scope state ≠ .error .tooDeep after) :
      Piecewise settings scope body.line pieces state (evaluateEach settings scope pieces state)
        (evaluate settings (.block body) scope state) := by
    obtain ⟨depth, room⟩ := settings.exists_depth_eq_succ
    rw [evaluate_apply, room, evaluator_block] at inside ⊢
    refine cut.piecewise room body.line fun after tooDeep => inside after ?_
    rw [tooDeep]
    rfl
  refine ⟨fun pieces body => one pieces body state, fun groups bodies cuts => ?_⟩
  induction cuts generalizing state with
  | nil => exact fun _ => ⟨rfl, .nil⟩
  | @cons pieces body groups bodies cut _ ih =>
      intro inside
      obtain ⟨first, others⟩ := List.forall_mem_cons.mp inside
      have alike := (one pieces body state cut fun after tooDeep => first ?_).ends_alike
      · obtain ⟨same, ending⟩ := alike
        rw [List.map_cons, evaluateGroups, evaluateGroups, same]
        obtain ⟨last, endings⟩ := ih _ others
        exact ⟨last, .cons ending endings⟩
      · rw [Action.ending, evaluateEach, bind_apply, tooDeep]

/-- A program in a block: a function, a call of it whose value is printed, and a `return`. -/
def wholeReturn : Block Expr :=
  ⟨some 1, [
    .function none (some "f") ["x"] ⟨none, [.returns none (.var none "x")]⟩,
    .call none (.var none "print") [.call none (.var none "f") [.literal none (.str "a")]],
    .returns (some 9) (.call none (.var none "f") [.literal none (.str "b")])]⟩

/-- The function stands in a block of its own. -/
theorem cut_wholeReturn : Cut
    [.block ⟨none, wholeReturn.instrs.take 1⟩, .block ⟨some 4, wholeReturn.instrs.drop 1⟩]
    wholeReturn.instrs :=
  cut_blocks [⟨none, wholeReturn.instrs.take 1⟩, ⟨some 4, wholeReturn.instrs.drop 1⟩]

/-- What follows on it in a session calls the function. -/
def laterCall : Block Expr :=
  ⟨some 12, [
    .call none (.var none "print") [.call none (.var none "f") [.literal none (.str "c")]]]⟩

theorem evaluateEach_piecewise_wholeReturn : ∃ pieces state,
    Cut pieces wholeReturn.instrs ∧
    (∀ after, evaluate .standard (.block wholeReturn) Heap.root state ≠ .error .tooDeep after) ∧
    Piecewise .standard Heap.root (some 1) pieces state
      (evaluateEach .standard Heap.root pieces state)
      (evaluate .standard (.block wholeReturn) Heap.root state) ∧
    (∀ ending ∈ (evaluateGroups .standard Heap.root
      [[.block wholeReturn], [.block laterCall]] state).1, ending ≠ .error .tooDeep) ∧
    (evaluateGroups .standard Heap.root [pieces, laterCall.instrs] state).2 =
      (evaluateGroups .standard Heap.root [[.block wholeReturn], [.block laterCall]] state).2 ∧
    List.Forall₂ SameButReturnLine
      (evaluateGroups .standard Heap.root [pieces, laterCall.instrs] state).1
      (evaluateGroups .standard Heap.root [[.block wholeReturn], [.block laterCall]] state).1 := by
  have returns : ∃ failure after, evaluate .standard (.block wholeReturn) Heap.root
      (Script.start .standard .empty) = .error (.failure failure) after := ⟨_, _, rfl⟩
  have inside (after : State) : evaluate .standard (.block wholeReturn) Heap.root
      (Script.start .standard .empty) ≠ .error .tooDeep after := by
    intro tooDeep
    rw [tooDeep] at returns
    obtain ⟨_, _, ⟨⟩⟩ := returns
  have endings : (evaluateGroups .standard Heap.root [[.block wholeReturn], [.block laterCall]]
      (Script.start .standard .empty)).1 =
        [.error (.failure ⟨.strayReturn, some 1⟩), .ok ()] := rfl
  have insideAll : ∀ ending ∈ (evaluateGroups .standard Heap.root
      [[.block wholeReturn], [.block laterCall]] (Script.start .standard .empty)).1,
      ending ≠ .error .tooDeep := by
    rw [endings]
    simp
  obtain ⟨one, all⟩ := evaluateEach_piecewise .standard Heap.root (Script.start .standard .empty)
  exact ⟨_, _, cut_wholeReturn, inside, one _ _ cut_wholeReturn inside, insideAll,
    all _ [wholeReturn, laterCall] (.cons cut_wholeReturn (.cons (cut_nodes _) .nil)) insideAll⟩

end ScriptTree
