import ScriptTree.Proofs.Pairing.Reached
import ScriptTree.Proofs.RecursionLimit

/-!
# Expressions without an effect

The evaluation of a pure expression (`Expr.Pure`) reads variables and adds objects, and does nothing
else. Its value is dropped in a block. So a pure expression may stand anywhere in a block, or be
left out: `Script.pure_insertion` says that the run prints the same lines and ends in the same way,
and that it leaves the same objects as far as they can be reached from the root scope.

The objects of the one run stand at other references than those of the other, and functions differ
in their bodies if the expression stands there. So heaps are compared up to references, and
functions by their names and fields (`Heap.Copies`).
-/

namespace ScriptTree

open ScriptTree.Action ScriptTree.Eval

/-! ## Pure expressions -/

/-- An expression whose evaluation has no effect: a constant, a variable, a function without a name,
or a record or a block of pure expressions. -/
inductive Expr.Pure : Expr → Prop
  | literal {line : Line} {value : Literal} : Pure (.literal line value)
  | var {line : Line} {name : String} : Pure (.var line name)
  | function {line : Line} {parameters : List String} {body : Block Expr} :
    Pure (.function line none parameters body)
  | record {line : Line} {fields : List (String × Expr)} (parts : ∀ field ∈ fields, Pure field.2) :
    Pure (.record line fields)
  | block {body : Block Expr} (parts : ∀ expr ∈ body.instrs, Pure expr) : Pure (.block body)

section Unseen

variable {α β : Type}

theorem unseen_pure (result : α) : (pure (.value result) : Action (Completion α)).Unseen :=
  fun state => .inr ⟨result, state, rfl, rfl, rfl, .refl _ _⟩

theorem unseen_add (object : Object) :
    (do let ref ← add object
        pure (.value (.obj ref)) : Action (Completion Value)).Unseen :=
  fun _ => .inr ⟨_, _, rfl, rfl, rfl, .add _ _ _⟩

/-- What goes on unseen with a value that was found unseen is not seen. -/
theorem Action.Unseen.step {first : Action (Completion β)} {next : β → Action (Completion α)}
    (unseen : first.Unseen) (further : ∀ result, (next result).Unseen) :
    (first >>= fun completion => completion.andThen next).Unseen := by
  intro state
  rw [bind_apply]
  rcases unseen state with ⟨after, tooDeep⟩ | ⟨value, between, evaluated, sink, log, steps⟩
  · rw [tooDeep]
    exact .inl ⟨after, rfl⟩
  · rw [evaluated]
    refine (further value between).imp_right fun ⟨result, after, ended, sink', log', steps'⟩ => ?_
    exact ⟨result, after, ended, sink'.trans sink, log'.trans log, steps.trans steps'⟩

variable {self : Evaluator} {scope : Ref}

theorem unseen_sequence {exprs : List Expr} (all : ∀ expr ∈ exprs, (self expr scope).Unseen) :
    (sequence self scope exprs).Unseen := by
  induction exprs with
  | nil => exact unseen_pure _
  | cons expr rest ih =>
      obtain ⟨first, others⟩ := List.forall_mem_cons.mp all
      rw [sequence_cons]
      exact first.step fun _ => ih others

theorem unseen_fieldValues {fields : List (String × Expr)}
    (all : ∀ field ∈ fields, (self field.2 scope).Unseen) :
    (fieldValues self scope fields).Unseen := by
  induction fields with
  | nil => exact unseen_pure _
  | cons field rest ih =>
      obtain ⟨first, others⟩ := List.forall_mem_cons.mp all
      rw [fieldValues]
      exact first.step fun _ => (ih others).step fun _ => unseen_pure _

/-- The evaluation of a pure expression is not seen. -/
theorem Expr.Pure.unseen {expr : Expr} (pure : expr.Pure) (settings : Settings) (depth : Nat)
    (scope : Ref) : (evaluator settings depth expr scope).Unseen := by
  induction pure generalizing depth scope with
  | literal =>
      cases depth with
      | zero => exact fun state => .inl ⟨state, rfl⟩
      | succ depth => exact unseen_pure _
  | var =>
      cases depth with
      | zero => exact fun state => .inl ⟨state, rfl⟩
      | succ depth => exact fun state => .inr ⟨_, state, rfl, rfl, rfl, .refl _ _⟩
  | function =>
      cases depth with
      | zero => exact fun state => .inl ⟨state, rfl⟩
      | succ depth => exact unseen_add _
  | record _ ih =>
      cases depth with
      | zero => exact fun state => .inl ⟨state, rfl⟩
      | succ depth =>
          have parts := unseen_fieldValues fun field listed => ih field listed depth scope
          exact parts.step fun _ => unseen_add _
  | block _ ih =>
      cases depth with
      | zero => exact fun state => .inl ⟨state, rfl⟩
      | succ depth => exact unseen_sequence fun expr listed => ih expr listed depth scope

end Unseen

/-! ## The two programs -/

/-- A block with an expression inserted. -/
def Expr.insertAt (position : Nat) (added : Expr) : Expr → Expr
  | .block body => .block { body with instrs := body.instrs.insertIdx position added }
  | expr => expr

/-- A program with an expression inserted in the block at a place. -/
def Script.insertAt (script : Script) (place : Place) (position : Nat) (added : Expr) : Script :=
  script.mapAt (Expr.insertAt position added) place

namespace PureInsertion

/-- The code of the two programs. -/
inductive Code (position : Nat) (added : Expr) : Expr → Expr → Prop
  | same {node : Expr} : Code position added node node
  | below {path : List Nat} {node : Expr} :
    Code position added node (node.mapAt (Expr.insertAt position added) path)

/-- A program, and the program with a pure expression inserted. -/
def pairing (position : Nat) (added : Expr) : Pairing Unit where
  toNaming := .same
  code _ := Code position added
  line := Eq
  line_refl := Eq.refl
  line_orElse := @Line.orElse_congr
  unknown := fun name name' => name' = name
  inserted := Expr.Pure

variable {position : Nat} {added : Expr}

theorem aligned_insertIdx (pure : added.Pure) (exprs : List Expr) (i : Nat) :
    Aligned (Code position added) Expr.Pure False exprs (exprs.insertIdx i added) := by
  have same (exprs : List Expr) : Aligned (Code position added) Expr.Pure False exprs exprs :=
    .of_forall₂ (List.forall₂_same.mpr fun _ _ => .same)
  induction exprs generalizing i with
  | nil =>
      cases i with
      | zero => exact .insert pure (same [])
      | succ i => exact same []
  | cons expr rest ih =>
      cases i with
      | zero => exact .insert pure (same (expr :: rest))
      | succ i => exact .cons .same (ih i)

theorem nodes_mapChildren {node : Expr} {change : Nat → Expr → Expr}
    (blocks : ∀ i body, ∃ body', change i (.block body) = .block body')
    (children : ∀ i child, Code position added child (change i child)) :
    (pairing position added).Nodes () node (node.mapChildren change) := by
  have nodes : (pairing position added).Nodes () node
      ((node.mapChildren change).renameOwn id) :=
    Pairing.nodes_mapChildren () change blocks (fun i child _ => children i child)
      (fun _ _ => trivial) (fun _ _ _ _ => rfl) fun _ _ _ _ _ => rfl
  rwa [Expr.renameOwn_id] at nodes

theorem nodes_same (node : Expr) : (pairing position added).Nodes () node node :=
  Pairing.nodes_same () (fun _ => Code.same) (fun _ => trivial) (fun _ => rfl) rfl node

theorem insertAt_block (body : Block Expr) :
    ∃ body', Expr.insertAt position added (.block body) = .block body' :=
  ⟨_, rfl⟩

theorem lawful (pure : added.Pure) : (pairing position added).Lawful where
  unseen := fun inserted settings depth scope => inserted.unseen settings depth scope
  nodes := by
    intro region node node' codes
    cases codes with
    | same => exact nodes_same node
    | @below path =>
        cases path with
        | nil =>
            cases node with
            | block body => exact .block rfl (aligned_insertIdx pure _ _)
            | _ => exact nodes_same _
        | cons i path =>
            refine nodes_mapChildren (fun j body => ?_) fun j child => ?_
            · split
              · exact Expr.mapAt_block insertAt_block path body
              · exact ⟨body, rfl⟩
            · split
              · exact .below
              · exact .same

theorem sameReached {report report' : Report}
    (reports : (pairing position added).Reports report report') : report.SameReached report' :=
  reports.sameReached Eq.symm id

end PureInsertion

namespace Script

open PureInsertion

/-- A pure expression may be inserted anywhere in a block of a program, or be left out there. If the
run with the expression does not hit the depth limit, then both runs are refused, or they print the
same lines, end in the same way, with the same failure on the same line, and leave the same objects,
as far as these can be reached. -/
theorem pure_insertion (script : Script) (place : Place) (position : Nat) {added : Expr}
    (pure : added.Pure) (settings : Settings) (sink : Sink) (log : Log)
    (fits : ¬ (script.insertAt place position added).HitsLimit settings sink log) :
    RunsAlike Report.SameReached (script.run (.sink sink) settings log)
      ((script.insertAt place position added).run (.sink sink) settings log) := by
  have codes : Code position added (.block script.body)
      (.block (script.insertAt place position added).body) := by
    have below : Code position added (.block script.body)
        (Expr.mapAt (Expr.insertAt position added) place.reverse (.block script.body)) := .below
    obtain ⟨body', same⟩ := Expr.mapAt_block insertAt_block place.reverse script.body
    rw [insertAt, mapAt, Block.changed, same]
    rwa [same] at below
  refine Pairing.runsAlike settings sink log (lawful pure) codes (fun _ _ after tooDeep => ?_)
    sameReached
  exact fits (hitsLimit_iff.mpr ⟨after, tooDeep⟩)

/-- Prints what a function gives. -/
def asking : Script :=
  ⟨⟨none, [
    .function none (some "f") [] ⟨none, [.returns none (.literal none (.str "a"))]⟩,
    .call none (.var none "print") [.call none (.var none "f") []]]⟩⟩

/-- A record with a function in it, which nothing keeps. -/
def unkept : Expr :=
  .record none [("give", .function none none [] ⟨none, [.returns none (.var none "x")]⟩),
    ("x", .var none "unset")]

theorem pure_unkept : unkept.Pure := by
  refine .record fun field listed => ?_
  rcases List.mem_cons.mp listed with rfl | listed
  · exact .function
  · obtain rfl := List.mem_singleton.mp listed
    exact .var

theorem fits_asking :
    ¬ (asking.insertAt [0, 0] 0 unkept).HitsLimit .standard .empty {} := by
  have shallow : 10 ≤ Settings.standard.depth := by decide
  refine not_hitsLimit_of_le shallow fun after failed => ?_
  have ended : (Eval.evaluator .standard 10
      (.block (asking.insertAt [0, 0] 0 unkept).body) Heap.root
      (begun (asking.insertAt [0, 0] 0 unkept) .standard .empty {}) matches .ok _ _) = true := rfl
  rw [failed] at ended
  cases ended

theorem pure_insertion_asking :
    (unkept.Pure ∧ ¬ (asking.insertAt [0, 0] 0 unkept).HitsLimit .standard .empty {}) ∧
    RunsAlike Report.SameReached (asking.run (.sink .empty) .standard {})
      ((asking.insertAt [0, 0] 0 unkept).run (.sink .empty) .standard {}) :=
  ⟨⟨pure_unkept, fits_asking⟩,
    pure_insertion asking [0, 0] 0 pure_unkept .standard .empty {} fits_asking⟩

end Script

end ScriptTree
