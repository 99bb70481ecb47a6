import ScriptTree.Proofs.Pairing.Reached

/-!
# Blocks inside blocks

A block among the elements of another one has no scope of its own, its value is dropped like that of
any element, and what leaves it or fails in it leaves or fails the block around it. So it may be
opened: its own elements take its place (`Script.openAt`). That changes nothing that can be seen of
a run, wherever the block stands, in a branch or in the body of a function too, and however many
blocks are opened (`Script.blocks_transparent`).

While such a block is evaluated, one evaluation more is active. So the run of the program before may
hit the depth limit where the other one does not. Functions that are closed over different code are
compared by their names and fields.
-/

namespace ScriptTree

open ScriptTree.Eval

/-! ## Opening a block -/

/-- The elements of a block, with those of a block at one position in its place. -/
def Expr.openIn : (position : Nat) → List Expr → List Expr
  | 0, .block body :: rest => body.instrs ++ rest
  | position + 1, expr :: rest => expr :: openIn position rest
  | _, exprs => exprs

/-- A block in which the block at a position is opened. Nothing else changes, and nothing at all if
no block stands there. -/
def Expr.openAt (position : Nat) : Expr → Expr
  | .block body => .block { body with instrs := openIn position body.instrs }
  | expr => expr

namespace Script

/-- A program in which a block is opened: the one that stands at a position in the block at a
place. -/
def openAt (script : Script) (place : Place) (position : Nat) : Script :=
  script.mapAt (Expr.openAt position) place

/-- A program comes from another one when blocks are opened there, one after another. -/
def Opens : Script → Script → Prop :=
  Relation.ReflTransGen fun script script' =>
    ∃ place position, script' = script.openAt place position

/-- The block of a branch is opened, and then a block that stood in it. -/
example : Opens
    ⟨⟨none, [.branch none (.literal none (.int 1))
      ⟨none, [.block ⟨none, [.block ⟨none, [.var none "x"]⟩, .var none "y"]⟩]⟩ ⟨none, []⟩]⟩⟩
    ⟨⟨none, [.branch none (.literal none (.int 1)) ⟨none, [.var none "x", .var none "y"]⟩
      ⟨none, []⟩]⟩⟩ :=
  .tail (.single ⟨[1, 0], 0, rfl⟩) ⟨[1, 0], 0, rfl⟩

end Script

/-! ## The two programs -/

namespace NestedBlocks

/-- The code of the two programs: this side has the block opened. -/
inductive Code (position : Nat) : Expr → Expr → Prop
  | same {node : Expr} : Code position node node
  | below {path : List Nat} {node : Expr} :
    Code position (node.mapAt (Expr.openAt position) path) node

/-- A program with a block opened, and the program. -/
def pairing (position : Nat) : Pairing Unit where
  toNaming := .same
  code _ := Code position
  line := Eq
  line_refl := Eq.refl
  line_orElse := @Line.orElse_congr
  unknown name name' := name' = name
  inserted _ := False
  nested := True

variable {position : Nat}

theorem aligned_openIn (i : Nat) (exprs : List Expr) :
    Aligned (Code position) (fun _ => False) True (Expr.openIn i exprs) exprs := by
  have same (exprs : List Expr) : Aligned (Code position) (fun _ => False) True exprs exprs :=
    .of_forall₂ (List.forall₂_same.mpr fun _ _ => .same)
  induction exprs generalizing i with
  | nil => cases i <;> exact same []
  | cons expr rest ih =>
      cases i with
      | zero =>
          cases expr with
          | block body => exact .nest trivial (same _)
          | _ => exact same _
      | succ i => exact .cons .same (ih i)

theorem nodes_changed {node : Expr} {change : Nat → Expr → Expr}
    (blocks : ∀ i body, ∃ body', change i (.block body) = .block body')
    (children : ∀ i child, Code position (change i child) child) :
    (pairing position).Nodes () (node.mapChildren change) node := by
  have nodes : (pairing position).Nodes () (node.mapChildren change)
      ((node.mapChildren fun _ child => child).renameOwn id) :=
    Pairing.nodes_changed () blocks (fun _ body => ⟨body, rfl⟩) (fun i child _ => children i child)
      (fun _ _ => trivial) (fun _ _ _ _ => rfl) fun _ _ _ _ _ => rfl
  rwa [Expr.renameOwn_id, Expr.mapChildren_id] at nodes

theorem nodes_same (node : Expr) : (pairing position).Nodes () node node :=
  Pairing.nodes_same () (fun _ => Code.same) (fun _ => trivial) (fun _ => rfl) rfl node

theorem openAt_block (body : Block Expr) :
    ∃ body', Expr.openAt position (.block body) = .block body' :=
  ⟨_, rfl⟩

theorem lawful : (pairing position).Lawful where
  unseen := False.elim
  nodes := by
    intro region node node' codes
    cases codes with
    | same => exact nodes_same node
    | @below path =>
        cases path with
        | nil =>
            cases node' with
            | block body => exact .block rfl (aligned_openIn position body.instrs)
            | _ => exact nodes_same _
        | cons i path =>
            refine nodes_changed (fun j body => ?_) fun j child => ?_
            · split
              · exact Expr.mapAt_block openAt_block path body
              · exact ⟨body, rfl⟩
            · split
              · exact .below
              · exact .same

theorem code_openAt (script : Script) (place : Place) (position : Nat) :
    Code position (.block (script.openAt place position).body) (.block script.body) := by
  have below : Code position
      (Expr.mapAt (Expr.openAt position) place.reverse (.block script.body)) (.block script.body) :=
    .below
  obtain ⟨body', same⟩ := Expr.mapAt_block openAt_block place.reverse script.body
  rw [Script.openAt, Script.mapAt, Block.changed, same]
  rwa [same] at below

end NestedBlocks

namespace Script

open NestedBlocks

/-- One block is opened, or none. -/
theorem alike_of_code {script script' : Script} {position : Nat}
    (codes : Code position (.block script'.body) (.block script.body)) {settings : Settings}
    {sink : Sink} {log : Log} (fits : ¬ script.HitsLimit settings sink log) :
    ¬ script'.HitsLimit settings sink log ∧
      RunsAlike Report.SameReached (script.run (.sink sink) settings log)
        (script'.run (.sink sink) settings log) := by
  refine ⟨Pairing.not_hitsLimit settings sink log lawful codes fits, runsAlike_of_reports rfl ?_⟩
  rcases Pairing.reports settings sink log lawful codes with ⟨after, -, tooDeep⟩ | reports
  · exact absurd (hitsLimit_iff.mpr ⟨after, tooDeep⟩) fits
  · exact (reports.sameReached Eq.symm id).symm

/-- Blocks are transparent. When blocks among the elements of others are opened in a program,
anywhere and any number of times, and the run of the program before does not hit the depth limit,
then the run of the program afterwards does not hit it either, and both are refused, or they print
the same lines, end in the same way, with the same failure on the same line, and leave the same
objects, as far as these can be reached. -/
theorem blocks_transparent {script script' : Script} (opens : script.Opens script')
    (settings : Settings) (sink : Sink) (log : Log)
    (fits : ¬ script.HitsLimit settings sink log) :
    ¬ script'.HitsLimit settings sink log ∧
      RunsAlike Report.SameReached (script.run (.sink sink) settings log)
        (script'.run (.sink sink) settings log) := by
  induction opens with
  | refl => exact alike_of_code (@Code.same 0 _) fits
  | tail _ opened ih =>
      obtain ⟨fitsBetween, alike⟩ := ih
      obtain ⟨place, position, rfl⟩ := opened
      obtain ⟨fitsAfter, further⟩ := alike_of_code (code_openAt _ place position) fitsBetween
      exact ⟨fitsAfter, alike.trans Report.SameReached.trans further⟩

/-- A function that returns from a block within a block, and a program that keeps it and fails in
the middle of a block. -/
def nestedReturn : Script :=
  ⟨⟨none, [
    .function none (some "f") ["x"] ⟨none, [
      .block ⟨none, [.block ⟨none, [
        .assignment none "y" (.var none "x") true,
        .returns none (.var none "y")]⟩]⟩,
      .returns none (.literal none (.int 2))]⟩,
    .block ⟨some 7, [
      .call none (.var none "print") [.call none (.var none "f") [.literal none (.str "a")]],
      .assignment (some 9) "z" (.literal none (.int 3)) false]⟩]⟩⟩

/-- The same without blocks among the elements of others. -/
def plainReturn : Script :=
  ⟨⟨none, [
    .function none (some "f") ["x"] ⟨none, [
      .assignment none "y" (.var none "x") true,
      .returns none (.var none "y"),
      .returns none (.literal none (.int 2))]⟩,
    .call none (.var none "print") [.call none (.var none "f") [.literal none (.str "a")]],
    .assignment (some 9) "z" (.literal none (.int 3)) false]⟩⟩

/-- The block at the top, the outer one of the function and the inner one are opened. -/
theorem opens_nestedReturn : nestedReturn.Opens plainReturn :=
  .tail (.tail (.single ⟨[], 1, rfl⟩) ⟨[0, 0], 0, rfl⟩) ⟨[0, 0], 0, rfl⟩

theorem fits_nestedReturn : ¬ nestedReturn.HitsLimit .standard .empty {} := by
  have shallow : 12 ≤ Settings.standard.depth := by decide
  refine not_hitsLimit_of_le shallow fun after failed => ?_
  have ended : ∃ failure after, Eval.evaluator .standard 12 (.block nestedReturn.body) Heap.root
      (begun nestedReturn .standard .empty {}) = .error (.failure failure) after := ⟨_, _, rfl⟩
  rw [failed] at ended
  obtain ⟨_, _, ⟨⟩⟩ := ended

theorem blocks_transparent_nestedReturn :
    (nestedReturn.Opens plainReturn ∧ ¬ nestedReturn.HitsLimit .standard .empty {}) ∧
    ¬ plainReturn.HitsLimit .standard .empty {} ∧
    RunsAlike Report.SameReached (nestedReturn.run (.sink .empty) .standard {})
      (plainReturn.run (.sink .empty) .standard {}) :=
  ⟨⟨opens_nestedReturn, fits_nestedReturn⟩,
    blocks_transparent opens_nestedReturn .standard .empty {} fits_nestedReturn⟩

end Script

end ScriptTree
