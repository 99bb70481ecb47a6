import ScriptTree.Proofs.Machine

/-!
# Programs that differ in one place

`Script.mapAt` changes one node of a program and leaves the rest as it stands. Changes of a node
below come together from changes of the children (`Expr.mapChildren`); `Expr.renameOwn` changes the
variables that a node itself names.
-/

namespace ScriptTree

/-- A change of a block, as of a node. What does not give a block changes nothing. -/
def Block.changed (change : Expr → Expr) (body : Block Expr) : Block Expr :=
  match change (.block body) with
  | .block body' => body'
  | _ => body

namespace Expr

/-- A node with other children in the places of its own. -/
def mapChildren (change : Nat → Expr → Expr) : Expr → Expr
  | .block body => .block { body with instrs := body.instrs.mapIdx change }
  | .assignment line name value declares => .assignment line name (change 0 value) declares
  | .function line name parameters body =>
      .function line name parameters (body.changed (change 0))
  | .returns line value => .returns line (change 0 value)
  | .branch line condition onTrue onFalse =>
      .branch line (change 0 condition) (onTrue.changed (change 1)) (onFalse.changed (change 2))
  | .record line fields =>
      .record line (fields.mapIdx fun i field => (field.1, change i field.2))
  | .field line receiver name => .field line (change 0 receiver) name
  | .fieldAssignment line receiver name value =>
      .fieldAssignment line (change 0 receiver) name (change 1 value)
  | .call line callee arguments =>
      .call line (change 0 callee) (arguments.mapIdx fun i => change (i + 1))
  | .methodCall line receiver name arguments =>
      .methodCall line (change 0 receiver) name (arguments.mapIdx fun i => change (i + 1))
  | .literal line value => .literal line value
  | .var line name => .var line name
  | .unknown line kind => .unknown line kind

/-- A node with other names for the variables that it names itself: as a variable, as the target of
an assignment and as the parameters of a function. The name of a function stays. -/
def renameOwn (rename : String → String) : Expr → Expr
  | .var line name => .var line (rename name)
  | .assignment line name value declares => .assignment line (rename name) value declares
  | .function line name parameters body => .function line name (parameters.map rename) body
  | expr => expr

/-- A node with a change at the end of a path from it. -/
def mapAt (change : Expr → Expr) : (path : List Nat) → Expr → Expr
  | [], expr => change expr
  | i :: path, expr =>
      expr.mapChildren fun j child => if j = i then child.mapAt change path else child

/-- The node itself names a variable: it reads, assigns or declares it. -/
def Mentions (name : String) : Expr → Prop
  | .var _ other => other = name
  | .assignment _ other _ _ => other = name
  | .function _ own parameters _ => own = some name ∨ name ∈ parameters
  | _ => False

theorem mapChildren_id (expr : Expr) : expr.mapChildren (fun _ child => child) = expr := by
  have same {α : Type} (list : List α) : (list.mapIdx fun _ item => item) = list :=
    List.ext_getElem? fun i => by simp
  cases expr <;> simp [mapChildren, Block.changed, same]

theorem renameOwn_id (expr : Expr) : expr.renameOwn id = expr := by
  cases expr <;> simp [renameOwn]

theorem mapAt_block {change : Expr → Expr}
    (blocks : ∀ body, ∃ body', change (.block body) = .block body') (path : List Nat)
    (body : Block Expr) : ∃ body', mapAt change path (.block body) = .block body' := by
  cases path with
  | nil => exact blocks body
  | cons i path => exact ⟨_, rfl⟩

end Expr

namespace Script

/-- A program with a change of the node at a place. -/
def mapAt (script : Script) (change : Expr → Expr) (place : Place) : Script :=
  ⟨script.body.changed (Expr.mapAt change place.reverse)⟩

/-- A child stands below its node. -/
theorem nodeAt?_cons {script : Script} {place : Place} {node child : Expr}
    (stands : script.nodeAt? place = some node) {i : Nat} (found : node.child? i = some child) :
    script.nodeAt? (i :: place) = some child := by
  rw [nodeAt?, stands]
  exact found

/-- What holds of a node and passes on to children holds of all nodes below. -/
theorem holds_below {script : Script} {P : Expr → Prop} {place : Place} {top : Expr}
    (stands : script.nodeAt? place = some top) (holds : P top)
    (passes : ∀ node i child, P node → node.child? i = some child → P child) :
    ∀ here node, place <:+ here → script.nodeAt? here = some node → P node := by
  intro here
  induction here with
  | nil =>
      intro node below there
      obtain rfl := List.suffix_nil.mp below
      cases stands.symm.trans there
      exact holds
  | cons i here ih =>
      intro node below there
      rcases List.suffix_cons_iff.mp below with rfl | below
      · cases stands.symm.trans there
        exact holds
      · obtain ⟨parent, above, found⟩ := Option.bind_eq_some_iff.mp there
        exact passes parent i node (ih parent below above) found

/-- Of a program with a change, only the node at the place is changed. -/
example : (Script.mk ⟨none, [.var none "x", .returns none (.var none "y")]⟩).mapAt
    (fun _ => .literal none (.int 1)) [0, 1] =
      ⟨⟨none, [.var none "x", .returns none (.literal none (.int 1))]⟩⟩ := by
  rfl

end Script

end ScriptTree
