import Mathlib.Data.List.Nodup
import ScriptTree.Proofs.Machine.Open

/-!
# The nodes of a program

`Script.nodes` lists every node of a program with its place, a node before the nodes below it. It is
computed by recursion on the tree, and it is the same as to list a node and then what its children
list (`Occurrence.nodes_eq`); proofs about it are by induction over the parts of a node
(`Occurrence.of_parts`). The nodes listed are those that stand somewhere in the program
(`Script.mem_nodes_iff`), and no place is listed twice (`Occurrence.nodup_places`).
-/

namespace ScriptTree

/-! ## The nodes of a tree -/

namespace Expr

/-- The children of a node, in the order of their positions. -/
def parts : Expr → List Expr
  | .block body => body.instrs
  | .literal .. | .var .. | .unknown .. => []
  | .assignment _ _ value _ => [value]
  | .function _ _ _ body => [.block body]
  | .returns _ value => [value]
  | .branch _ condition onTrue onFalse => [condition, .block onTrue, .block onFalse]
  | .record _ fields => fields.map Prod.snd
  | .field _ receiver _ => [receiver]
  | .fieldAssignment _ receiver _ value => [receiver, value]
  | .call _ callee arguments => callee :: arguments
  | .methodCall _ receiver _ arguments => receiver :: arguments

theorem child?_eq (node : Expr) (i : Nat) : node.child? i = node.parts[i]? := by
  cases node with
  | block | literal | var | unknown => rfl
  | record => exact List.getElem?_map.symm
  | branch => rcases i with _ | _ | _ | i <;> rfl
  | _ => rcases i with _ | _ | i <;> rfl

mutual

/-- The nodes of a tree whose root stands at a place. -/
def nodes (place : Place) : Expr → List Occurrence
  | .block body => blockNodes place body
  | .literal line value => [⟨place, .literal line value⟩]
  | .var line name => [⟨place, .var line name⟩]
  | .assignment line name value declares =>
      ⟨place, .assignment line name value declares⟩ :: nodes (0 :: place) value
  | .function line name parameters body =>
      ⟨place, .function line name parameters body⟩ :: blockNodes (0 :: place) body
  | .returns line value => ⟨place, .returns line value⟩ :: nodes (0 :: place) value
  | .branch line condition onTrue onFalse =>
      ⟨place, .branch line condition onTrue onFalse⟩ :: (nodes (0 :: place) condition ++
        (blockNodes (1 :: place) onTrue ++ blockNodes (2 :: place) onFalse))
  | .record line fields => ⟨place, .record line fields⟩ :: namedNodes place 0 fields
  | .field line receiver name => ⟨place, .field line receiver name⟩ :: nodes (0 :: place) receiver
  | .fieldAssignment line receiver name value =>
      ⟨place, .fieldAssignment line receiver name value⟩ ::
        (nodes (0 :: place) receiver ++ nodes (1 :: place) value)
  | .call line callee arguments =>
      ⟨place, .call line callee arguments⟩ ::
        (nodes (0 :: place) callee ++ exprsNodes place 1 arguments)
  | .methodCall line receiver name arguments =>
      ⟨place, .methodCall line receiver name arguments⟩ ::
        (nodes (0 :: place) receiver ++ exprsNodes place 1 arguments)
  | .unknown line kind => [⟨place, .unknown line kind⟩]

/-- The nodes of a block. -/
def blockNodes (place : Place) : Block Expr → List Occurrence
  | ⟨line, instrs⟩ => ⟨place, .block ⟨line, instrs⟩⟩ :: exprsNodes place 0 instrs

/-- The nodes of children, from a position on. -/
def exprsNodes (place : Place) (position : Nat) : List Expr → List Occurrence
  | [] => []
  | first :: rest => nodes (position :: place) first ++ exprsNodes place (position + 1) rest

/-- The nodes of children that stand under names, from a position on. -/
def namedNodes (place : Place) (position : Nat) : List (String × Expr) → List Occurrence
  | [] => []
  | (_, first) :: rest => nodes (position :: place) first ++ namedNodes place (position + 1) rest

end

end Expr

namespace Occurrence

/-- The children of a node. -/
def parts (code : Occurrence) : List Occurrence :=
  code.children 0 code.node.parts

/-- A node and all nodes below it. -/
def nodes (code : Occurrence) : List Occurrence :=
  code.node.nodes code.place

variable {code inner : Occurrence}

theorem flatMap_nodes_children (code : Occurrence) (position : Nat) (exprs : List Expr) :
    (code.children position exprs).flatMap nodes = Expr.exprsNodes code.place position exprs := by
  induction exprs generalizing position with
  | nil => rfl
  | cons first rest ih =>
      rw [children, List.flatMap_cons, ih, Expr.exprsNodes]
      rfl

theorem map_named (code : Occurrence) (position : Nat) (fields : List (String × Expr)) :
    (code.named position fields).map Prod.snd =
      code.children position (fields.map Prod.snd) := by
  induction fields generalizing position with
  | nil => rfl
  | cons field rest ih => rw [named, List.map_cons, ih, List.map_cons, children]

theorem namedNodes_eq (place : Place) (position : Nat) (fields : List (String × Expr)) :
    Expr.namedNodes place position fields =
      Expr.exprsNodes place position (fields.map Prod.snd) := by
  induction fields generalizing position with
  | nil => rfl
  | cons field rest ih => rw [Expr.namedNodes, ih, List.map_cons, Expr.exprsNodes]

/-- A node comes before its parts. -/
theorem nodes_eq (code : Occurrence) : code.nodes = code :: code.parts.flatMap nodes := by
  rw [parts, flatMap_nodes_children]
  obtain ⟨place, node⟩ := code
  cases node with
  | block body =>
      obtain ⟨line, instrs⟩ := body
      rfl
  | record line fields => exact congrArg (_ :: ·) (namedNodes_eq place 0 fields)
  | _ => simp [nodes, Expr.nodes, Expr.parts, Expr.exprsNodes]

theorem mem_children_iff {exprs : List Expr} {position : Nat} :
    inner ∈ code.children position exprs ↔
      ∃ i, inner.place = (position + i) :: code.place ∧ exprs[i]? = some inner.node := by
  induction exprs generalizing position with
  | nil => simp [children]
  | cons first rest ih =>
      rw [children, List.mem_cons, ih]
      constructor
      · rintro (rfl | ⟨i, place, listed⟩)
        · exact ⟨0, rfl, rfl⟩
        · exact ⟨i + 1, by rw [place, Nat.add_assoc, Nat.add_comm 1], listed⟩
      · rintro ⟨_ | i, place, listed⟩
        · obtain ⟨_, node⟩ := inner
          cases place
          cases listed
          exact .inl rfl
        · exact .inr ⟨i, by rw [place, Nat.add_assoc, Nat.add_comm 1], listed⟩

theorem mem_parts_iff : inner ∈ code.parts ↔
    ∃ i, inner.place = i :: code.place ∧ code.node.child? i = some inner.node := by
  simp only [parts, mem_children_iff, Nat.zero_add, Expr.child?_eq]

theorem sublist_nodes (listed : inner ∈ code.parts) :
    inner.nodes.Sublist (code.parts.flatMap nodes) :=
  List.sublist_flatten_of_mem (List.mem_map_of_mem listed)

/-- What holds of a node when it holds of its parts holds of every node. -/
theorem of_parts {P : Occurrence → Prop} (step : ∀ code, (∀ inner ∈ code.parts, P inner) → P code)
    (code : Occurrence) : P code :=
  step code fun inner _ => of_parts step inner
termination_by code.nodes.length
decreasing_by
  rename_i listed
  rw [nodes_eq code, List.length_cons]
  exact Nat.lt_succ_of_le (sublist_nodes listed).length_le

theorem self_mem_nodes (code : Occurrence) : code ∈ code.nodes := by
  rw [nodes_eq]
  exact List.mem_cons_self

/-- A part of a node of a tree is a node of the tree. -/
theorem mem_nodes_of_mem_parts {top : Occurrence} (below : code ∈ top.nodes)
    (listed : inner ∈ code.parts) : inner ∈ top.nodes := by
  induction top using of_parts with
  | step top ih =>
      rw [nodes_eq] at below ⊢
      right
      rcases List.mem_cons.mp below with rfl | further
      · exact List.mem_flatMap.mpr ⟨inner, listed, inner.self_mem_nodes⟩
      · obtain ⟨part, isPart, within⟩ := List.mem_flatMap.mp further
        exact List.mem_flatMap.mpr ⟨part, isPart, ih part isPart within⟩

/-- What holds of a node and is kept from each node to its parts holds of all nodes below. -/
theorem forall_mem_nodes {P : Occurrence → Prop} {top : Occurrence}
    (kept : ∀ {code inner}, inner ∈ code.parts → P code → P inner) (holds : P top) :
    ∀ code ∈ top.nodes, P code := by
  induction top using of_parts with
  | step top ih =>
      intro code below
      rw [nodes_eq] at below
      rcases List.mem_cons.mp below with rfl | further
      · exact holds
      · obtain ⟨part, isPart, within⟩ := List.mem_flatMap.mp further
        exact ih part isPart (kept isPart holds) code within

/-- The nodes of a tree stand below its root. -/
theorem suffix_of_mem_nodes {top : Occurrence} (below : code ∈ top.nodes) :
    top.place <:+ code.place := by
  refine forall_mem_nodes (P := fun inner => top.place <:+ inner.place) (fun isPart way => ?_)
    (List.suffix_refl _) code below
  obtain ⟨i, placed, -⟩ := mem_parts_iff.mp isPart
  rw [placed]
  exact way.trans (List.suffix_cons _ _)

/-- The children of a node stand at different places. -/
theorem pairwise_children (code : Occurrence) (position : Nat) (exprs : List Expr) :
    (code.children position exprs).Pairwise fun first second => first.place ≠ second.place := by
  induction exprs generalizing position with
  | nil => exact .nil
  | cons first rest ih =>
      refine .cons (fun second listed => ?_) (ih (position + 1))
      obtain ⟨i, place, -⟩ := mem_children_iff.mp listed
      rw [place]
      intro same
      have := (List.cons.inj same).1
      omega

/-- Below two places of one length there are different places. -/
theorem disjoint_places {first second : Occurrence}
    (length : first.place.length = second.place.length) (differ : first.place ≠ second.place) :
    (first.nodes.map place).Disjoint (second.nodes.map place) := by
  refine List.disjoint_left.mpr fun shared below below' => differ ?_
  obtain ⟨inner, within, rfl⟩ := List.mem_map.mp below
  obtain ⟨inner', within', same⟩ := List.mem_map.mp below'
  have way := suffix_of_mem_nodes within
  have way' : second.place <:+ inner.place := same ▸ suffix_of_mem_nodes within'
  exact (List.suffix_of_suffix_length_le way way' (Nat.le_of_eq length)).eq_of_length length

/-- No place is listed twice. -/
theorem nodup_places (code : Occurrence) : (code.nodes.map place).Nodup := by
  induction code using of_parts with
  | step code ih =>
      have length {part : Occurrence} (isPart : part ∈ code.parts) :
          part.place.length = code.place.length + 1 := by
        obtain ⟨i, placed, -⟩ := mem_parts_iff.mp isPart
        rw [placed, List.length_cons]
      rw [nodes_eq, List.map_cons, List.map_flatMap, List.nodup_cons, List.nodup_flatMap]
      refine ⟨fun listed => ?_, ih, (pairwise_children code 0 code.node.parts).imp_of_mem ?_⟩
      · obtain ⟨part, isPart, within⟩ := List.mem_flatMap.mp listed
        obtain ⟨inner, below, same⟩ := List.mem_map.mp within
        have longer := (suffix_of_mem_nodes below).length_le
        rw [length isPart, same] at longer
        omega
      · intro first second isPart isPart' differ
        exact disjoint_places ((length isPart).trans (length isPart').symm) differ

end Occurrence

/-! ## The nodes of a program -/

namespace Script

variable (script : Script)

/-- The nodes of a program, each with its place: the block first, then the nodes below each of its
elements. -/
def nodes : List Occurrence :=
  Occurrence.nodes ⟨[], .block script.body⟩

/-- How many nodes a program has. -/
def size : Nat :=
  script.nodes.length

/-- How many nodes stand one below another at most. -/
def height : Nat :=
  (script.nodes.map (·.place.length + 1)).foldr max 0

/-- The calls in a program, of functions and of methods. -/
def calls : List Occurrence :=
  script.nodes.filter (·.node.callLine?.isSome)

/-- A program in whose tree there is no function. -/
def Functionless : Prop :=
  ∀ code ∈ script.nodes, code.node.isFunction = false

instance : Decidable script.Functionless :=
  inferInstanceAs (Decidable (∀ code ∈ script.nodes, code.node.isFunction = false))

variable {script}

/-- The nodes that are listed are those that stand at the places of the program. -/
theorem mem_nodes_iff {code : Occurrence} :
    code ∈ script.nodes ↔ script.nodeAt? code.place = some code.node := by
  constructor
  · refine Occurrence.forall_mem_nodes (P := fun code => script.nodeAt? code.place = some code.node)
      (fun {code inner} isPart stands => ?_) rfl code
    obtain ⟨i, placed, child⟩ := Occurrence.mem_parts_iff.mp isPart
    rw [placed, nodeAt?, stands]
    exact child
  · obtain ⟨place, node⟩ := code
    intro stands
    induction place generalizing node with
    | nil =>
        cases stands
        exact Occurrence.self_mem_nodes _
    | cons i place ih =>
        obtain ⟨outer, there, child⟩ := Option.bind_eq_some_iff.mp stands
        exact Occurrence.mem_nodes_of_mem_parts (ih outer there)
          (Occurrence.mem_parts_iff.mpr ⟨i, rfl, child⟩)

/-- No place is as long as the program is high. -/
theorem length_lt_height {code : Occurrence} (listed : code ∈ script.nodes) :
    code.place.length < script.height := by
  unfold height
  generalize script.nodes = codes at listed
  induction codes with
  | nil => cases listed
  | cons first rest ih =>
      rw [List.map_cons, List.foldr_cons]
      rcases List.mem_cons.mp listed with rfl | later
      · omega
      · have := ih later
        omega

end Script

end ScriptTree
