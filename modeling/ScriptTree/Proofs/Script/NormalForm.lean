import ScriptTree.Proofs.Lax
import ScriptTree.Proofs.Script.RoundTrip

/-!
# The canonical text of an accepted text

The canonical text of a program writes out what an accepted text may leave out, and so may be nested
deeper than it. How much deeper is told here: the canonical document of a program goes beyond the
depth of the one that was read only where the body of a function was written as an object without
members, as deep as the reader allows an empty one (`Decode.faithful`). The canonical text is
accepted, and is its own canonical text, exactly when no function stands at the greatest depth
(`Script.normal_form`).
-/

namespace ScriptTree

/-! ## The depth of a canonical document -/

namespace Expr

/-- The expressions and blocks directly inside an expression, each with the number of levels that
its object stands below the object of the expression. -/
def inside : Expr → List (Nat × Expr)
  | .block body => body.instrs.map (2, ·)
  | .literal .. | .var .. | .unknown .. => []
  | .assignment _ _ value _ | .returns _ value => [(1, value)]
  | .function _ _ _ body => [(1, .block body)]
  | .branch _ condition onTrue onFalse => [(1, condition), (1, .block onTrue), (1, .block onFalse)]
  | .record _ fields => fields.map fun field => (2, field.2)
  | .field _ receiver _ => [(1, receiver)]
  | .fieldAssignment _ receiver _ value => [(1, receiver), (1, value)]
  | .call _ callee arguments => (1, callee) :: arguments.map (2, ·)
  | .methodCall _ receiver _ arguments => (1, receiver) :: arguments.map (2, ·)

/-- Some function of the expression stands at the depth, the expression itself standing at depth
one. -/
inductive FunctionAt : Expr → Nat → Prop
  | here {line : Line} {name : Option String} {parameters : List String} {body : Block Expr} :
      FunctionAt (.function line name parameters body) 1
  | inside {e part : Expr} {levels depth : Nat} (listed : (levels, part) ∈ e.inside)
      (deeper : part.FunctionAt depth) : FunctionAt e (depth + levels)

end Expr

namespace Json

theorem depth_array_lt {items : List Json} {bound : Nat} :
    (Json.array items).depth < bound ↔ 0 < bound ∧ ∀ item ∈ items, item.depth + 1 < bound := by
  cases bound with
  | zero => simp
  | succ bound =>
      rw [Nat.lt_add_one_iff, depth_array_le]
      simp

theorem depth_object_lt {members : List (String × Json)} {bound : Nat} :
    (Json.object members).depth < bound ↔
      0 < bound ∧ ∀ member ∈ members, member.2.depth + 1 < bound := by
  cases bound with
  | zero => simp
  | succ bound =>
      rw [Nat.lt_add_one_iff, depth_object_le]
      simp

end Json

namespace Encode

@[simp] theorem depth_line (source : Line) : (line source).depth = 0 := by
  cases source <;> rfl

@[simp] theorem depth_name (source : Option String) : (name source).depth = 0 := by
  cases source <;> rfl

@[simp] theorem depth_literal (value : Literal) : (literal value).depth = 0 := by
  cases value <;> rfl

theorem depth_node_le {source : Line} {tag : String} {members : List (String × Json)}
    {bound : Nat} : (node source tag members).depth ≤ bound ↔
      0 < bound ∧ ∀ member ∈ members, member.2.depth < bound := by
  rw [node, Json.depth_object_le, List.forall_mem_cons, List.forall_mem_cons, depth_line,
    Json.depth_string]
  constructor
  · rintro ⟨positive, -, own⟩
    exact ⟨positive, own⟩
  · rintro ⟨positive, own⟩
    exact ⟨positive, positive, own⟩

theorem depth_exprs_lt {list : List Expr} {bound : Nat} (positive : 0 < bound) :
    (Json.array (exprs list)).depth < bound ↔ ∀ e ∈ list, (expr e).depth + 2 ≤ bound := by
  rw [exprs_eq_map, Json.depth_array_lt, List.forall_mem_map]
  exact and_iff_right positive

theorem depth_named_lt {fields : List (String × Expr)} {bound : Nat} (positive : 0 < bound) :
    (Json.object (named fields)).depth < bound ↔
      ∀ field ∈ fields, (expr field.2).depth + 2 ≤ bound := by
  rw [named_eq_map, Json.depth_object_lt, List.forall_mem_map]
  exact and_iff_right positive

theorem depth_parameters_le (parameters : List String) :
    (Json.array (parameters.map .string)).depth ≤ 1 :=
  Json.depth_array_le.mpr (List.forall_mem_map.mpr fun _ _ => Nat.zero_lt_one)

theorem depth_expr_pos (e : Expr) : 0 < (expr e).depth := by
  refine Nat.lt_of_not_le fun flat => ?_
  cases e with
  | block body =>
      rw [expr, block] at flat
      exact absurd (depth_node_le.mp flat).1 (by omega)
  | _ =>
      rw [expr] at flat
      exact absurd (depth_node_le.mp flat).1 (by omega)

/-- The document of an expression is as deep as those of the parts inside it make it. -/
theorem depth_expr_le {e : Expr} {bound : Nat} :
    (expr e).depth ≤ bound ↔
      0 < bound ∧ ∀ part ∈ e.inside, (expr part.2).depth + part.1 ≤ bound := by
  cases e with
  | block body =>
      obtain ⟨line, instrs⟩ := body
      rw [expr, block, depth_node_le]
      refine and_congr_right fun positive => ?_
      simp [Expr.inside, depth_exprs_lt positive]
  | function line name parameters body =>
      have shallow := depth_parameters_le parameters
      have deeper := depth_expr_pos (.block body)
      rw [expr_block] at deeper
      rw [expr, depth_node_le]
      refine and_congr_right fun positive => ?_
      simp only [Expr.inside, List.forall_mem_cons, List.not_mem_nil, false_implies, implies_true,
        and_true, depth_name, expr_block, Nat.succ_le_iff]
      omega
  | record line fields =>
      rw [expr, depth_node_le]
      refine and_congr_right fun positive => ?_
      simp only [Expr.inside, List.forall_mem_singleton, List.forall_mem_map,
        depth_named_lt positive]
  | _ =>
      rw [expr, depth_node_le]
      refine and_congr_right fun positive => ?_
      simp [Expr.inside, depth_exprs_lt positive, Nat.succ_le_iff, positive]

end Encode

namespace Expr

theorem FunctionAt.depth_pos {e : Expr} {depth : Nat} (stands : e.FunctionAt depth) :
    0 < depth := by
  induction stands with
  | here => exact Nat.one_pos
  | inside listed deeper ih => omega

/-- The body of a function stands below the function. -/
theorem FunctionAt.lt_depth {e : Expr} {depth : Nat} (stands : e.FunctionAt depth) :
    depth < (Encode.expr e).depth := by
  refine Nat.lt_of_not_le fun flat => ?_
  induction stands with
  | @here line name parameters body =>
      have below : (Encode.expr (.block body)).depth + 1 ≤ 1 :=
        (Encode.depth_expr_le.mp flat).2 (1, .block body) List.mem_cons_self
      have positive := Encode.depth_expr_pos (.block body)
      omega
  | @inside e part levels depth listed deeper ih =>
      have shallow : (Encode.expr part).depth + levels ≤ depth + levels :=
        (Encode.depth_expr_le.mp flat).2 (levels, part) listed
      exact ih (by omega)

/-- The canonical document is no deeper than the bound, or some function stands at that depth. -/
def Shallow (bound : Nat) (e : Expr) : Prop :=
  e.FunctionAt bound ∨ (Encode.expr e).depth ≤ bound

theorem Shallow.depth_pos {e : Expr} {bound : Nat} (shallow : e.Shallow bound) : 0 < bound := by
  rcases shallow with function | deep
  · exact function.depth_pos
  · exact Nat.lt_of_lt_of_le (Encode.depth_expr_pos e) deep

theorem shallow_of_inside {e : Expr} {bound : Nat} (positive : 0 < bound)
    (inside : ∀ part ∈ e.inside, ∃ below, below + part.1 = bound ∧ part.2.Shallow below) :
    e.Shallow bound := by
  by_cases deep : ∃ part ∈ e.inside, ∃ below, below + part.1 = bound ∧ part.2.FunctionAt below
  · obtain ⟨part, listed, below, rfl, function⟩ := deep
    exact .inl (.inside listed function)
  · refine .inr (Encode.depth_expr_le.mpr ⟨positive, fun part listed => ?_⟩)
    obtain ⟨below, rfl, function | shallow⟩ := inside part listed
    · exact absurd ⟨part, listed, below, rfl, function⟩ deep
    · omega

end Expr

/-! ## What is decoded -/

theorem Json.mem_of_find? {α : Type} {members : List (String × α)} {name : String} {found : α}
    (here : Json.find? members name = some found) : (name, found) ∈ members := by
  induction members with
  | nil => contradiction
  | cons member rest ih =>
      obtain ⟨key, value⟩ := member
      unfold Json.find? at here
      split at here
      · rename_i later
        cases here
        exact List.mem_cons_of_mem _ (ih later)
      · split at here
        · rename_i same
          cases here
          exact same ▸ List.mem_cons_self
        · contradiction

namespace Member

variable {α : Type} {name : String} {a : α}

/-- A member that was accepted stands in the object, and was accepted there. -/
theorem exists_of_check? {check : Json → Checked α} {members : List (String × Json)}
    (accepted : check? name check members = some (.accepted a)) :
    ∃ member ∈ members, check member.2 = .accepted a := by
  obtain ⟨json, found, checked⟩ := Option.map_eq_some_iff.mp accepted
  exact ⟨_, Json.mem_of_find? found, (Checked.under_eq_accepted _ _ _).mp checked⟩

theorem of_required {found : Option (Checked α)} (accepted : required name found = .accepted a) :
    found = some (.accepted a) := by
  cases found with
  | none => contradiction
  | some checked => exact congrArg some accepted

theorem of_optional {default : α} {found : Option (Checked α)}
    (accepted : optional default found = .accepted a) :
    a = default ∨ found = some (.accepted a) := by
  cases found with
  | none => exact .inl (Checked.accepted.inj accepted).symm
  | some checked => exact .inr (congrArg some accepted)

end Member

namespace Decode

theorem exists_of_exprsFrom {position : Nat} {items : List Json} {list : List Expr}
    (accepted : exprsFrom position items = .accepted list) :
    ∀ e ∈ list, ∃ item ∈ items, expr item = .accepted e := by
  induction items generalizing position list with
  | nil =>
      cases accepted
      exact nofun
  | cons item items ih =>
      rw [exprsFrom, Checked.seq_accepted_iff] at accepted
      obtain ⟨_, rest, first, later, rfl⟩ := accepted
      obtain ⟨e, here, rfl⟩ := (Checked.map_accepted_iff _ _ _).mp first
      refine List.forall_mem_cons.mpr ⟨⟨item, List.mem_cons_self, ?_⟩, fun e listed => ?_⟩
      · exact (Checked.under_eq_accepted _ _ _).mp here
      · obtain ⟨item, among, read⟩ := ih later e listed
        exact ⟨item, List.mem_cons_of_mem _ among, read⟩

theorem exists_of_namedFrom {members : List (String × Json)} {fields : List (String × Expr)}
    (accepted : namedFrom members = .accepted fields) :
    ∀ field ∈ fields, ∃ member ∈ members, expr member.2 = .accepted field.2 := by
  induction members generalizing fields with
  | nil =>
      cases accepted
      exact nofun
  | cons member members ih =>
      rw [namedFrom, Checked.seq_accepted_iff] at accepted
      obtain ⟨_, rest, first, later, rfl⟩ := accepted
      obtain ⟨e, here, rfl⟩ := (Checked.map_accepted_iff _ _ _).mp first
      refine List.forall_mem_cons.mpr ⟨⟨member, List.mem_cons_self, ?_⟩, fun field listed => ?_⟩
      · exact (Checked.under_eq_accepted _ _ _).mp here
      · obtain ⟨member, among, read⟩ := ih later field listed
        exact ⟨member, List.mem_cons_of_mem _ among, read⟩

/-- The expression can be written, and is as shallow as it has to be that many levels inside. -/
def Below (levels bound : Nat) (e : Expr) : Prop :=
  e.Documented ∧ ∃ below, below + levels = bound ∧ e.Shallow below

/-- What a document is decoded to can be written, and as shallow as the document, but for functions
at the greatest depth. Where only a block may stand, an object without members is one level less
deep than the block that it stands for. -/
structure Faithful (json : Json) : Prop where
  expr {bound : Nat} {e : Expr} (shallow : json.depth ≤ bound)
    (accepted : expr json = .accepted e) : e.Documented ∧ e.Shallow bound
  block {bound : Nat} {body : Block Expr} (shallow : json.depth ≤ bound)
    (accepted : block json = .accepted body) :
    (Expr.block body).Documented ∧ ((Expr.block body).Shallow bound ∨ bound = 0)
  exprs {bound : Nat} {list : List Expr} (shallow : json.depth < bound)
    (accepted : exprs json = .accepted list) :
    ∀ e ∈ list, Below 2 bound e
  named {bound : Nat} {fields : List (String × Expr)} (shallow : json.depth < bound)
    (accepted : named json = .accepted fields) :
    (Fields.keys fields).Nodup ∧ ∀ field ∈ fields, Below 2 bound field.2

/-- The members of an object whose members are less deep than the bound. -/
def Inner (bound : Nat) (members : List (String × Json)) : Prop :=
  ∀ member ∈ members, Faithful member.2 ∧ member.2.Fits ∧ member.2.depth < bound

section Nodes

variable {bound : Nat} {members : List (String × Json)} {name : String}

theorem documented_line (inner : Inner bound members) {source : Line}
    (accepted : lineMember members = .accepted source) : source.Documented := by
  rcases Member.of_optional accepted with rfl | found
  · exact nofun
  · obtain ⟨member, listed, checked⟩ := Member.exists_of_check? found
    have fits := (inner member listed).2.1
    unfold line at checked
    split at checked
    · cases checked
      exact nofun
    · obtain ⟨n, read, rfl⟩ := (Checked.map_accepted_iff _ _ _).mp checked
      rintro _ ⟨⟩
      exact LaxInt.fits_ofJson fits read

theorem documented_literal (inner : Inner bound members) {value : Literal}
    (accepted : Member.required name (Member.check? name literal members) = .accepted value) :
    value.Documented := by
  obtain ⟨member, listed, checked⟩ := Member.exists_of_check? (Member.of_required accepted)
  have fits := (inner member listed).2.1
  unfold literal at checked
  split at checked
  · rename_i value same
    cases checked
    rw [same] at fits
    cases fits
    assumption
  · cases checked
    trivial
  · contradiction

theorem shallow_expr (inner : Inner bound members) {e : Expr}
    (accepted : Member.required name (Member.check? name expr members) = .accepted e) :
    Below 1 bound e := by
  obtain ⟨member, listed, checked⟩ := Member.exists_of_check? (Member.of_required accepted)
  obtain ⟨faithful, -, deep⟩ := inner member listed
  obtain ⟨documented, shallow⟩ := faithful.expr (Nat.le_sub_one_of_lt deep) checked
  exact ⟨documented, bound - 1, by omega, shallow⟩

/-- A block that was checked, or one that was left out. -/
theorem shallow_block (inner : Inner bound members) {body : Block Expr}
    (accepted : body = {} ∨ Member.check? name block members = some (.accepted body)) :
    (Expr.block body).Documented ∧
      ∀ below, below + 1 = bound → (Expr.block body).Shallow below ∨ below = 0 := by
  rcases accepted with rfl | found
  · refine ⟨.block nofun nofun, fun below _ => ?_⟩
    rcases Nat.eq_zero_or_pos below with none | positive
    · exact .inr none
    · exact .inl (Expr.shallow_of_inside positive nofun)
  · obtain ⟨member, listed, checked⟩ := Member.exists_of_check? found
    obtain ⟨faithful, -, deep⟩ := inner member listed
    refine ⟨(faithful.block (Nat.le_refl _) checked).1, ?_⟩
    rintro below rfl
    rcases (faithful.block (Nat.le_of_lt_succ deep) checked).2 with shallow | none
    · exact .inl shallow
    · exact .inr none

theorem shallow_exprs (inner : Inner bound members) {list : List Expr}
    (accepted : Member.optional [] (Member.check? name exprs members) = .accepted list) :
    ∀ e ∈ list, Below 2 bound e := by
  rcases Member.of_optional accepted with rfl | found
  · exact nofun
  · obtain ⟨member, listed, checked⟩ := Member.exists_of_check? found
    obtain ⟨faithful, -, deep⟩ := inner member listed
    exact faithful.exprs deep checked

theorem shallow_named (inner : Inner bound members) {fields : List (String × Expr)}
    (accepted : Member.optional [] (Member.check? name named members) = .accepted fields) :
    (Fields.keys fields).Nodup ∧ ∀ field ∈ fields, Below 2 bound field.2 := by
  rcases Member.of_optional accepted with rfl | found
  · exact ⟨.nil, nofun⟩
  · obtain ⟨member, listed, checked⟩ := Member.exists_of_check? found
    obtain ⟨faithful, -, deep⟩ := inner member listed
    exact faithful.named deep checked

theorem faithful_blockWith (inner : Inner bound members) {body : Block Expr}
    (accepted : blockWith members (Member.check? "instrs" exprs members) = .accepted body) :
    (Expr.block body).Documented ∧
      ∀ part ∈ (Expr.block body).inside,
        ∃ below, below + part.1 = bound ∧ part.2.Shallow below := by
  simp only [blockWith, Checked.seq_accepted_iff, Checked.map_accepted_iff] at accepted
  obtain ⟨_, instrs, ⟨_, _, ⟨line, known, rfl⟩, -, rfl⟩, read, rfl⟩ := accepted
  have shallow := shallow_exprs inner read
  refine ⟨.block (documented_line inner known) fun e listed => (shallow e listed).1, ?_⟩
  exact List.forall_mem_map.mpr fun e listed => (shallow e listed).2

/-- One case for each kind of node. -/
theorem faithful_nodeWith (positive : 0 < bound) (inner : Inner bound members) {kind : Kind}
    {e : Expr} (accepted : nodeWith kind members (membersOf members) = .accepted e) :
    e.Documented ∧ e.Shallow bound := by
  cases kind with
  | block =>
      obtain ⟨body, checked, rfl⟩ := (Checked.map_accepted_iff _ _ _).mp accepted
      obtain ⟨documented, inside⟩ := faithful_blockWith inner checked
      exact ⟨documented, Expr.shallow_of_inside positive inside⟩
  | literal =>
      simp only [nodeWith, Checked.seq_accepted_iff, Checked.map_accepted_iff] at accepted
      obtain ⟨_, value, ⟨line, known, rfl⟩, shown, rfl⟩ := accepted
      exact ⟨.literal (documented_line inner known) (documented_literal inner shown),
        Expr.shallow_of_inside positive (List.forall_mem_nil _)⟩
  | var =>
      simp only [nodeWith, Checked.seq_accepted_iff, Checked.map_accepted_iff] at accepted
      obtain ⟨_, name, ⟨line, known, rfl⟩, -, rfl⟩ := accepted
      exact ⟨.var (documented_line inner known),
        Expr.shallow_of_inside positive (List.forall_mem_nil _)⟩
  | assignment =>
      simp only [nodeWith, Checked.seq_accepted_iff, Checked.map_accepted_iff] at accepted
      obtain ⟨_, declares, ⟨_, value, ⟨_, name, ⟨line, known, rfl⟩, -, rfl⟩, read, rfl⟩, -, rfl⟩ :=
        accepted
      obtain ⟨documented, shallow⟩ := shallow_expr inner read
      exact ⟨.assignment (documented_line inner known) documented,
        Expr.shallow_of_inside positive (List.forall_mem_singleton.mpr shallow)⟩
  | function =>
      simp only [nodeWith, Checked.seq_accepted_iff, Checked.map_accepted_iff] at accepted
      obtain ⟨_, body, ⟨_, parameters, ⟨_, name, ⟨line, known, rfl⟩, -, rfl⟩, -, rfl⟩, read, rfl⟩ :=
        accepted
      obtain ⟨documented, shallow⟩ := shallow_block inner (.inr (Member.of_required read))
      refine ⟨.function (documented_line inner known) documented, ?_⟩
      rcases shallow (bound - 1) (by omega) with shallow | none
      · exact Expr.shallow_of_inside positive
          (List.forall_mem_singleton.mpr ⟨bound - 1, by omega, shallow⟩)
      · have one : bound = 1 := by omega
        exact .inl (one ▸ .here)
  | returns =>
      simp only [nodeWith, Checked.seq_accepted_iff, Checked.map_accepted_iff] at accepted
      obtain ⟨_, value, ⟨line, known, rfl⟩, read, rfl⟩ := accepted
      obtain ⟨documented, shallow⟩ := shallow_expr inner read
      exact ⟨.returns (documented_line inner known) documented,
        Expr.shallow_of_inside positive (List.forall_mem_singleton.mpr shallow)⟩
  | branch =>
      simp only [nodeWith, Checked.seq_accepted_iff, Checked.map_accepted_iff] at accepted
      obtain ⟨_, onFalse, ⟨_, onTrue, ⟨_, condition, ⟨line, known, rfl⟩, read, rfl⟩, readTrue, rfl⟩,
        readFalse, rfl⟩ := accepted
      obtain ⟨documented, below, rfl, shallow⟩ := shallow_expr inner read
      obtain ⟨documentedTrue, shallowTrue⟩ :=
        shallow_block inner (.inr (Member.of_required readTrue))
      obtain ⟨documentedFalse, shallowFalse⟩ := shallow_block inner (Member.of_optional readFalse)
      -- a condition is never empty, so there is room for blocks beside it
      have room := shallow.depth_pos
      have block {body : Block Expr}
          (deep : ∀ n, n + 1 = below + 1 → (Expr.block body).Shallow n ∨ n = 0) :
          ∃ n, n + 1 = below + 1 ∧ (Expr.block body).Shallow n :=
        ⟨below, rfl, (deep below rfl).resolve_right (by omega)⟩
      refine ⟨.branch (documented_line inner known) documented documentedTrue documentedFalse,
        Expr.shallow_of_inside positive ?_⟩
      simp only [Expr.inside, List.forall_mem_cons]
      exact ⟨⟨below, rfl, shallow⟩, block shallowTrue, block shallowFalse, List.forall_mem_nil _⟩
  | record =>
      simp only [nodeWith, Checked.seq_accepted_iff, Checked.map_accepted_iff] at accepted
      obtain ⟨_, fields, ⟨line, known, rfl⟩, read, rfl⟩ := accepted
      obtain ⟨nodup, shallow⟩ := shallow_named inner read
      have documented : ∀ field ∈ fields, field.2.Documented :=
        fun field listed => (shallow field listed).1
      refine ⟨.record (documented_line inner known) nodup documented,
        Expr.shallow_of_inside positive ?_⟩
      exact List.forall_mem_map.mpr fun field listed => (shallow field listed).2
  | field =>
      simp only [nodeWith, Checked.seq_accepted_iff, Checked.map_accepted_iff] at accepted
      obtain ⟨_, name, ⟨_, receiver, ⟨line, known, rfl⟩, read, rfl⟩, -, rfl⟩ := accepted
      obtain ⟨documented, shallow⟩ := shallow_expr inner read
      exact ⟨.field (documented_line inner known) documented,
        Expr.shallow_of_inside positive (List.forall_mem_singleton.mpr shallow)⟩
  | fieldAssignment =>
      simp only [nodeWith, Checked.seq_accepted_iff, Checked.map_accepted_iff] at accepted
      obtain ⟨_, value, ⟨_, name, ⟨_, receiver, ⟨line, known, rfl⟩, readReceiver, rfl⟩, -, rfl⟩,
        read, rfl⟩ := accepted
      obtain ⟨documentedReceiver, shallowReceiver⟩ := shallow_expr inner readReceiver
      obtain ⟨documented, shallow⟩ := shallow_expr inner read
      refine ⟨.fieldAssignment (documented_line inner known) documentedReceiver documented,
        Expr.shallow_of_inside positive ?_⟩
      exact List.forall_mem_cons.mpr ⟨shallowReceiver, List.forall_mem_singleton.mpr shallow⟩
  | call =>
      simp only [nodeWith, Checked.seq_accepted_iff, Checked.map_accepted_iff] at accepted
      obtain ⟨_, arguments, ⟨_, callee, ⟨line, known, rfl⟩, readCallee, rfl⟩, read, rfl⟩ := accepted
      obtain ⟨documentedCallee, shallowCallee⟩ := shallow_expr inner readCallee
      have shallow := shallow_exprs inner read
      refine ⟨.call (documented_line inner known) documentedCallee fun e listed =>
        (shallow e listed).1, Expr.shallow_of_inside positive ?_⟩
      exact List.forall_mem_cons.mpr ⟨shallowCallee, List.forall_mem_map.mpr fun e listed =>
        (shallow e listed).2⟩
  | methodCall =>
      simp only [nodeWith, Checked.seq_accepted_iff, Checked.map_accepted_iff] at accepted
      obtain ⟨_, arguments, ⟨_, name, ⟨_, receiver, ⟨line, known, rfl⟩, readReceiver, rfl⟩, -, rfl⟩,
        read, rfl⟩ := accepted
      obtain ⟨documentedReceiver, shallowReceiver⟩ := shallow_expr inner readReceiver
      have shallow := shallow_exprs inner read
      refine ⟨.methodCall (documented_line inner known) documentedReceiver fun e listed =>
        (shallow e listed).1, Expr.shallow_of_inside positive ?_⟩
      exact List.forall_mem_cons.mpr ⟨shallowReceiver, List.forall_mem_map.mpr fun e listed =>
        (shallow e listed).2⟩

end Nodes

theorem faithful_exprWith {bound : Nat} {members : List (String × Json)}
    (inner : Inner bound members) {e : Expr}
    (accepted : exprWith members (membersOf members) = .accepted e) :
    e.Documented ∧ e.Shallow bound := by
  unfold exprWith at accepted
  split at accepted
  · contradiction
  · rename_i found
    have deep := (inner _ (Json.mem_of_find? found)).2.2
    split at accepted
    · exact faithful_nodeWith (Nat.zero_lt_of_lt deep) inner
        ((Checked.under_eq_accepted _ _ _).mp accepted)
    · contradiction
  · contradiction

/-- Decoding is faithful. The induction is on the document; only arrays and objects are decoded to
anything. -/
theorem faithful {json : Json} (fits : json.Fits) : Faithful json := by
  induction fits with
  | @array items all ih =>
      refine ⟨fun _ accepted => ?_, fun _ accepted => ?_,
        fun {bound list} shallow accepted e listed => ?_, fun _ accepted => ?_⟩
      · cases accepted
      · cases accepted
      · obtain ⟨item, among, read⟩ := exists_of_exprsFrom accepted e listed
        have deep : item.depth + 2 ≤ bound := (Json.depth_array_lt.mp shallow).2 item among
        obtain ⟨documented, small⟩ := (ih item among).expr (Nat.le_sub_of_add_le deep) read
        exact ⟨documented, bound - 2, by omega, small⟩
      · cases accepted
  | @object members all ih =>
      have inner {bound : Nat} (shallow : (Json.object members).depth ≤ bound) :
          Inner bound members := fun member listed =>
        ⟨ih member listed, all member listed, Json.depth_object_le.mp shallow member listed⟩
      refine ⟨fun {bound e} shallow accepted => ?_, fun {bound body} shallow accepted => ?_,
        fun _ accepted => ?_, fun {bound fields} shallow accepted => ?_⟩
      · rw [expr_object] at accepted
        exact faithful_exprWith (inner shallow) accepted
      · rw [block, exprsMember?_eq] at accepted
        obtain ⟨documented, inside⟩ := faithful_blockWith (inner shallow) accepted
        refine ⟨documented, ?_⟩
        rcases Nat.eq_zero_or_pos bound with none | positive
        · exact .inr none
        · exact .inl (Expr.shallow_of_inside positive inside)
      · cases accepted
      · obtain ⟨pairs, read, rfl⟩ := (Checked.map_accepted_iff _ _ _).mp accepted
        refine ⟨Fields.nodup_keys_ofList pairs,
          Fields.forall_ofList (P := Below 2 bound) fun pair listed => ?_⟩
        obtain ⟨member, among, checked⟩ := exists_of_namedFrom read pair listed
        have deep : member.2.depth + 2 ≤ bound := (Json.depth_object_lt.mp shallow).2 member among
        obtain ⟨documented, small⟩ := (ih member among).expr (Nat.le_sub_of_add_le deep) checked
        exact ⟨documented, bound - 2, by omega, small⟩
  | _ =>
      refine ⟨?_, ?_, ?_, ?_⟩ <;>
      · intro _ _ _ accepted
        cases accepted

end Decode

/-! ## Canonical texts -/

namespace Script

/-- Some function of the program stands at the depth, the document of the program standing at depth
one. -/
def FunctionAt (script : Script) (depth : Nat) : Prop :=
  ∃ below, below + 1 = depth ∧ (Expr.block script.body).FunctionAt below

theorem depth_toJson (script : Script) :
    script.toJson.depth = (Encode.expr (.block script.body)).depth + 1 := by
  rw [Encode.expr_block]
  exact Nat.max_eq_left (Nat.zero_le _)

theorem FunctionAt.lt_depth {script : Script} {depth : Nat} (stands : script.FunctionAt depth) :
    depth < script.toJson.depth := by
  obtain ⟨below, rfl, function⟩ := stands
  have deeper := function.lt_depth
  rw [depth_toJson]
  omega

/-- What was accepted can be written, and its canonical document is no deeper than the reader goes
unless a function stands at the greatest depth. -/
theorem documented_of_ofText {text : String} {script : Script}
    (accepted : ofText text = .accepted script) :
    script.Documented ∧ (script.FunctionAt Json.Limits.standard.depth ∨
      script.toJson.depth ≤ Json.Limits.standard.depth) := by
  unfold ofText at accepted
  split at accepted
  · rename_i json read
    have within := Json.read?_within (Nat.le_refl _) read
    unfold ofJson at accepted
    split at accepted
    · rename_i members
      obtain ⟨body, found, rfl⟩ := (Checked.map_accepted_iff _ _ _).mp accepted
      rw [Decode.blockMember?_eq] at found
      have inner : Decode.Inner Json.Limits.standard.depth members := by
        cases within.fits with
        | object all =>
            exact fun member listed => ⟨Decode.faithful (all member listed), all member listed,
              Json.depth_object_le.mp (Nat.le_of_lt_succ within.depth_lt) member listed⟩
      obtain ⟨documented, shallow⟩ :=
        Decode.shallow_block inner (.inr (Member.of_required found))
      refine ⟨documented, ?_⟩
      rcases (shallow 199 rfl).resolve_right (by omega) with function | small
      · exact .inl ⟨199, rfl, function⟩
      · refine .inr ?_
        rw [depth_toJson]
        exact Nat.succ_le_succ small
    · contradiction
  · contradiction

/-- Where a function stands at the greatest depth, the canonical text is refused: the body of the
function, however it was written, would have to stand one level below. -/
theorem ofText_toText_of_functionAt {text : String} {script : Script}
    (accepted : ofText text = .accepted script)
    (function : script.FunctionAt Json.Limits.standard.depth) :
    ofText script.toText = .issue .jsonInvalid := by
  obtain ⟨documented, -⟩ := documented_of_ofText accepted
  rw [ofText_toText_eq documented, if_neg (Nat.not_le_of_lt function.lt_depth)]

/-- The canonical text of an accepted text is accepted and stands for the same program, so that its
canonical text is the text itself, unless a function stands at the greatest depth; then it is
refused. -/
theorem normal_form {text : String} {script : Script} (accepted : ofText text = .accepted script) :
    (¬ script.FunctionAt Json.Limits.standard.depth → ofText script.toText = .accepted script) ∧
      (script.FunctionAt Json.Limits.standard.depth →
        ofText script.toText = .issue .jsonInvalid) := by
  refine ⟨fun none => ?_, ofText_toText_of_functionAt accepted⟩
  obtain ⟨documented, deepest⟩ := documented_of_ofText accepted
  rw [ofText_toText_eq documented, if_pos (deepest.resolve_left none)]

/-- A text with a line written as text, a flag written as a number, members in another order and one
of no meaning, and much left out. -/
def lenientText : String :=
  "\x7b \"other\": [1.5], \"body\": \x7b\"instrs\": [\x7b\"declaration\": 1, \"name\": \"f\"," ++
    "\"expr\": \x7b\"body\": \x7b\x7d, \"kind\": \"fun\"\x7d, \"line_number\": \" 7.0\"," ++
    "\"kind\": \"local_var_assignment\"\x7d]\x7d\x7d"

/-- The program that it stands for. -/
def lenientScript : Script where
  body := { instrs := [.assignment (some 7) "f" (.function none none [] {}) true] }

theorem normal_form_lenientText :
    ofText lenientText = .accepted lenientScript ∧
      ofText lenientScript.toText = .accepted lenientScript := by
  have read : Json.read? .standard lenientText.toList =
      some (.object
        [("other", .array [.decimal false 15 (-1)]),
          ("body", .object
            [("instrs", .array
              [.object
                [("declaration", .int 1), ("name", .string "f"),
                  ("expr", .object [("body", .object []), ("kind", .string "fun")]),
                  ("line_number", .string " 7.0"),
                  ("kind", .string "local_var_assignment")]])])]) := by
    decide +kernel
  have accepted : ofText lenientText = .accepted lenientScript := by
    rw [ofText, read]
    rfl
  have low : ¬ lenientScript.FunctionAt Json.Limits.standard.depth := fun deep =>
    absurd deep.lt_depth (by decide)
  exact ⟨accepted, (normal_form accepted).1 low⟩

/-! ## A canonical text that is not accepted -/

/-- Blocks inside one another, with a function in the innermost whose body has no members. -/
def nestedJson : (blocks : Nat) → Json
  | 0 => .object [("kind", .string Kind.function.tag), ("body", .object [])]
  | blocks + 1 =>
      .object [("kind", .string Kind.block.tag), ("instrs", .array [nestedJson blocks])]

/-- The expression that they are. -/
def nestedExpr : (blocks : Nat) → Expr
  | 0 => .function none none [] {}
  | blocks + 1 => .block { instrs := [nestedExpr blocks] }

theorem plain_nestedJson (blocks : Nat) : (nestedJson blocks).Plain := by
  induction blocks with
  | zero => exact .object (by simp [Json.Plain.string, Json.Plain.object])
  | succ blocks ih =>
      have items : (Json.array [nestedJson blocks]).Plain :=
        .array (List.forall_mem_singleton.mpr ih)
      exact .object (by simp [Json.Plain.string, items])

theorem depth_nestedJson_le (blocks : Nat) : (nestedJson blocks).depth ≤ 2 * blocks + 1 := by
  induction blocks with
  | zero => exact Nat.le_refl 1
  | succ blocks ih =>
      simp only [nestedJson, Json.depth_object_le, Json.depth_array_lt, List.forall_mem_cons,
        Json.depth_string]
      exact ⟨by omega, ⟨by omega, by omega, List.forall_mem_nil _⟩, List.forall_mem_nil _⟩

theorem block_nestedJson {blocks : Nat}
    (inside : Decode.expr (nestedJson blocks) = .accepted (nestedExpr blocks)) :
    Decode.block (nestedJson (blocks + 1)) = .accepted { instrs := [nestedExpr blocks] } := by
  have items : Decode.exprs (.array [nestedJson blocks]) = .accepted [nestedExpr blocks] := by
    simp [Decode.exprs, Decode.exprsFrom, inside]
  have node : Decode.block (nestedJson (blocks + 1)) =
      Decode.blockWith
        [("kind", .string Kind.block.tag), ("instrs", .array [nestedJson blocks])]
        (some ((Decode.exprs (.array [nestedJson blocks])).under (.key "instrs"))) := rfl
  rw [node, items]
  rfl

theorem expr_nestedJson (blocks : Nat) :
    Decode.expr (nestedJson blocks) = .accepted (nestedExpr blocks) := by
  induction blocks with
  | zero => rfl
  | succ blocks ih =>
      have node : Decode.expr (nestedJson (blocks + 1)) =
          (Expr.block <$> Decode.block (nestedJson (blocks + 1))).under (.key Kind.block.tag) := rfl
      rw [node, block_nestedJson ih]
      rfl

theorem functionAt_nestedExpr (blocks : Nat) : (nestedExpr blocks).FunctionAt (2 * blocks + 1) := by
  induction blocks with
  | zero => exact .here
  | succ blocks ih =>
      have deeper : (nestedExpr (blocks + 1)).FunctionAt (2 * blocks + 1 + 2) :=
        .inside List.mem_cons_self ih
      exact deeper

/-- A document as deep as the reader allows. -/
def deepestJson : Json :=
  .object [("body", nestedJson 99)]

/-- A program of blocks inside one another. -/
def nestedScript (blocks : Nat) : Script where
  body := { instrs := [nestedExpr blocks] }

theorem functionAt_nestedScript (blocks : Nat) :
    (nestedScript blocks).FunctionAt (2 * blocks + 4) :=
  ⟨2 * (blocks + 1) + 1, by omega, functionAt_nestedExpr (blocks + 1)⟩

/-- A text is accepted and its canonical text is not. -/
theorem refused_toText_nestedScript :
    ofText deepestJson.render = .accepted (nestedScript 98) ∧
      ofText (nestedScript 98).toText = .issue .jsonInvalid := by
  have shallow : deepestJson.depth ≤ Json.Limits.standard.depth := by
    have body := depth_nestedJson_le 99
    exact Json.depth_object_le.mpr (List.forall_mem_singleton.mpr (Nat.lt_succ_of_le body))
  have read : Json.read? .standard (deepestJson.print Json.escape) = some deepestJson := by
    have plain : deepestJson.Plain := .object (List.forall_mem_singleton.mpr (plain_nestedJson 99))
    rw [Json.read?_print (Nat.le_refl _) plain, if_pos shallow]
  have accepted : ofText deepestJson.render = .accepted (nestedScript 98) := by
    rw [ofText, Json.render, String.toList_ofList, read]
    refine (ofJson_body (nestedJson 99)).trans ?_
    rw [block_nestedJson (expr_nestedJson 98)]
    rfl
  exact ⟨accepted, ofText_toText_of_functionAt accepted (functionAt_nestedScript 98)⟩

end Script

end ScriptTree
