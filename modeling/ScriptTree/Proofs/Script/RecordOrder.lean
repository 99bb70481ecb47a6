import ScriptTree.Proofs.HeapGrowth
import ScriptTree.Proofs.Replacement
import ScriptTree.Proofs.Script.DeclaredFields

/-!
# The order of the fields of a record

The members of `init_map` are no declared fields: their order is the order in which the fields of a
record are evaluated. Another order of these members gives the same tree, but that the one record
has its fields in another order (`Expr.Exchanged`), and the same issues but for the order of those
below (`Script.only_declared_fields`).
-/

namespace ScriptTree

/-! ## Trees -/

section Exchanged

variable (old new : List (String × Expr))

/-- The trees are the same, but that one record may have other fields. -/
inductive Expr.Exchanged : Expr → Expr → Prop where
  | same {expr : Expr} : Exchanged expr expr
  | record {line : Line} : Exchanged (.record line old) (.record line new)
  | child {expr node node' : Expr} {i : Nat} (stands : expr.child? i = some node)
      (inside : Exchanged node node') :
    Exchanged expr (expr.mapChildren fun j other => if j = i then node' else other)

/-- What is read in a place is the same, but that one record may have other fields. -/
def Slot.Exchanged : (slot : Slot) → slot.Result → slot.Result → Prop
  | .script, a, b => Expr.Exchanged old new (.block a.body) (.block b.body)
  | .block, a, b => Expr.Exchanged old new (.block a) (.block b)
  | .expr, a, b => Expr.Exchanged old new a b
  | .exprs, a, b => a = b ∨ ∃ front node node' back,
      a = front ++ node :: back ∧ b = front ++ node' :: back ∧
        Expr.Exchanged old new node node'
  | .named, a, b => a = b ∨ a = old ∧ b = new ∨ ∃ front key node node' back,
      a = front ++ (key, node) :: back ∧ b = front ++ (key, node') :: back ∧
        Expr.Exchanged old new node node'
  | _, a, b => a = b

variable {old new}

theorem Slot.Exchanged.refl {slot : Slot} (value : slot.Result) :
    slot.Exchanged old new value value := by
  cases slot with
  | script | block | expr => exact Expr.Exchanged.same
  | exprs | named => exact Or.inl rfl
  | _ => exact rfl

end Exchanged

namespace Expr.Exchanged

variable {old new own own' : List (String × Expr)} {node node' : Expr}
  {list list' : List Expr} {line : Line} {name : String}

section Lists

variable {α : Type} {change : Nat → α → α}

theorem mapIdx_eq_self {items : List α} (same : ∀ i < items.length, ∀ item, change i item = item) :
    items.mapIdx change = items :=
  List.ext_getElem (by simp) fun i _ inside => by rw [List.getElem_mapIdx, same i inside]

/-- A change of one item of a list, by its position. -/
theorem mapIdx_append_cons {front : List α}
    (others : ∀ i item, i ≠ front.length → change i item = item) (item : α) (back : List α) :
    (front ++ item :: back).mapIdx change = front ++ change front.length item :: back := by
  rw [List.mapIdx_append, List.mapIdx_cons, Nat.zero_add,
    mapIdx_eq_self fun i inside item => others i item (Nat.ne_of_lt inside),
    mapIdx_eq_self fun i _ item => others _ item (by omega)]

end Lists

theorem of_child {expr expr' : Expr} (i : Nat) (stands : expr.child? i = some node)
    (changed : (expr.mapChildren fun j other => if j = i then node' else other) = expr')
    (inside : Exchanged old new node node') : Exchanged old new expr expr' :=
  changed ▸ .child stands inside

theorem block (inside : Slot.exprs.Exchanged old new list list') :
    Exchanged old new (.block ⟨line, list⟩) (.block ⟨line, list'⟩) := by
  obtain rfl | ⟨front, node, node', back, rfl, rfl, inside⟩ := inside
  · exact .same
  · refine of_child front.length (by simp [child?]) ?_ inside
    rw [mapChildren]
    dsimp only
    rw [mapIdx_append_cons fun i item other => if_neg other, if_pos rfl]

theorem callee {arguments : List Expr} (inside : Exchanged old new node node') :
    Exchanged old new (.call line node arguments) (.call line node' arguments) := by
  refine of_child 0 rfl ?_ inside
  rw [mapChildren, if_pos rfl, mapIdx_eq_self fun i _ item => if_neg (Nat.succ_ne_zero i)]

theorem receiver {arguments : List Expr} (inside : Exchanged old new node node') :
    Exchanged old new (.methodCall line node name arguments)
      (.methodCall line node' name arguments) := by
  refine of_child 0 rfl ?_ inside
  rw [mapChildren, if_pos rfl, mapIdx_eq_self fun i _ item => if_neg (Nat.succ_ne_zero i)]

theorem call {callee : Expr} (inside : Slot.exprs.Exchanged old new list list') :
    Exchanged old new (.call line callee list) (.call line callee list') := by
  obtain rfl | ⟨front, node, node', back, rfl, rfl, inside⟩ := inside
  · exact .same
  · refine of_child (front.length + 1) (by simp [child?]) ?_ inside
    rw [mapChildren, if_neg (Nat.succ_ne_zero _).symm,
      mapIdx_append_cons fun i item other => if_neg (by omega), if_pos rfl]

theorem methodCall {receiver : Expr} (inside : Slot.exprs.Exchanged old new list list') :
    Exchanged old new (.methodCall line receiver name list)
      (.methodCall line receiver name list') := by
  obtain rfl | ⟨front, node, node', back, rfl, rfl, inside⟩ := inside
  · exact .same
  · refine of_child (front.length + 1) (by simp [child?]) ?_ inside
    rw [mapChildren, if_neg (Nat.succ_ne_zero _).symm,
      mapIdx_append_cons fun i item other => if_neg (by omega), if_pos rfl]

theorem named (inside : Slot.named.Exchanged old new own own') :
    Exchanged old new (.record line own) (.record line own') := by
  obtain rfl | ⟨rfl, rfl⟩ | ⟨front, name, node, node', back, rfl, rfl, inside⟩ := inside
  · exact .same
  · exact .record
  · refine of_child front.length (by simp [child?]) ?_ inside
    rw [mapChildren, mapIdx_append_cons fun i item other => by rw [if_neg other], if_pos rfl]

end Expr.Exchanged

/-! ## Nodes -/

namespace Checked

variable {α β γ δ ε : Type}

theorem map₂_accepted_iff {f : α → β → γ} {a : Checked α} {b : Checked β} {result : γ} :
    (f <$> a <*> b) = .accepted result ↔
      ∃ x y, a = .accepted x ∧ b = .accepted y ∧ f x y = result := by
  cases a <;> cases b <;> simp [seq_eq, seq]

theorem map₃_accepted_iff {f : α → β → γ → δ} {a : Checked α} {b : Checked β} {c : Checked γ}
    {result : δ} :
    (f <$> a <*> b <*> c) = .accepted result ↔
      ∃ x y z, a = .accepted x ∧ b = .accepted y ∧ c = .accepted z ∧ f x y z = result := by
  cases a <;> cases b <;> cases c <;> simp [seq_eq, seq]

theorem map₄_accepted_iff {f : α → β → γ → δ → ε} {a : Checked α} {b : Checked β}
    {c : Checked γ} {d : Checked δ} {result : ε} :
    (f <$> a <*> b <*> c <*> d) = .accepted result ↔
      ∃ w x y z, a = .accepted w ∧ b = .accepted x ∧ c = .accepted y ∧ d = .accepted z ∧
        f w x y z = result := by
  cases a <;> cases b <;> cases c <;> cases d <;> simp [seq_eq, seq]

end Checked

theorem Checked.eq_of_same {α : Type} {checked checked' : Checked α} {a a' : α}
    (same : checked = checked') (accepted : checked = .accepted a)
    (accepted' : checked' = .accepted a') : a = a' :=
  Checked.accepted.inj (accepted.symm.trans (same.trans accepted'))

namespace Shape

open ScriptTree.Expr (Exchanged)

variable {slot : Slot} {old new : List (String × Expr)}
  {read read' : (field : Field) → Checked field.slot.Result}

/-- What is read of each field is the same, but that one record may have other fields, and of any
two fields one is read as the same. -/
structure ReadsExchanged (shape : Shape slot) (old new : List (String × Expr))
    (read read' : (field : Field) → Checked field.slot.Result) : Prop where
  each : ∀ field ∈ shape.fields, ∀ a a', read field = .accepted a → read' field = .accepted a' →
    field.slot.Exchanged old new a a'
  one : shape.fields.Pairwise fun field other =>
    read field = read' field ∨ read other = read' other

/-- If one record is exchanged in what is read of a field, then so it is in the node. -/
theorem node_exchanged {kind : Kind} {result result' : Expr}
    (reads : (node kind).ReadsExchanged old new read read')
    (accepted : (node kind).build read = .accepted result)
    (accepted' : (node kind).build read' = .accepted result') :
    Exchanged old new result result' := by
  obtain ⟨each, one⟩ := reads
  -- a scalar is the same; of two children, one is the same
  cases kind <;>
    simp only [fields, Kind.fields, List.forall_mem_cons, List.pairwise_cons] at each one
  case literal =>
    obtain ⟨a, b, line, value, rfl⟩ := Checked.map₂_accepted_iff.mp accepted
    obtain ⟨a', b', line', value', rfl⟩ := Checked.map₂_accepted_iff.mp accepted'
    obtain rfl := each.1 a a' line line'
    obtain rfl := each.2.1 b b' value value'
    exact .same
  case var =>
    obtain ⟨a, b, line, name, rfl⟩ := Checked.map₂_accepted_iff.mp accepted
    obtain ⟨a', b', line', name', rfl⟩ := Checked.map₂_accepted_iff.mp accepted'
    obtain rfl := each.1 a a' line line'
    obtain rfl := each.2.1 b b' name name'
    exact .same
  case block =>
    obtain ⟨a, b, line, instrs, rfl⟩ := Checked.map₂_accepted_iff.mp accepted
    obtain ⟨a', b', line', instrs', rfl⟩ := Checked.map₂_accepted_iff.mp accepted'
    obtain rfl := each.1 a a' line line'
    exact .block (each.2.1 b b' instrs instrs')
  case returns =>
    obtain ⟨a, b, line, expr, rfl⟩ := Checked.map₂_accepted_iff.mp accepted
    obtain ⟨a', b', line', expr', rfl⟩ := Checked.map₂_accepted_iff.mp accepted'
    obtain rfl := each.1 a a' line line'
    exact .of_child 0 rfl rfl (each.2.1 b b' expr expr')
  case record =>
    obtain ⟨a, b, line, fields, rfl⟩ := Checked.map₂_accepted_iff.mp accepted
    obtain ⟨a', b', line', fields', rfl⟩ := Checked.map₂_accepted_iff.mp accepted'
    obtain rfl := each.1 a a' line line'
    exact .named (each.2.1 b b' fields fields')
  case field =>
    obtain ⟨a, b, c, line, receiver, name, rfl⟩ := Checked.map₃_accepted_iff.mp accepted
    obtain ⟨a', b', c', line', receiver', name', rfl⟩ := Checked.map₃_accepted_iff.mp accepted'
    obtain rfl := each.1 a a' line line'
    obtain rfl := each.2.2.1 c c' name name'
    exact .of_child 0 rfl rfl (each.2.1 b b' receiver receiver')
  case assignment =>
    obtain ⟨a, b, c, d, line, name, expr, flag, rfl⟩ := Checked.map₄_accepted_iff.mp accepted
    obtain ⟨a', b', c', d', line', name', expr', flag', rfl⟩ :=
      Checked.map₄_accepted_iff.mp accepted'
    obtain rfl := each.1 a a' line line'
    obtain rfl := each.2.1 b b' name name'
    obtain rfl := each.2.2.2.1 d d' flag flag'
    exact .of_child 0 rfl rfl (each.2.2.1 c c' expr expr')
  case function =>
    obtain ⟨a, b, c, d, line, name, parameters, body, rfl⟩ := Checked.map₄_accepted_iff.mp accepted
    obtain ⟨a', b', c', d', line', name', parameters', body', rfl⟩ :=
      Checked.map₄_accepted_iff.mp accepted'
    obtain rfl := each.1 a a' line line'
    obtain rfl := each.2.1 b b' name name'
    obtain rfl := each.2.2.1 c c' parameters parameters'
    have inside : Exchanged old new (.block d) (.block d') := each.2.2.2.1 d d' body body'
    exact .of_child 0 rfl rfl inside
  case call =>
    obtain ⟨a, b, c, line, callee, args, rfl⟩ := Checked.map₃_accepted_iff.mp accepted
    obtain ⟨a', b', c', line', callee', args', rfl⟩ := Checked.map₃_accepted_iff.mp accepted'
    obtain rfl := each.1 a a' line line'
    rcases one.2.1.1 with same | same
    · obtain rfl := Checked.eq_of_same same callee callee'
      exact .call (each.2.2.1 c c' args args')
    · obtain rfl := Checked.eq_of_same same args args'
      exact .callee (each.2.1 b b' callee callee')
  case fieldAssignment =>
    obtain ⟨a, b, c, d, line, receiver, name, expr, rfl⟩ := Checked.map₄_accepted_iff.mp accepted
    obtain ⟨a', b', c', d', line', receiver', name', expr', rfl⟩ :=
      Checked.map₄_accepted_iff.mp accepted'
    obtain rfl := each.1 a a' line line'
    obtain rfl := each.2.2.1 c c' name name'
    rcases one.2.1.2.1 with same | same
    · obtain rfl := Checked.eq_of_same same receiver receiver'
      exact .of_child 1 rfl rfl (each.2.2.2.1 d d' expr expr')
    · obtain rfl := Checked.eq_of_same same expr expr'
      exact .of_child 0 rfl rfl (each.2.1 b b' receiver receiver')
  case methodCall =>
    obtain ⟨a, b, c, d, line, receiver, name, args, rfl⟩ := Checked.map₄_accepted_iff.mp accepted
    obtain ⟨a', b', c', d', line', receiver', name', args', rfl⟩ :=
      Checked.map₄_accepted_iff.mp accepted'
    obtain rfl := each.1 a a' line line'
    obtain rfl := each.2.2.1 c c' name name'
    rcases one.2.1.2.1 with same | same
    · obtain rfl := Checked.eq_of_same same receiver receiver'
      exact .methodCall (each.2.2.2.1 d d' args args')
    · obtain rfl := Checked.eq_of_same same args args'
      exact .receiver (each.2.1 b b' receiver receiver')
  case branch =>
    obtain ⟨a, b, c, d, line, condition, onTrue, onFalse, rfl⟩ :=
      Checked.map₄_accepted_iff.mp accepted
    obtain ⟨a', b', c', d', line', condition', onTrue', onFalse', rfl⟩ :=
      Checked.map₄_accepted_iff.mp accepted'
    obtain rfl := each.1 a a' line line'
    have insideTrue : Exchanged old new (.block c) (.block c') := each.2.2.1 c c' onTrue onTrue'
    have insideFalse : Exchanged old new (.block d) (.block d') :=
      each.2.2.2.1 d d' onFalse onFalse'
    rcases one.2.2.1.1 with same | same
    · obtain rfl := Checked.eq_of_same same onTrue onTrue'
      rcases one.2.1.2.1 with same | same
      · obtain rfl := Checked.eq_of_same same condition condition'
        exact .of_child 2 rfl rfl insideFalse
      · obtain rfl := Checked.eq_of_same same onFalse onFalse'
        exact .of_child 0 rfl rfl (each.2.1 b b' condition condition')
    · obtain rfl := Checked.eq_of_same same onFalse onFalse'
      rcases one.2.1.1 with same | same
      · obtain rfl := Checked.eq_of_same same condition condition'
        exact .of_child 1 rfl rfl insideTrue
      · obtain rfl := Checked.eq_of_same same onTrue onTrue'
        exact .of_child 0 rfl rfl (each.2.1 b b' condition condition')

/-- So it is in any object. -/
theorem build_exchanged {shape : Shape slot} {result result' : slot.Result}
    (reads : shape.ReadsExchanged old new read read')
    (accepted : shape.build read = .accepted result)
    (accepted' : shape.build read' = .accepted result') :
    slot.Exchanged old new result result' := by
  cases shape with
  | node kind => exact node_exchanged reads accepted accepted'
  | script =>
      obtain ⟨a, body, rfl⟩ := (Checked.map_accepted_iff _ _ _).mp accepted
      obtain ⟨a', body', rfl⟩ := (Checked.map_accepted_iff _ _ _).mp accepted'
      exact reads.each (.block "body") (.head _) a a' body body'
  | block =>
      obtain ⟨a, _, b, line, _, instrs, rfl⟩ := Checked.map₃_accepted_iff.mp accepted
      obtain ⟨a', _, b', line', _, instrs', rfl⟩ := Checked.map₃_accepted_iff.mp accepted'
      obtain rfl := reads.each .line (.head _) a a' line line'
      exact Exchanged.block
        (reads.each (.exprs "instrs") (.tail _ (.tail _ (.head _))) b b' instrs instrs')

end Shape

/-! ## Named expressions -/

namespace Fields

variable {α : Type} {name : String} {value value' : α} {fields fields' : Fields α}

/-- The bindings are the same, but that one name may be bound to another value. -/
def Replaced (name : String) (value value' : α) (fields fields' : Fields α) : Prop :=
  fields = fields' ∨ ∃ front back,
    fields = front ++ (name, value) :: back ∧ fields' = front ++ (name, value') :: back

theorem Replaced.cons (binding : String × α)
    (replaced : Replaced name value value' fields fields') :
    Replaced name value value' (binding :: fields) (binding :: fields') := by
  obtain rfl | ⟨front, back, rfl, rfl⟩ := replaced
  · exact .inl rfl
  · exact .inr ⟨binding :: front, back, rfl, rfl⟩

theorem replaced_put (fields : Fields α) (name : String) (value value' : α) :
    Replaced name value value' (fields.put name value) (fields.put name value') := by
  induction fields with
  | nil => exact .inr ⟨[], [], rfl, rfl⟩
  | cons binding rest ih =>
      rw [put, put]
      by_cases same : binding.1 = name
      · rw [if_pos same, if_pos same, same]
        exact .inr ⟨[], rest, rfl, rfl⟩
      · rw [if_neg same, if_neg same]
        exact ih.cons binding

theorem Replaced.put (replaced : Replaced name value value' fields fields') (key : String)
    (bound : α) : Replaced name value value' (fields.put key bound) (fields'.put key bound) := by
  obtain rfl | ⟨front, back, rfl, rfl⟩ := replaced
  · exact .inl rfl
  · induction front with
    | nil =>
        rw [List.nil_append, List.nil_append, Fields.put, Fields.put]
        split
        · exact .inl rfl
        · exact .inr ⟨[], Fields.put back key bound, rfl, rfl⟩
    | cons binding front ih =>
        rw [List.cons_append, List.cons_append, Fields.put, Fields.put]
        split
        · exact .inr ⟨(binding.1, bound) :: front, back, rfl, rfl⟩
        · exact ih.cons binding

/-- Of bindings made in turn, another value in one place gives another value of its name, or
none. -/
theorem replaced_ofList (before : List (String × α)) (name : String) (value value' : α)
    (after : List (String × α)) :
    Replaced name value value' (ofList (before ++ (name, value) :: after))
      (ofList (before ++ (name, value') :: after)) := by
  have later {fields fields' : Fields α} (replaced : Replaced name value value' fields fields') :
      Replaced name value value' (fields.putAll after) (fields'.putAll after) := by
    induction after generalizing fields fields' with
    | nil => exact replaced
    | cons binding after ih => exact ih (replaced.put binding.1 binding.2)
  have split (value : α) : ofList (before ++ (name, value) :: after) =
      ((ofList before).put name value).putAll after := List.foldl_append
  rw [split, split]
  exact later (replaced_put _ name value value')

/-- Bindings are determined up to their order by what each name reads. -/
theorem perm_ofList {pairs pairs' : List (String × α)}
    (same : ∀ name, Json.find? pairs' name = Json.find? pairs name) :
    (ofList pairs).Perm (ofList pairs') := by
  have nodup (pairs : List (String × α)) : (ofList pairs).Nodup :=
    List.Nodup.of_map Prod.fst (nodup_keys_ofList pairs)
  have listed (pairs : List (String × α)) (binding : String × α) :
      binding ∈ ofList pairs ↔ Json.find? pairs binding.1 = some binding.2 := by
    rw [Json.find?_eq_get?_ofList]
    exact ⟨get?_of_mem (nodup_keys_ofList pairs), mem_of_get?⟩
  refine (List.perm_ext_iff_of_nodup (nodup pairs) (nodup pairs')).mpr fun binding => ?_
  rw [listed, listed, same]

end Fields

theorem Json.find?_map {α β : Type} (f : α → β) (members : List (String × α)) (name : String) :
    find? (members.map fun member => (member.1, f member.2)) name =
      (find? members name).map f := by
  induction members with
  | nil => rfl
  | cons member rest ih =>
      rw [List.map_cons, find?, find?, ih]
      cases find? rest name with
      | some found => rfl
      | none => by_cases same : member.1 = name <;> simp [same]

namespace Decode

/-- A list of expressions is read one by one. -/
theorem exprsFrom_append_cons {position : Nat} {front back : List Json} {part : Json}
    {list : List Expr} (accepted : exprsFrom position (front ++ part :: back) = .accepted list) :
    ∃ before node after, list = before ++ node :: after ∧ expr part = .accepted node ∧
      ∀ part' node', expr part' = .accepted node' →
        exprsFrom position (front ++ part' :: back) = .accepted (before ++ node' :: after) := by
  induction front generalizing position list with
  | nil =>
      rw [List.nil_append, exprsFrom] at accepted
      obtain ⟨node, after, here, later, rfl⟩ := Checked.map₂_accepted_iff.mp accepted
      refine ⟨[], node, after, rfl, (Checked.under_eq_accepted _ _ _).mp here,
        fun part' node' here' => ?_⟩
      rw [List.nil_append, exprsFrom, here', later]
      rfl
  | cons item front ih =>
      rw [List.cons_append, exprsFrom] at accepted
      obtain ⟨first, rest, here, later, rfl⟩ := Checked.map₂_accepted_iff.mp accepted
      obtain ⟨before, node, after, rfl, read, change⟩ := ih later
      refine ⟨first :: before, node, after, rfl, read, fun part' node' read' => ?_⟩
      rw [List.cons_append, exprsFrom, here, change part' node' read']
      rfl

theorem namedFrom_append_cons {name : String} {front back : List (String × Json)} {part : Json}
    {entries : List (String × Expr)}
    (accepted : namedFrom (front ++ (name, part) :: back) = .accepted entries) :
    ∃ before node after, entries = before ++ (name, node) :: after ∧ expr part = .accepted node ∧
      ∀ part' node', expr part' = .accepted node' →
        namedFrom (front ++ (name, part') :: back) =
          .accepted (before ++ (name, node') :: after) := by
  induction front generalizing entries with
  | nil =>
      rw [List.nil_append, namedFrom] at accepted
      obtain ⟨node, after, here, later, rfl⟩ := Checked.map₂_accepted_iff.mp accepted
      refine ⟨[], node, after, rfl, (Checked.under_eq_accepted _ _ _).mp here,
        fun part' node' here' => ?_⟩
      rw [List.nil_append, namedFrom, here', later]
      rfl
  | cons member front ih =>
      rw [List.cons_append, namedFrom] at accepted
      obtain ⟨first, rest, here, later, rfl⟩ := Checked.map₂_accepted_iff.mp accepted
      obtain ⟨before, node, after, rfl, read, change⟩ := ih later
      refine ⟨(member.1, first) :: before, node, after, rfl, read, fun part' node' read' => ?_⟩
      rw [List.cons_append, namedFrom, here, change part' node' read']
      rfl

/-- Every entry is what its own expression is read as. -/
theorem exists_namedFrom_eq_map : ∃ node : Json → Expr, ∀ members entries,
    namedFrom members = .accepted entries →
      entries = members.map fun member => (member.1, node member.2) := by
  refine ⟨fun json => match expr json with
    | .accepted node => node
    | .refused _ => .unknown none "", fun members => ?_⟩
  induction members with
  | nil =>
      rintro entries ⟨⟩
      rfl
  | cons member members ih =>
      intro entries accepted
      rw [namedFrom] at accepted
      obtain ⟨first, rest, here, later, rfl⟩ := Checked.map₂_accepted_iff.mp accepted
      rw [List.map_cons, ← ih rest later]
      dsimp only
      rw [(Checked.under_eq_accepted _ _ _).mp here]

/-- Named expressions in another order are bound to the same names. -/
theorem named_permuted {members members' : List (String × Json)}
    (order : Json.Permuted members members') {fields : List (String × Expr)}
    (accepted : named (.object members) = .accepted fields) :
    ∃ fields', named (.object members') = .accepted fields' ∧ fields.Perm fields' := by
  obtain ⟨node, entry⟩ := exists_namedFrom_eq_map
  obtain ⟨entries, read, rfl⟩ := (Checked.map_accepted_iff _ _ _).mp accepted
  have all := (accepts_namedFrom members).mp ⟨entries, read⟩
  obtain ⟨entries', read'⟩ := (accepts_namedFrom members').mpr fun member listed =>
    all member (order.perm.mem_iff.mpr listed)
  refine ⟨Fields.ofList entries', congrArg (Fields.ofList <$> ·) read',
    Fields.perm_ofList fun name => ?_⟩
  rw [entry members entries read, entry members' entries' read', Json.find?_map, Json.find?_map,
    order.last]

end Decode

/-! ## Documents -/

/-- If one record is exchanged in what is read in the hole, then so it is in what is read of the
layer. -/
theorem Layer.exchanged {inner outer : Slot} {old new : List (String × Expr)}
    (layer : Layer inner outer) {part part' : Json}
    {a a' : inner.Result} (here : inner.check part = .accepted a)
    (here' : inner.check part' = .accepted a') (exchanged : inner.Exchanged old new a a')
    {b : outer.Result} (accepted : outer.check (layer.fill part) = .accepted b) :
    ∃ b', outer.check (layer.fill part') = .accepted b' ∧ outer.Exchanged old new b b' := by
  cases layer with
  | @member _ shape field front back shaped declared last =>
      have checked (json : Json) :=
        Slot.check_object ((Slot.shape?_member shape declared front back json).trans shaped)
      have own (json : Json) : field.read (front ++ (field.key, json) :: back) = _ :=
        Field.read_of_find? (Json.find?_of_last json last)
      rw [fill, checked part, Checked.within_eq_accepted] at accepted
      have reads : shape.ReadsExchanged old new
          (fun other => other.read (front ++ (field.key, part) :: back))
          fun other => other.read (front ++ (field.key, part') :: back) := by
        constructor
        · intro other declared' x x' read read'
          rcases shape.eq_or_ne declared declared' with rfl | differs
          · rw [own, here] at read
            rw [own, here'] at read'
            cases read
            cases read'
            exact exchanged
          · obtain rfl := Checked.eq_of_same (Field.read_of_ne differs ..) read read'
            exact .refl x
        · refine (List.pairwise_map.mp shape.nodup_keys).imp fun {first second} differs => ?_
          by_cases key : field.key = first.key
          · exact .inr (Field.read_of_ne (key ▸ differs) ..)
          · exact .inl (Field.read_of_ne key ..)
      have accepts' : (shape.build fun other =>
          other.read (front ++ (field.key, part') :: back)).Accepts := by
        refine shape.accepts_build.mpr fun other declared' => ?_
        rcases shape.eq_or_ne declared declared' with rfl | differs
        · rw [own, here']
          exact ⟨a', rfl⟩
        · rw [Field.read_of_ne differs front back part' part]
          exact shape.accepts_build.mp ⟨b, accepted⟩ other declared'
      obtain ⟨b', accepted'⟩ := accepts'
      refine ⟨b', ?_, Shape.build_exchanged reads accepted accepted'⟩
      rw [fill, checked part', Checked.within_eq_accepted]
      exact accepted'
  | item front back =>
      have list : Decode.exprsFrom 0 (front ++ part :: back) = .accepted b := accepted
      obtain ⟨before, node, after, rfl, read, change⟩ := Decode.exprsFrom_append_cons list
      cases here.symm.trans read
      exact ⟨_, change part' a' here', Or.inr ⟨before, a, a', after, rfl, rfl, exchanged⟩⟩
  | entry front name back =>
      have entries : Fields.ofList <$> Decode.namedFrom (front ++ (name, part) :: back) =
        .accepted b := accepted
      obtain ⟨list, read, rfl⟩ := (Checked.map_accepted_iff _ _ _).mp entries
      obtain ⟨before, node, after, rfl, read, change⟩ := Decode.namedFrom_append_cons read
      cases here.symm.trans read
      refine ⟨_, congrArg (Fields.ofList <$> ·) (change part' a' here'), ?_⟩
      rcases Fields.replaced_ofList before name a a' after with same | ⟨front, back, before, after⟩
      · exact Or.inl same
      · exact Or.inr (Or.inr ⟨front, name, a, a', back, before, after, exchanged⟩)

theorem Context.exchanged {inner outer : Slot} {old new : List (String × Expr)}
    (context : Context inner outer) {part part' : Json}
    {a a' : inner.Result} (here : inner.check part = .accepted a)
    (here' : inner.check part' = .accepted a') (exchanged : inner.Exchanged old new a a')
    {b : outer.Result} (accepted : outer.check (context.fill part) = .accepted b) :
    ∃ b', outer.check (context.fill part') = .accepted b' ∧ outer.Exchanged old new b b' := by
  induction context with
  | here =>
      cases here.symm.trans accepted
      exact ⟨a', here', exchanged⟩
  | inside layer context ih =>
      obtain ⟨middle, read⟩ := ((Slot.accepts_iff _ _).mp ⟨b, accepted⟩).2 layer _ rfl
      obtain ⟨middle', read', among⟩ := ih read
      exact layer.exchanged read read' among accepted

namespace Script

/-- The programs are the same, but that one record may have other fields. -/
def Exchanged (old new : List (String × Expr)) (script script' : Script) : Prop :=
  Expr.Exchanged old new (.block script.body) (.block script'.body)

/-- The issues of named expressions, one expression after another, below a path. -/
def entryIssues (path : List Step) (members : List (String × Json)) : List Issue :=
  members.flatMap fun member =>
    (Decode.expr member.2).issues.map (Issue.within (path ++ [.key member.1]))

theorem issues_named_within (path : List Step) (members : List (String × Json)) :
    (Slot.named.check (.object members)).issues.map (Issue.within path) =
      entryIssues path members := by
  rw [Slot.issues_named, Issue.ofParts, List.flatMap_map, List.map_flatMap, entryIssues]
  simp only [List.map_map, Issue.within_append]
  rfl

/-- The entries of a record in another order give a program that is the same but for that order. -/
theorem exists_exchanged (context : Context .named .script)
    {members members' : List (String × Json)}
    (order : Json.Permuted members members') {script : Script}
    (accepted : Slot.script.check (context.fill (.object members)) = .accepted script) :
    ∃ script' fields fields',
      Slot.script.check (context.fill (.object members')) = .accepted script' ∧
      Decode.named (.object members) = .accepted fields ∧
      Decode.named (.object members') = .accepted fields' ∧
      fields.Perm fields' ∧ script.Exchanged fields fields' script' := by
  obtain ⟨fields, read⟩ := context.accepts_part ⟨script, accepted⟩
  obtain ⟨fields', read', perm⟩ := Decode.named_permuted order read
  have given : Slot.named.check (.object members') = .accepted fields' := read'
  obtain ⟨script', accepted', exchanged⟩ :=
    context.exchanged read given (Or.inr (Or.inl ⟨rfl, rfl⟩)) accepted
  exact ⟨script', fields, fields', accepted', read, read', perm, exchanged⟩

/-- How a node is written does not matter beyond its declared fields: edits of nodes, at any places
and any number of them, give the same program or the same issues in the same order. Another order of
the entries of a record gives the same program, but that the record has its fields in another order,
and the same issues but for the order of those of the entries. In another order, the last member of
each name is still the last of its name. -/
theorem only_declared_fields :
    (∀ json json' text text', Relation.EqvGen Json.Edited json json' →
      Json.read? .standard text.toList = some json →
      Json.read? .standard text'.toList = some json' → ofText text = ofText text') ∧
    ∀ (context : Context .named .script) members members' text text',
      Json.Permuted members members' →
      Json.read? .standard text.toList = some (context.fill (.object members)) →
      Json.read? .standard text'.toList = some (context.fill (.object members')) →
        (∃ before after,
          (ofText text).issues = before ++ entryIssues context.path members ++ after ∧
          (ofText text').issues = before ++ entryIssues context.path members' ++ after) ∧
        ((∃ issues issues', ofText text = .refused issues ∧ ofText text' = .refused issues') ∨
          ∃ script script' fields fields',
            ofText text = .accepted script ∧ ofText text' = .accepted script' ∧
            Decode.named (.object members) = .accepted fields ∧
            Decode.named (.object members') = .accepted fields' ∧
            fields.Perm fields' ∧ script.Exchanged fields fields' script') := by
  constructor
  · intro json json' text text' edits read read'
    rw [ofText_of_read? read, ofText_of_read? read']
    exact Slot.check_of_edits edits
  · intro context members members' text text' order read read'
    rw [ofText_of_read? read, ofText_of_read? read']
    constructor
    · obtain ⟨before, after, issues, -⟩ := context.issues_fill
      refine ⟨before, after, ?_, ?_⟩
      · rw [issues, issues_named_within]
      · rw [issues, issues_named_within]
    · cases accepted : Slot.script.check (context.fill (.object members)) with
      | accepted script =>
          obtain ⟨script', fields, fields', accepted', exchanged⟩ :=
            exists_exchanged context order accepted
          exact .inr ⟨script, script', fields, fields', rfl, accepted', exchanged⟩
      | refused issues =>
          cases accepted' : Slot.script.check (context.fill (.object members')) with
          | refused issues' => exact .inl ⟨issues, issues', rfl, rfl⟩
          | accepted script' =>
              obtain ⟨script, _, _, other, -⟩ := exists_exchanged context order.symm accepted'
              rw [accepted] at other
              cases other

/-- A variable with two names, the second of which is read. -/
def twiceNamed (first second : String) : List (String × Json) :=
  [("kind", .string "local_var_access"), ("name", .string first), ("name", .string second)]

/-- The program as a text. -/
def twiceNamedText (first second : String) : String :=
  "\x7b\"body\":\x7b\"instrs\":[\x7b\"kind\":\"local_var_access\",\"name\":\"" ++ first ++
    "\",\"name\":\"" ++ second ++ "\"\x7d]\x7d\x7d"

/-- Members of one name cannot change places: the last of them is the one that is read. -/
theorem ofText_of_twiceNamed :
    (twiceNamed "a" "b").Perm (twiceNamed "b" "a") ∧
      Json.read? .standard (twiceNamedText "a" "b").toList =
        some ((ofNode .here).fill (.object (twiceNamed "a" "b"))) ∧
      Json.read? .standard (twiceNamedText "b" "a").toList =
        some ((ofNode .here).fill (.object (twiceNamed "b" "a"))) ∧
      ofText (twiceNamedText "a" "b") ≠ ofText (twiceNamedText "b" "a") := by
  have read : Json.read? .standard (twiceNamedText "a" "b").toList =
      some ((ofNode .here).fill (.object (twiceNamed "a" "b"))) := by
    decide +kernel
  have read' : Json.read? .standard (twiceNamedText "b" "a").toList =
      some ((ofNode .here).fill (.object (twiceNamed "b" "a"))) := by
    decide +kernel
  refine ⟨.cons _ (.swap ..), read, read', fun same => ?_⟩
  rw [ofText_of_read? read, ofText_of_read? read'] at same
  injection same with same
  simp at same

end Script

end ScriptTree
