import ScriptTree.Proofs.Script.Shapes

/-!
# Issues compose

A document with a hole is a `Context`: layers around the hole, each of them a node with a valid tag
whose declared field holds the rest, a list, or an object of named expressions. The tags of the
nodes and the names and positions of the rest are the path to the hole.

What the check of a document finds is what it finds around the hole and, in one piece, what the
check of the part in the hole finds by itself (`Context.issues_fill`). A document is accepted when
none of its parts has an issue itself (`Context.accepts_iff_own`).
-/

namespace ScriptTree

/-! ## Layers -/

/-- One layer of a document around a hole: which part of what the hole is, and what stands before
and after it. Of the members of one name the last is the one that is read. -/
inductive Layer : Slot → Slot → Type where
  | member {slot : Slot} {shape : Shape slot} {field : Field} (front back : List (String × Json))
      (shaped : slot.shape? (front ++ back) = some shape) (declared : field ∈ shape.fields)
      (last : field.key ∉ back.map Prod.fst) : Layer field.slot slot
  | item (front back : List Json) : Layer .expr .exprs
  | entry (front : List (String × Json)) (name : String) (back : List (String × Json)) :
    Layer .expr .named

namespace Layer

variable {inner outer : Slot}

/-- The layer around a document. -/
def fill : Layer inner outer → Json → Json
  | @member _ _ field front back .., json => .object (front ++ (field.key, json) :: back)
  | item front back, json => .array (front ++ json :: back)
  | entry front name back, json => .object (front ++ (name, json) :: back)

/-- The steps to the node that the layer is. -/
def outerSteps : Layer inner outer → List Step
  | @member _ shape .. => shape.steps
  | item .. | entry .. => []

/-- The step from there to the hole. -/
def step : Layer inner outer → Step
  | @member _ _ field .. => .key field.key
  | item front _ => .index front.length
  | entry _ name _ => .key name

/-- The path from the layer to the hole. -/
def path (layer : Layer inner outer) : List Step :=
  layer.outerSteps ++ [layer.step]

/-- No other expression has the name of the hole. -/
def Alone : Layer inner outer → Prop
  | entry front name back => name ∉ (front ++ back).map Prod.fst
  | member .. | item .. => True

end Layer

namespace Issue

variable {issue : Issue} {parts : List (Step × List Issue)}

theorem ofParts_append (earlier later : List (Step × List Issue)) :
    ofParts (earlier ++ later) = ofParts earlier ++ ofParts later :=
  List.flatMap_append

theorem ofParts_append_cons (earlier : List (Step × List Issue)) (step : Step)
    (issues : List Issue) (later : List (Step × List Issue)) :
    ofParts (earlier ++ (step, issues) :: later) =
      ofParts earlier ++ issues.map (under step) ++ ofParts later := by
  simp [ofParts]

/-- The issues of a part are below its step. -/
theorem exists_of_mem_ofParts (listed : issue ∈ ofParts parts) :
    ∃ part ∈ parts, ∃ rest, issue.place = part.1 :: rest := by
  obtain ⟨part, given, among⟩ := List.mem_flatMap.mp listed
  obtain ⟨inside, -, rfl⟩ := List.mem_map.mp among
  exact ⟨part, given, inside.place, rfl⟩

end Issue

namespace Decode

theorem issues_exprsFrom (position : Nat) (items : List Json) :
    (exprsFrom position items).issues = Issue.ofParts
      (items.mapIdx fun i item => (.index (position + i), (expr item).issues)) := by
  induction items generalizing position with
  | nil => rfl
  | cons item items ih =>
      rw [exprsFrom, Checked.issues_seq, Checked.issues_map, Checked.issues_under, ih,
        List.mapIdx_cons]
      simp only [Issue.ofParts, List.flatMap_cons, Nat.add_zero, Nat.add_assoc, Nat.add_comm 1]

theorem issues_namedFrom (members : List (String × Json)) :
    (namedFrom members).issues =
      Issue.ofParts (members.map fun member => (.key member.1, (expr member.2).issues)) := by
  induction members with
  | nil => rfl
  | cons member members ih =>
      rw [namedFrom, Checked.issues_seq, Checked.issues_map, Checked.issues_under, ih]
      rfl

theorem accepts_exprsFrom (position : Nat) (items : List Json) :
    (exprsFrom position items).Accepts ↔ ∀ item ∈ items, (expr item).Accepts := by
  induction items generalizing position with
  | nil => simp [exprsFrom, Checked.Accepts]
  | cons item items ih =>
      rw [exprsFrom, Checked.accepts_seq, Checked.accepts_map, Checked.accepts_under, ih,
        List.forall_mem_cons]

theorem accepts_namedFrom (members : List (String × Json)) :
    (namedFrom members).Accepts ↔ ∀ member ∈ members, (expr member.2).Accepts := by
  induction members with
  | nil => simp [namedFrom, Checked.Accepts]
  | cons member members ih =>
      rw [namedFrom, Checked.accepts_seq, Checked.accepts_map, Checked.accepts_under, ih,
        List.forall_mem_cons]

end Decode

namespace Slot

theorem issues_exprs (items : List Json) :
    (check .exprs (.array items)).issues =
      Issue.ofParts (items.mapIdx fun i item => (.index i, (check .expr item).issues)) := by
  change (Decode.exprsFrom 0 items).issues = _
  rw [Decode.issues_exprsFrom]
  simp only [Nat.zero_add]
  rfl

theorem issues_named (members : List (String × Json)) :
    (check .named (.object members)).issues =
      Issue.ofParts (members.map fun member => (.key member.1, (check .expr member.2).issues)) := by
  change (Fields.ofList <$> Decode.namedFrom members).issues = _
  rw [Checked.issues_map, Decode.issues_namedFrom]
  rfl

end Slot

namespace Layer

variable {inner outer : Slot}

/-- The issues of a layer are those of its parts, and the hole is one of them. -/
theorem issues_fill_parts (layer : Layer inner outer) : ∃ earlier later,
    (∀ json, (outer.check (layer.fill json)).issues =
      (Issue.ofParts (earlier ++ (layer.step, (inner.check json).issues) :: later)).map
        (Issue.within layer.outerSteps)) ∧
    (layer.Alone → layer.step ∉ (earlier ++ later).map Prod.fst) := by
  cases layer with
  | @member _ shape field front back shaped declared last =>
      obtain ⟨earlier, later, split, others⟩ := shape.exists_split declared
      let part (f : Field) : Step × List Issue := (.key f.key, f.issues (front ++ back))
      refine ⟨earlier.map part, later.map part, fun json => ?_, fun _ listed => ?_⟩
      · let filled := front ++ (field.key, json) :: back
        have shaped' := (Slot.shape?_member shape declared front back json).trans shaped
        have same {list : List Field} (among : ∀ f ∈ list, f ∈ earlier ++ later) :
            list.map (fun f => (Step.key f.key, f.issues filled)) = list.map part :=
          List.map_congr_left fun f listed => congrArg (Prod.mk _)
            (Field.issues_congr (Json.find?_of_ne json (others f (among f listed)).symm))
        rw [fill, Slot.issues_object shaped', split, List.map_append, List.map_cons,
          Field.issues_of_find? (Json.find?_of_last json last),
          same fun f => List.mem_append_left later, same fun f => List.mem_append_right earlier]
        rfl
      · rw [← List.map_append, List.map_map] at listed
        obtain ⟨f, among, key⟩ := List.mem_map.mp listed
        exact others f among (Step.key.inj key)
  | item front back =>
      let part (i : Nat) (item : Json) : Step × List Issue :=
        (.index i, (Slot.check .expr item).issues)
      refine ⟨front.mapIdx part, back.mapIdx fun i => part (i + 1 + front.length),
        fun json => ?_, fun _ listed => ?_⟩
      · rw [fill, Slot.issues_exprs, List.mapIdx_append, List.mapIdx_cons, Nat.zero_add]
        exact List.map_id _ |>.symm
      · simp only [List.map_append, List.mem_append, List.mem_map, List.mem_mapIdx] at listed
        obtain ⟨_, ⟨i, inside, rfl⟩, key⟩ | ⟨_, ⟨i, inside, rfl⟩, key⟩ := listed
        · exact Nat.ne_of_lt inside (Step.index.inj key)
        · have := Step.index.inj key
          omega
  | entry front name back =>
      let part (member : String × Json) : Step × List Issue :=
        (.key member.1, (Slot.check .expr member.2).issues)
      refine ⟨front.map part, back.map part, fun json => ?_, fun alone listed => ?_⟩
      · rw [fill, Slot.issues_named, List.map_append, List.map_cons]
        exact List.map_id _ |>.symm
      · rw [← List.map_append, List.map_map] at listed
        obtain ⟨member, among, key⟩ := List.mem_map.mp listed
        exact alone (List.mem_map.mpr ⟨member, among, Step.key.inj key⟩)

/-- The issues of a layer are those of the hole, in one piece, and others that do not depend on it.
If no other expression has the name of the hole, none of the others is at or below the hole. -/
theorem issues_fill (layer : Layer inner outer) : ∃ before after,
    (∀ json, (outer.check (layer.fill json)).issues =
      before ++ (inner.check json).issues.map (Issue.within layer.path) ++ after) ∧
    (layer.Alone → ∀ issue ∈ before ++ after, ¬ layer.path <+: issue.place) := by
  obtain ⟨earlier, later, issues, apart⟩ := layer.issues_fill_parts
  let outside (parts : List (Step × List Issue)) : List Issue :=
    (Issue.ofParts parts).map (Issue.within layer.outerSteps)
  refine ⟨outside earlier, outside later, fun json => ?_, fun alone issue listed below => ?_⟩
  · rw [issues, Issue.ofParts_append_cons, List.map_append, List.map_append, List.map_map, path,
      Issue.within_append]
    rfl
  · rw [← List.map_append, ← Issue.ofParts_append] at listed
    obtain ⟨inside, among, rfl⟩ := List.mem_map.mp listed
    obtain ⟨part, given, rest, place⟩ := Issue.exists_of_mem_ofParts among
    have first : layer.step = part.1 := by
      have below : layer.outerSteps ++ [layer.step] <+: layer.outerSteps ++ inside.place := below
      rw [List.prefix_append_right_inj, place, List.cons_prefix_cons] at below
      exact below.1
    exact apart alone (List.mem_map.mpr ⟨part, given, first.symm⟩)

end Layer

/-! ## Contexts -/

/-- A document with a hole, from the outermost layer inwards. -/
inductive Context (inner : Slot) : Slot → Type where
  | here : Context inner inner
  | inside {middle outer : Slot} (layer : Layer middle outer) (context : Context inner middle) :
    Context inner outer

namespace Context

variable {inner outer : Slot}

/-- The document with something in the hole. -/
def fill : {outer : Slot} → Context inner outer → Json → Json
  | _, here, json => json
  | _, inside layer context, json => layer.fill (context.fill json)

/-- The way to the hole: names of fields and entries, positions, and the tags of nodes. -/
def path : {outer : Slot} → Context inner outer → List Step
  | _, here => []
  | _, inside layer context => layer.path ++ context.path

/-- No object of named expressions around the hole has another expression under the name that leads
to the hole. -/
def Alone : {outer : Slot} → Context inner outer → Prop
  | _, here => True
  | _, inside layer context => layer.Alone ∧ context.Alone

/-- What is found in a document is what is found in the hole, in one piece, and what is found around
it, which does not depend on the hole. If the names on the way are not repeated, all that is found
at or below the hole is found in it. -/
theorem issues_fill (context : Context inner outer) : ∃ before after,
    (∀ json, (outer.check (context.fill json)).issues =
      before ++ (inner.check json).issues.map (Issue.within context.path) ++ after) ∧
    (context.Alone → ∀ issue ∈ before ++ after, ¬ context.path <+: issue.place) := by
  induction context with
  | here => exact ⟨[], [], fun json => by simp [fill, path], fun _ => nofun⟩
  | inside layer context ih =>
      obtain ⟨before, after, issues, apart⟩ := layer.issues_fill
      obtain ⟨before', after', issues', apart'⟩ := ih
      let around := List.map (Issue.within layer.path)
      refine ⟨before ++ around before', around after' ++ after, fun json => ?_, ?_⟩
      · rw [fill, issues, issues', List.map_append, List.map_append, List.map_map, path,
          Issue.within_append]
        simp only [around, List.append_assoc]
      · rintro ⟨alone, alone'⟩ issue listed below
        have regrouped : before ++ around before' ++ (around after' ++ after) =
            before ++ around (before' ++ after') ++ after := by
          simp only [around, List.map_append, List.append_assoc]
        rw [regrouped, List.mem_append, List.mem_append] at listed
        rcases listed with (listed | listed) | listed
        · exact apart alone issue (List.mem_append_left _ listed)
            ((List.prefix_append _ _).trans below)
        · obtain ⟨inside, among, rfl⟩ := List.mem_map.mp listed
          exact apart' alone' inside among ((List.prefix_append_right_inj _).mp below)
        · exact apart alone issue (List.mem_append_right _ listed)
            ((List.prefix_append _ _).trans below)

end Context

/-! ## Refusals -/

namespace Checked

variable {α β : Type}

/-- A refusal comes with an issue. -/
def Reasoned (checked : Checked α) : Prop :=
  checked.issues = [] → checked.Accepts

theorem reasoned_accepted (a : α) : (accepted a).Reasoned :=
  fun _ => ⟨a, rfl⟩

theorem reasoned_issue (kind : IssueKind) : (issue kind : Checked α).Reasoned :=
  nofun

theorem Reasoned.map {checked : Checked α} (reasoned : checked.Reasoned) (f : α → β) :
    (f <$> checked).Reasoned := by
  intro none
  rw [issues_map] at none
  exact (accepts_map f checked).mpr (reasoned none)

theorem Reasoned.under {checked : Checked α} (reasoned : checked.Reasoned) (step : Step) :
    (checked.under step).Reasoned := by
  intro none
  rw [issues_under, List.map_eq_nil_iff] at none
  exact (accepts_under step checked).mpr (reasoned none)

theorem Reasoned.seq {function : Checked (α → β)} {argument : Checked α}
    (first : function.Reasoned) (second : argument.Reasoned) :
    (function <*> argument).Reasoned := by
  intro none
  rw [issues_seq, List.append_eq_nil_iff] at none
  exact (accepts_seq function argument).mpr ⟨first none.1, second none.2⟩

theorem accepts_iff_of_reasoned {checked : Checked α} (reasoned : checked.Reasoned) :
    checked.Accepts ↔ checked.issues = [] := by
  refine ⟨?_, reasoned⟩
  rintro ⟨a, rfl⟩
  rfl

end Checked

namespace LaxInt

theorem reasoned_ofDecimal (negative : Bool) (mantissa : Nat) (exponent : Int) :
    (ofDecimal negative mantissa exponent).Reasoned := by
  unfold ofDecimal
  dsimp only
  split
  · exact Checked.reasoned_issue _
  · split
    · exact Checked.reasoned_issue _
    · split
      · exact Checked.reasoned_issue _
      · exact Checked.reasoned_accepted _

theorem reasoned_ofText (text : String) : (ofText text).Reasoned := by
  unfold ofText
  split
  · exact Checked.reasoned_issue _
  · split
    · exact Checked.reasoned_accepted _
    · exact Checked.reasoned_issue _

theorem reasoned_ofJson (json : Json) : (ofJson json).Reasoned := by
  cases json with
  | int n => exact Checked.reasoned_accepted n
  | bool b => exact Checked.reasoned_accepted _
  | decimal negative mantissa exponent => exact reasoned_ofDecimal negative mantissa exponent
  | string text => exact reasoned_ofText text
  | _ => exact Checked.reasoned_issue _

end LaxInt

namespace LaxBool

theorem reasoned_ofNumber (n : Int) : (ofNumber n).Reasoned := by
  unfold ofNumber
  split
  · exact Checked.reasoned_accepted _
  · exact Checked.reasoned_accepted _
  · exact Checked.reasoned_issue _

theorem reasoned_ofJson (json : Json) : (ofJson json).Reasoned := by
  cases json with
  | bool b => exact Checked.reasoned_accepted b
  | int n => exact reasoned_ofNumber n
  | decimal negative mantissa exponent =>
      rw [ofJson]
      cases LaxInt.ofDecimal negative mantissa exponent with
      | accepted n => exact reasoned_ofNumber n
      | refused issues => exact Checked.reasoned_issue _
  | string word =>
      rw [ofJson]
      cases ofWord? word with
      | none => exact Checked.reasoned_issue _
      | some flag => exact Checked.reasoned_accepted flag
  | _ => exact Checked.reasoned_issue _

end LaxBool

namespace Decode

theorem reasoned_string (json : Json) : (string json).Reasoned := by
  cases json with
  | string text => exact Checked.reasoned_accepted text
  | _ => exact Checked.reasoned_issue _

theorem reasoned_stringsFrom (position : Nat) (items : List Json) :
    (stringsFrom position items).Reasoned := by
  induction items generalizing position with
  | nil => exact Checked.reasoned_accepted _
  | cons item items ih => exact (((reasoned_string item).under _).map _).seq (ih _)

theorem reasoned_literal (json : Json) : (literal json).Reasoned := by
  cases json with
  | int n => exact Checked.reasoned_accepted _
  | string text => exact Checked.reasoned_accepted _
  | _ => exact nofun

theorem reasoned_blockKind (json : Json) : (blockKind json).Reasoned := by
  unfold blockKind
  split
  · split
    · exact Checked.reasoned_accepted _
    · exact Checked.reasoned_issue _
  · exact Checked.reasoned_issue _

theorem reasoned_line (json : Json) : (line json).Reasoned := by
  unfold line
  split
  · exact Checked.reasoned_accepted _
  · exact (LaxInt.reasoned_ofJson _).map _

theorem reasoned_stringOrNull (json : Json) : (stringOrNull json).Reasoned := by
  unfold stringOrNull
  split
  · exact Checked.reasoned_accepted _
  · exact (reasoned_string _).map _

theorem reasoned_strings (json : Json) : (strings json).Reasoned := by
  unfold strings
  split
  · exact reasoned_stringsFrom 0 _
  · exact Checked.reasoned_issue _

theorem reasoned_exprWith {members : List (String × Json)}
    (untagged : Slot.expr.shape? members = none) (inner : Members) :
    (exprWith members inner).Reasoned := by
  unfold Slot.shape? at untagged
  unfold exprWith
  cases tagged : Json.find? members "kind" with
  | none => exact Checked.reasoned_issue _
  | some json =>
      cases json with
      | string tag =>
          rw [tagged] at untagged
          dsimp only
          rw [Option.map_eq_none_iff.mp untagged]
          exact Checked.reasoned_issue _
      | _ => exact Checked.reasoned_issue _

end Decode

/-! ## Acceptance -/

namespace Slot

variable {inner outer slot : Slot}

/-- The issues that a part of a document has itself and not in a part of its own: it is not what it
has to be, or lacks fields without a default. -/
def own : Slot → Json → List Issue
  | .exprs, .array _ | .named, .object _ => []
  | slot, .object members =>
      match slot.shape? members with
      | some shape =>
          (shape.fields.filter fun field =>
            (Json.find? members field.key).isNone && field.default?.isNone).map fun field =>
              ⟨.missing, shape.steps ++ [.key field.key]⟩
      | none => (slot.check (.object members)).issues
  | slot, json => (slot.check json).issues

theorem own_object {shape : Shape slot} {members : List (String × Json)}
    (shaped : slot.shape? members = some shape) :
    slot.own (.object members) =
      (shape.fields.filter fun field =>
        (Json.find? members field.key).isNone && field.default?.isNone).map fun field =>
          ⟨.missing, shape.steps ++ [.key field.key]⟩ := by
  cases slot with
  | script | block | expr => simp only [own, shaped]
  | _ => cases shaped

/-- A place that is asked for a value without parts. -/
def isScalar : Slot → Bool
  | .script | .block | .expr | .exprs | .named => false
  | .line | .name | .nameOrNull | .names | .flag | .literal | .blockKind => true

/-- Whether a value is accepted, where nothing stands inside that is looked at by itself. -/
theorem accepts_iff_of_closed {json : Json} (own : slot.own json = (slot.check json).issues)
    (reasoned : (slot.check json).Reasoned)
    (closed : ∀ {inner : Slot} (layer : Layer inner slot) part, layer.fill part ≠ json) :
    (slot.check json).Accepts ↔
      slot.own json = [] ∧ ∀ {inner : Slot} (layer : Layer inner slot) part,
        layer.fill part = json → (inner.check part).Accepts := by
  rw [own, Checked.accepts_iff_of_reasoned reasoned]
  exact ⟨fun none => ⟨none, fun layer part filled => absurd filled (closed layer part)⟩,
    fun both => both.1⟩

theorem accepts_iff_of_scalar {json : Json} (scalar : slot.isScalar = true)
    (reasoned : (slot.check json).Reasoned) :
    (slot.check json).Accepts ↔
      slot.own json = [] ∧ ∀ {inner : Slot} (layer : Layer inner slot) part,
        layer.fill part = json → (inner.check part).Accepts := by
  refine accepts_iff_of_closed ?_ reasoned fun layer _ _ => ?_
  · cases slot with
    | script | block | expr | exprs | named => cases scalar
    | _ => cases json <;> rfl
  · cases layer with
    | @member _ shape => cases shape <;> cases scalar
    | item | entry => cases scalar

theorem accepts_iff_exprs (items : List Json) :
    (check .exprs (.array items)).Accepts ↔
      own .exprs (.array items) = [] ∧ ∀ {inner : Slot} (layer : Layer inner .exprs) part,
        layer.fill part = .array items → (inner.check part).Accepts := by
  have all : (check .exprs (.array items)).Accepts ↔ ∀ item ∈ items, (Decode.expr item).Accepts :=
    Decode.accepts_exprsFrom 0 items
  rw [all, own, eq_self, true_and]
  constructor
  · intro all inner layer part filled
    cases layer with
    | member _ _ shaped => cases shaped
    | item front back =>
        obtain rfl := Json.array.inj filled
        exact all part (by simp)
  · intro inside item listed
    obtain ⟨front, back, rfl⟩ := List.append_of_mem listed
    exact inside (.item front back) item rfl

theorem accepts_iff_named (members : List (String × Json)) :
    (check .named (.object members)).Accepts ↔
      own .named (.object members) = [] ∧ ∀ {inner : Slot} (layer : Layer inner .named) part,
        layer.fill part = .object members → (inner.check part).Accepts := by
  have all : (check .named (.object members)).Accepts ↔
      ∀ member ∈ members, (Decode.expr member.2).Accepts :=
    (Checked.accepts_map _ _).trans (Decode.accepts_namedFrom members)
  rw [all, own, eq_self, true_and]
  constructor
  · intro all inner layer part filled
    cases layer with
    | member _ _ shaped => cases shaped
    | entry front name back =>
        obtain rfl := Json.object.inj filled
        exact all (name, part) (by simp)
  · rintro inside ⟨name, json⟩ listed
    obtain ⟨front, back, rfl⟩ := List.append_of_mem listed
    exact inside (.entry front name back) json rfl

theorem accepts_iff_of_shape {shape : Shape slot} {members : List (String × Json)}
    (shaped : slot.shape? members = some shape) :
    (slot.check (.object members)).Accepts ↔
      slot.own (.object members) = [] ∧ ∀ {inner : Slot} (layer : Layer inner slot) part,
        layer.fill part = .object members → (inner.check part).Accepts := by
  rw [accepts_object shaped, own_object shaped, List.map_eq_nil_iff, List.filter_eq_nil_iff]
  constructor
  · intro all
    refine ⟨fun field declared missing => ?_, fun layer part filled => ?_⟩
    · rw [Bool.and_eq_true, Option.isNone_iff_eq_none, Option.isNone_iff_eq_none] at missing
      have default := (Field.accepts_read.mp (all field declared)).1 missing.1
      rw [missing.2] at default
      cases default
    · cases layer with
      | @member _ shape' field front back shaped' declared last =>
          obtain rfl := Json.object.inj filled
          rw [shape?_member shape' declared, shaped'] at shaped
          cases shaped
          exact (Field.accepts_read.mp (all field declared)).2 part (Json.find?_of_last part last)
      | item => cases filled
      | entry => cases shaped
  · rintro ⟨present, inside⟩ field declared
    refine Field.accepts_read.mpr ⟨fun absent => ?_, fun json found => ?_⟩
    · have kept := present field declared
      rw [absent, Option.isNone_none, Bool.true_and, Bool.not_eq_true, Option.isNone_eq_false_iff]
        at kept
      exact kept
    · obtain ⟨front, back, rfl, last⟩ := Json.exists_split_of_find? found
      rw [shape?_member shape declared] at shaped
      exact inside (.member front back shaped declared last) json rfl

/-- A part is accepted exactly when it has no issue itself and all parts in it are accepted. -/
theorem accepts_iff (slot : Slot) (json : Json) :
    (slot.check json).Accepts ↔
      slot.own json = [] ∧ ∀ {inner : Slot} (layer : Layer inner slot) part,
        layer.fill part = json → (inner.check part).Accepts := by
  cases slot with
  | script | block =>
      cases json with
      | object members => exact accepts_iff_of_shape rfl
      | _ =>
          exact accepts_iff_of_closed rfl (Checked.reasoned_issue _) fun layer _ filled => by
            cases layer
            cases filled
  | expr =>
      cases json with
      | object members =>
          cases shaped : expr.shape? members with
          | some shape => exact accepts_iff_of_shape shaped
          | none =>
              refine accepts_iff_of_closed (by simp only [own, shaped]) ?_
                fun layer part filled => ?_
              · rw [check, Decode.expr_object]
                exact Decode.reasoned_exprWith shaped _
              · cases layer with
                | @member _ shape field front back shaped' declared last =>
                    obtain rfl := Json.object.inj filled
                    rw [shape?_member shape declared, shaped'] at shaped
                    cases shaped
      | _ =>
          exact accepts_iff_of_closed rfl (Checked.reasoned_issue _) fun layer _ filled => by
            cases layer
            cases filled
  | exprs =>
      cases json with
      | array items => exact accepts_iff_exprs items
      | _ =>
          exact accepts_iff_of_closed rfl (Checked.reasoned_issue _) fun layer _ filled => by
            cases layer with
            | member _ _ shaped => cases shaped
            | item => cases filled
  | named =>
      cases json with
      | object members => exact accepts_iff_named members
      | _ =>
          exact accepts_iff_of_closed rfl (Checked.reasoned_issue _) fun layer _ filled => by
            cases layer <;> cases filled
  | line => exact accepts_iff_of_scalar rfl (Decode.reasoned_line json)
  | name => exact accepts_iff_of_scalar rfl (Decode.reasoned_string json)
  | nameOrNull => exact accepts_iff_of_scalar rfl (Decode.reasoned_stringOrNull json)
  | names => exact accepts_iff_of_scalar rfl (Decode.reasoned_strings json)
  | flag => exact accepts_iff_of_scalar rfl (LaxBool.reasoned_ofJson json)
  | literal => exact accepts_iff_of_scalar rfl (Decode.reasoned_literal json)
  | blockKind => exact accepts_iff_of_scalar rfl (Decode.reasoned_blockKind json)

end Slot

namespace Layer

variable {inner outer : Slot}

/-- A part of a document is smaller. -/
theorem sizeOf_lt (layer : Layer inner outer) (json : Json) :
    sizeOf json < sizeOf (layer.fill json) := by
  cases layer with
  | @member _ _ field front back =>
      have listed : (field.key, json) ∈ front ++ (field.key, json) :: back := by simp
      have := List.sizeOf_lt_of_mem listed
      simp only [fill, Json.object.sizeOf_spec, Prod.mk.sizeOf_spec] at *
      omega
  | item front back =>
      have listed : json ∈ front ++ json :: back := by simp
      have := List.sizeOf_lt_of_mem listed
      simp only [fill, Json.array.sizeOf_spec] at *
      omega
  | entry front name back =>
      have listed : (name, json) ∈ front ++ (name, json) :: back := by simp
      have := List.sizeOf_lt_of_mem listed
      simp only [fill, Json.object.sizeOf_spec, Prod.mk.sizeOf_spec] at *
      omega

end Layer

namespace Context

variable {inner outer : Slot}

/-- What stands in the hole of an accepted document is accepted. -/
theorem accepts_part (context : Context inner outer) {part : Json}
    (accepts : (outer.check (context.fill part)).Accepts) : (inner.check part).Accepts := by
  induction context with
  | here => exact accepts
  | inside layer context ih => exact ih (((Slot.accepts_iff _ _).mp accepts).2 layer _ rfl)

/-- A document is accepted exactly when no part of it has an issue itself. -/
theorem accepts_iff_own (slot : Slot) (json : Json) :
    (slot.check json).Accepts ↔
      ∀ {inner : Slot} (context : Context inner slot) part,
        context.fill part = json → inner.own part = [] := by
  constructor
  · rintro accepts inner context part rfl
    exact ((Slot.accepts_iff inner part).mp (context.accepts_part accepts)).1
  · induction size : sizeOf json using Nat.strongRecOn generalizing slot json with
    | ind n ih =>
        intro none
        refine (Slot.accepts_iff slot json).mpr ⟨none .here json rfl, fun layer part filled => ?_⟩
        subst filled
        have smaller := layer.sizeOf_lt part
        exact ih _ (size ▸ smaller) _ part rfl fun context inside filled =>
          none (.inside layer context) inside (by rw [fill, filled])

end Context

/-! ## Texts -/

namespace Script

theorem ofText_of_read? {text : String} {json : Json}
    (read : Json.read? .standard text.toList = some json) :
    ofText text = Slot.script.check json := by
  rw [ofText, read]
  rfl

/-- Around a place where an expression stands, the issues of a text do not depend on the expression.
Those of the expression are found in one piece, each below the path to it, and if no name of a field
of a record on the way is repeated, nothing else is found there. A text is accepted exactly when no
part of its document has an issue itself. -/
theorem issues_compose :
    (∀ context : Context .expr .script, ∃ before after,
      (∀ json text, Json.read? .standard text.toList = some (context.fill json) →
        (ofText text).issues =
          before ++ (Decode.expr json).issues.map (Issue.within context.path) ++ after) ∧
      (context.Alone → ∀ issue ∈ before ++ after, ¬ context.path <+: issue.place)) ∧
    ∀ json text, Json.read? .standard text.toList = some json →
      ((∃ script, ofText text = .accepted script) ↔
        ∀ {slot : Slot} (context : Context slot .script) part,
          context.fill part = json → slot.own part = []) := by
  refine ⟨fun context => ?_, fun json text read => ?_⟩
  · obtain ⟨before, after, issues, apart⟩ := context.issues_fill
    refine ⟨before, after, fun json text read => ?_, apart⟩
    rw [ofText_of_read? read]
    exact issues json
  · rw [ofText_of_read? read]
    exact Context.accepts_iff_own .script json

/-- A program of one node, around a hole in the node. -/
def ofNode {inner : Slot} (context : Context inner .expr) : Context inner .script :=
  .inside (@Layer.member .script .script (.block "body") [] [] rfl (.head _) List.not_mem_nil) <|
  .inside (@Layer.member .block .block (.exprs "instrs") [] [] rfl
    (.tail _ (.tail _ (.head _))) List.not_mem_nil) <|
  .inside (.item [] []) context

/-- A program that makes a record of two fields of one name; the second is the hole. -/
def repeatedName : Context .expr .script :=
  ofNode <|
  .inside (@Layer.member .expr (.node .record) .named [("kind", .string "new")] [] rfl
    (.tail _ (.head _)) List.not_mem_nil) <|
  .inside (.entry [("a", .int 3)] "a" []) .here

/-- The program with a constant that lacks its value. -/
def repeatedText : String :=
  "\x7b\"body\":\x7b\"instrs\":[\x7b\"kind\":\"new\",\"init_map\":" ++
    "\x7b\"a\":3,\"a\":\x7b\"kind\":\"literal\"\x7d\x7d\x7d]\x7d\x7d"

/-- Where a name is repeated, the issues at the path to an expression are not only its own. -/
theorem issues_of_repeatedName :
    let part : Json := .object [("kind", .string "literal")]
    Json.read? .standard repeatedText.toList = some (repeatedName.fill part) ∧
      (ofText repeatedText).issues.filter (repeatedName.path.isPrefixOf ·.place) ≠
        (Decode.expr part).issues.map (Issue.within repeatedName.path) := by
  intro part
  have read : Json.read? .standard repeatedText.toList = some (repeatedName.fill part) := by
    decide +kernel
  refine ⟨read, ?_⟩
  rw [ofText_of_read? read]
  decide

end Script

end ScriptTree
