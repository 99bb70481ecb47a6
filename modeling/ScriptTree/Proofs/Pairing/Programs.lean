import ScriptTree.Proofs.Pairing.Evaluation
import ScriptTree.Proofs.PlainValues
import ScriptTree.Proofs.Replacement

/-!
# Whole programs side by side

The runs of two programs whose blocks correspond are both refused, or they come to corresponding
reports (`Pairing.runsAlike`). `Heap.Mirrors` says without a pairing that two heaps are the same as
far as a program can tell: up to the identity of objects, and functions by their names and fields.

`nodes_changed` gives the correspondence of nodes for changes of the children and of the names of a
node.
-/

namespace ScriptTree

open ScriptTree.Eval

/-! ## Heaps that look the same -/

/-- An object and its counterpart in another heap. Functions are compared by name and fields. -/
structure Object.Mirrors (same : Ref → Ref → Prop) (object object' : Object) : Prop where
  name : object'.name = object.name
  isFunction : object'.isFunction = object.isFunction
  fields : List.Forall₂ (fun binding binding' => binding'.1 = binding.1 ∧
    binding.2.Alike same binding'.2) object.fields object'.fields

/-- The root scopes of two heaps are the same, with all that is in them, up to which objects these
are: the objects of the one correspond to objects of the other, one to one. -/
structure Heap.Mirrors (same : Ref → Ref → Prop) (heap heap' : Heap) : Prop where
  root : same Heap.root Heap.root
  functional : ∀ {ref first second}, same ref first → same ref second → first = second
  injective : ∀ {first second ref}, same first ref → same second ref → first = second
  objects : ∀ {ref ref'}, same ref ref' → ∃ object object',
    heap.get? ref = some object ∧ heap'.get? ref' = some object' ∧ object.Mirrors same object'

namespace Pairing

section Definitions

variable {Region : Type} (pairing : Pairing Region)

/-- Runs that end in corresponding ways. -/
inductive Endings : Except Fault Unit → Except Fault Unit → Prop
  | ok : Endings (.ok ()) (.ok ())
  | error {fault fault' : Fault} (faults : pairing.Faults fault fault') :
    Endings (.error fault) (.error fault')

/-- Reports that correspond. -/
structure Reports (report report' : Report) : Prop where
  states : ∃ matching, pairing.States matching report.state report'.state
  endings : pairing.Endings report.ending report'.ending

/-- At the start all objects are the same. -/
def initial (settings : Settings) : Matching Region := fun ref =>
  if ref < (Heap.initial settings).size then some (pairing.outer, ref) else none

end Definitions

variable {Region : Type} {pairing : Pairing Region} {matching : Matching Region}

/-! ## What corresponding heaps look like -/

theorem Objects.mirrors {ref ref' : Ref} {object object' : Object}
    (objects : pairing.Objects matching pairing.outer ref ref' object object') :
    object.Mirrors (pairing.Same matching) object' where
  name := objects.name
  isFunction := objects.bodies.isSome
  fields := objects.fields.imp fun _ _ ⟨_, renamed, values⟩ =>
    ⟨renamed.trans (pairing.rename_outer _), values⟩

theorem Heaps.mirrors {heap heap' : Heap} (heaps : pairing.Heaps matching heap heap') :
    heap.Mirrors (pairing.Same matching) heap' where
  root := heaps.root
  functional := by
    intro ref first second matched other
    cases matched.symm.trans other
    rfl
  injective := heaps.unique
  objects := by
    intro ref ref' matched
    obtain ⟨object, object', found, found', objects⟩ := heaps.objects matched
    exact ⟨object, object', found, found', objects.mirrors⟩

/-! ## Runs -/

section Runs

theorem heaps_initial (settings : Settings) :
    pairing.Heaps (pairing.initial settings) (.initial settings) (.initial settings) := by
  have eq_of_matched {ref ref' : Ref} {region : Region}
      (matched : pairing.initial settings ref = some (region, ref')) :
      ref < (Heap.initial settings).size ∧ region = pairing.outer ∧ ref' = ref := by
    unfold initial at matched
    split at matched
    · cases matched
      exact ⟨‹_›, rfl, rfl⟩
    · cases matched
  have matched_of_get? {ref : Ref} {object : Object}
      (found : (Heap.initial settings).get? ref = some object) :
      pairing.Same (pairing.initial settings) ref ref :=
    if_pos (Heap.lt_size_of_get? found)
  have closed := Heap.closed_initial settings
  obtain ⟨rootFields, rooted⟩ := closed.rooted
  refine ⟨matched_of_get? rooted, fun matched other => ?_, fun {ref region ref'} matched => ?_⟩
  · exact (eq_of_matched matched).2.2.symm.trans (eq_of_matched other).2.2
  · obtain ⟨inside, rfl, rfl⟩ := eq_of_matched matched
    obtain ⟨object, found⟩ := Heap.exists_get?_of_lt_size inside
    refine ⟨object, object, found, found, rfl, ?_, ?_, ?_⟩
    · rcases Heap.eq_of_get?_initial found with rfl | ⟨builtin, rfl⟩
      · cases rooted.symm.trans found
        exact .none
      · exact .none
    · rcases Heap.eq_of_get?_initial found with rfl | ⟨builtin, rfl⟩
      · cases rooted.symm.trans found
        exact .none
      · exact .builtin
    · refine List.forall₂_same.mpr fun binding bound => ?_
      refine ⟨pairing.known_outer _, (pairing.rename_outer _).symm, ?_⟩
      have plain := closed.plain found binding bound
      generalize binding.2 = value at plain
      cases value with
      | undefined => exact .undefined
      | int => exact .int
      | str => exact .str
      | obj other =>
          rcases plain with rfl | ⟨there, found, -⟩
          · exact .obj (matched_of_get? rooted)
          · exact .obj (matched_of_get? found)
      | flag | null => exact plain.elim

theorem Faults.reported {fault fault' : Fault} (faults : pairing.Faults fault fault') :
    pairing.Faults fault.reported fault'.reported := by
  cases faults with
  | failure causes lines => exact .failure causes lines
  | digitLimit => exact .digitLimit
  | sinkClosed => exact .sinkClosed
  | tooDeep => exact .failure (.same fun _ => nofun) (pairing.line_refl none)

variable {script script' : Script} (settings : Settings) (sink : Sink) (log : Log)

/-- Two programs begin in corresponding states. -/
theorem states_begun
    (count : script'.body.instrs.length = script.body.instrs.length ∨ pairing.Costlier) :
    pairing.States (pairing.initial settings) (script.begun settings sink log)
      (script'.begun settings sink log) := by
  refine ⟨heaps_initial settings, rfl, rfl, ?_⟩
  have before : List.Forall₂ pairing.Records log.records.toList log.records.toList := by
    refine List.forall₂_same.mpr fun record _ => ?_
    cases record with
    | started => exact .started (.inl rfl)
    | finished => exact .finished
    | printing => exact .printing
    | calling => exact .calling (pairing.line_refl _)
  have first : List.Forall₂ pairing.Records [.started script.body.instrs.length]
      [.started script'.body.instrs.length] := .cons (.started count) .nil
  change List.Forall₂ pairing.Records (log.records.push _).toList (log.records.push _).toList
  rw [Array.toList_push, Array.toList_push]
  exact List.rel_append before first

/-- Corresponding programs come to corresponding outcomes, under evaluators that agree. -/
theorem Evaluators.outcomes {self' : Evaluator}
    (evaluators : pairing.Evaluators (evaluator settings settings.depth) self')
    (codes : pairing.code pairing.outer (.block script.body) (.block script'.body)) :
    pairing.Outcomes (pairing.initial settings) (.initial settings)
      (pairing.Completions pairing.Values) (script.outcome settings sink log)
      (self' (.block script'.body) Heap.root (script'.begun settings sink log)) := by
  have count := (evaluators.lawful.elements codes).length_eq_or
  have begun := states_begun settings sink log count
  exact evaluators.nodes codes begun.heaps.root begun

theorem outcomes (lawful : pairing.Lawful)
    (codes : pairing.code pairing.outer (.block script.body) (.block script'.body)) :
    pairing.Outcomes (pairing.initial settings) (.initial settings)
      (pairing.Completions pairing.Values) (script.outcome settings sink log)
      (script'.outcome settings sink log) :=
  Evaluators.outcomes settings sink log (agree_evaluator lawful settings settings.depth) codes

/-- If the run of the other program does not hit the depth limit, then neither does this run. -/
theorem not_hitsLimit (lawful : pairing.Lawful)
    (codes : pairing.code pairing.outer (.block script.body) (.block script'.body))
    (fits : ¬ script'.HitsLimit settings sink log) : ¬ script.HitsLimit settings sink log := by
  rw [Script.hitsLimit_iff] at fits ⊢
  rintro ⟨after, tooDeep⟩
  have outcomes := outcomes settings sink log lawful codes
  rw [tooDeep] at outcomes
  generalize script'.outcome settings sink log = outcome' at outcomes fits
  cases outcomes with
  | deeper => exact fits ⟨_, rfl⟩
  | error _ _ faults =>
      cases faults
      exact fits ⟨_, rfl⟩

/-- Corresponding outcomes give corresponding reports, unless evaluations are nested deeper in the
other program and it hits the depth limit. -/
theorem Outcomes.reports {heap' : Heap} {outcome outcome' : EStateM.Result Fault State _}
    (lines : pairing.line script.body.line script'.body.line)
    (outcomes : pairing.Outcomes matching heap' (pairing.Completions pairing.Values) outcome
      outcome') :
    (∃ after, pairing.Costlier ∧ outcome' = .error .tooDeep after) ∨
      pairing.Reports (script.report outcome) (script'.report outcome') := by
  cases outcomes with
  | deeper costlier => exact .inl ⟨_, costlier, rfl⟩
  | error _ states faults => exact .inr ⟨⟨_, states⟩, .error faults.reported⟩
  | @ok later _ _ state state' _ states completions =>
      right
      cases completions with
      | value =>
          refine ⟨⟨later, states.heaps, states.sink, states.logs.strict, ?_⟩, .ok⟩
          change List.Forall₂ pairing.Records (state.log.records.push _).toList
            (state'.log.records.push _).toList
          rw [Array.toList_push, Array.toList_push]
          exact List.rel_append states.logs.records (.cons .finished .nil)
      | returning => exact ⟨⟨later, states⟩, .error (.failure (.same fun _ => nofun) lines)⟩

theorem reports (lawful : pairing.Lawful)
    (codes : pairing.code pairing.outer (.block script.body) (.block script'.body)) :
    (∃ after, pairing.Costlier ∧ script'.outcome settings sink log = .error .tooDeep after) ∨
      pairing.Reports (script.report (script.outcome settings sink log))
        (script'.report (script'.outcome settings sink log)) := by
  have lines : pairing.line script.body.line script'.body.line := by
    cases lawful.nodes codes with
    | block lines _ => exact lines
  exact (outcomes settings sink log lawful codes).reports lines

/-- What corresponding reports have in common holds of the two runs, if these are not refused and
what is inserted does not hit the depth limit. -/
theorem runsAlike {related : Report → Report → Prop} (lawful : pairing.Lawful)
    (codes : pairing.code pairing.outer (.block script.body) (.block script'.body))
    (fits : ∀ expr, pairing.inserted expr →
      ∀ after, script'.outcome settings sink log ≠ .error .tooDeep after)
    (gives : ∀ {report report'}, pairing.Reports report report' → related report report')
    (flat : ¬ pairing.nested := by exact id) :
    RunsAlike related (script.run (.sink sink) settings log)
      (script'.run (.sink sink) settings log) := by
  apply Script.runsAlike_of_reports rfl
  rcases reports settings sink log lawful codes with ⟨after, costlier, tooDeep⟩ | reports
  · obtain ⟨expr, inserted⟩ := costlier.resolve_left flat
    exact absurd tooDeep (fits expr inserted after)
  · exact gives reports

end Runs

/-! ## Nodes with changes -/

section Changes

theorem forall₂_mapIdx {α β γ : Type} {related : β → γ → Prop} {list : List α} {f : Nat → α → β}
    {g : Nat → α → γ} (all : ∀ i item, list[i]? = some item → related (f i item) (g i item)) :
    List.Forall₂ related (list.mapIdx f) (list.mapIdx g) := by
  refine List.forall₂_iff_get.mpr ⟨by simp, fun i inside inside' => ?_⟩
  have bound : i < list.length := by simpa using inside
  have items := all i list[i] (List.getElem?_eq_getElem bound)
  simpa using items

/-- A node with other children corresponds to itself with others again, under the names of the other
side, if the ones correspond to the others. -/
theorem nodes_changed (region : Region) {change change' : Nat → Expr → Expr} {expr : Expr}
    (blocks : ∀ i body, ∃ body', change i (.block body) = .block body')
    (blocks' : ∀ i body, ∃ body', change' i (.block body) = .block body')
    (children : ∀ i child, expr.child? i = some child →
      pairing.code region (change i child) (change' i child))
    (known : ∀ name, expr.Mentions name → pairing.known region name)
    (unknown : ∀ line name value, expr = .assignment line name value false →
      pairing.unknown name (pairing.rename region name))
    (named : ∀ line name parameters body, expr = .function line (some name) parameters body →
      pairing.rename region name = name) :
    pairing.Nodes region (expr.mapChildren change)
      ((expr.mapChildren change').renameOwn (pairing.rename region)) := by
  have changed {i : Nat} {body : Block Expr} (found : expr.child? i = some (.block body)) :
      pairing.code region (.block (body.changed (change i)))
        (.block (body.changed (change' i))) := by
    obtain ⟨inner, same⟩ := blocks i body
    obtain ⟨inner', same'⟩ := blocks' i body
    have codes := children i _ found
    rw [Block.changed, Block.changed, same, same']
    rwa [same, same'] at codes
  cases expr with
  | block body =>
      refine .block (pairing.line_refl _) (Aligned.of_forall₂ ?_)
      exact forall₂_mapIdx fun i child found => children i child found
  | literal line value => exact .literal
  | var line name => exact .var (known name rfl)
  | assignment line name value declares =>
      have reported (free : declares = false) : pairing.unknown name (pairing.rename region name) :=
        unknown line name value (free ▸ rfl)
      exact .assignment (pairing.line_refl _) (known name rfl) reported (children 0 value rfl)
  | function line name parameters body =>
      refine .function (fun bound same => ?_)
        ⟨pairing.line_refl _, rfl, region, ⟨rfl, ?_, ?_⟩, changed rfl⟩
      · subst same
        exact ⟨known bound (.inl rfl), named line bound parameters body rfl⟩
      · exact fun name listed => known name (.inr listed)
      · exact fun name known _ _ => ⟨known, rfl⟩
  | returns line value => exact .returns (children 0 value rfl)
  | branch line condition onTrue onFalse =>
      exact .branch (pairing.line_refl _) (children 0 condition rfl) (changed rfl) (changed rfl)
  | record line fields =>
      refine .record (forall₂_mapIdx fun i field found => ⟨rfl, children i field.2 ?_⟩)
      exact congrArg (Option.map Prod.snd) found
  | field line receiver name => exact .field (pairing.line_refl _) (children 0 receiver rfl)
  | fieldAssignment line receiver name value =>
      exact .fieldAssignment (pairing.line_refl _) (children 0 receiver rfl) (children 1 value rfl)
  | call line callee arguments =>
      refine .call (pairing.line_refl _) (children 0 callee rfl)
        (forall₂_mapIdx fun i child found => ?_)
      exact children (i + 1) child found
  | methodCall line receiver name arguments =>
      refine .methodCall (pairing.line_refl _) (children 0 receiver rfl)
        (forall₂_mapIdx fun i child found => ?_)
      exact children (i + 1) child found
  | unknown line kind => exact .unknown (pairing.line_refl _)

/-- A node corresponds to itself with other children and under the names of the other side, if its
children correspond to these. -/
theorem nodes_mapChildren (region : Region) (change : Nat → Expr → Expr) {expr : Expr}
    (blocks : ∀ i body, ∃ body', change i (.block body) = .block body')
    (children : ∀ i child, expr.child? i = some child → pairing.code region child (change i child))
    (known : ∀ name, expr.Mentions name → pairing.known region name)
    (unknown : ∀ line name value, expr = .assignment line name value false →
      pairing.unknown name (pairing.rename region name))
    (named : ∀ line name parameters body, expr = .function line (some name) parameters body →
      pairing.rename region name = name) :
    pairing.Nodes region expr ((expr.mapChildren change).renameOwn (pairing.rename region)) := by
  have nodes := nodes_changed region (fun _ body => ⟨body, rfl⟩) blocks children known unknown named
  rwa [Expr.mapChildren_id] at nodes

/-- A node corresponds to itself if all code does and the names are the same on both sides. -/
theorem nodes_same (region : Region) (code : ∀ expr, pairing.code region expr expr)
    (known : ∀ name, pairing.known region name) (unknown : ∀ name, pairing.unknown name name)
    (names : pairing.rename region = id) (expr : Expr) : pairing.Nodes region expr expr := by
  have nodes : pairing.Nodes region expr ((expr.mapChildren fun _ child => child).renameOwn _) :=
    nodes_mapChildren region (fun _ child => child) (fun _ body => ⟨body, rfl⟩)
      (fun _ child _ => code child) (fun name _ => known name)
      (fun _ name _ _ => by rw [names]; exact unknown name)
      fun _ name _ _ _ => congrFun names name
  rwa [names, Expr.renameOwn_id, Expr.mapChildren_id] at nodes

end Changes

end Pairing

end ScriptTree
