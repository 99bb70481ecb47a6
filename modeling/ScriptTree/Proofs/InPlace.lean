import ScriptTree.Proofs.Pairing.Reached
import ScriptTree.Proofs.References

/-!
# Records that are built in place

The rule for a record adds it when the values of all its fields are there. One may as well add it
first, without fields, and bind each value in it as it comes: `Eval.evaluatorInPlace` evaluates
programs in this way, and in all else by the same rules.

A program cannot tell (`Script.report_inPlace`). The objects get other references, and where an
initializer fails or returns, a record stays behind that cannot be reached. While its initializers
are evaluated, a record has no counterpart on the side where it is not added yet, and so nothing is
done to it.
-/

namespace ScriptTree

open ScriptTree.Action

namespace Eval

/-- Binds the fields of a record that is there, each when its value is, in the order in which they
stand. Gives the record. -/
def bindFields (self : Evaluator) (scope ref : Ref) :
    List (String × Expr) → Action (Completion Value)
  | [] => pure (.value (.obj ref))
  | (name, expr) :: rest => do
      (← self expr scope).andThen fun value => do
        .register ref name value
        bindFields self scope ref rest

/-- What a node does when records are built in place. -/
def rulesInPlace (settings : Settings) (self : Evaluator) : Evaluator
  | .record _ fields, scope => do
      let ref ← .add (.record [])
      bindFields self scope ref fields
  | node, scope => rules settings self node scope

/-- A node that is no record follows its rule. -/
theorem rulesInPlace_of_ne {expr : Expr} (other : ∀ line fields, expr ≠ .record line fields)
    (settings : Settings) (self : Evaluator) (scope : Ref) :
    rulesInPlace settings self expr scope = rules settings self expr scope := by
  cases expr with
  | record line fields => exact absurd rfl (other line fields)
  | _ => rfl

/-- The evaluator that builds records in place, with at most `depth` evaluations active at one
time. -/
def evaluatorInPlace (settings : Settings) : (depth : Nat) → Evaluator
  | 0, _, _ => throw .tooDeep
  | depth + 1, expr, scope => rulesInPlace settings (evaluatorInPlace settings depth) expr scope

end Eval

open ScriptTree.Eval

/-- The values of fields, and what goes on with them, one by one. -/
theorem Eval.fieldValues_cons_andThen {α : Type} (self : Evaluator) (scope : Ref)
    (field : String × Expr) (rest : List (String × Expr))
    (next : List (String × Value) → Action (Completion α)) :
    (fieldValues self scope (field :: rest) >>= fun completion => completion.andThen next) =
      self field.2 scope >>= fun completion => completion.andThen fun value =>
        fieldValues self scope rest >>= fun others =>
          others.andThen fun bindings => next ((field.1, value) :: bindings) := by
  rw [fieldValues, Completion.andThen_assoc]
  simp only [Completion.andThen_assoc, Completion.pure_value_andThen]

/-- A name that is bound after others. -/
theorem Fields.ofList_concat {α : Type} (pairs : List (String × α)) (name : String) (value : α) :
    ofList (pairs ++ [(name, value)]) = (ofList pairs).put name value :=
  List.foldl_append

/-! ## Safe evaluation in place -/

section Safe

variable {hidden : Option Ref} {size : Nat} {scope ref : Ref} {self : Evaluator}

theorem Object.not_refersTo_record_nil (target : Ref) : ¬ (Object.record []).RefersTo target := by
  rw [refersTo_record]
  rintro ⟨_, listed, -⟩
  cases listed

theorem safe_bindFields (safe : self.Safe hidden) (shown : Shown hidden size scope)
    (target : Shown hidden size ref) (fields : List (String × Expr)) :
    Safe hidden size (Completion.Shown hidden fun later value => value.Shown hidden later)
      (bindFields self scope ref fields) := by
  induction fields generalizing size with
  | nil => exact safe_pure (.value (Value.shown_obj.mpr target))
  | cons field rest ih =>
      refine safe_step (safe shown field.2) fun later le value given => ?_
      refine safe_bind (safe_register (target.mono le) field.1 given) fun _ le' _ _ => ?_
      have more := Nat.le_trans le le'
      exact ih (shown.mono more) (target.mono more)

theorem safe_rulesInPlace (safe : self.Safe hidden) (settings : Settings) :
    Evaluator.Safe hidden (rulesInPlace settings self) := by
  intro size scope shown expr
  by_cases record : ∃ line fields, expr = .record line fields
  · obtain ⟨line, fields, rfl⟩ := record
    have adds : Safe hidden size (Shown hidden) (add (.record [])) :=
      safe_add (fun target refers => absurd refers (Object.not_refersTo_record_nil target))
        fun _ => nofun
    exact safe_bind adds fun _ le _ there => safe_bindFields safe (shown.mono le) there fields
  · rw [rulesInPlace_of_ne fun line fields same => record ⟨line, fields, same⟩]
    exact safe_rules safe settings shown expr

theorem safe_evaluatorInPlace (hidden : Option Ref) (settings : Settings) (depth : Nat) :
    Evaluator.Safe hidden (evaluatorInPlace settings depth) := by
  induction depth with
  | zero => exact fun _ _ _ _ => safe_throw _
  | succ depth ih => exact safe_rulesInPlace ih settings

end Safe

/-! ## Both ways side by side -/

namespace Pairing

variable {Region : Type} {pairing : Pairing Region} {matching : Matching Region}
  {self self' : Evaluator} {region : Region} {scope scope' : Ref}

/-- Initial fields that have their values on one side, and are bound in a record on the other one,
which gets its counterpart at the end. -/
theorem outcomes_bindFields (evaluators : pairing.Evaluators self self')
    {fields fields' : List (String × Expr)}
    (all : List.Forall₂ (fun field field' => field'.1 = field.1 ∧
      pairing.code region field.2 field'.2) fields fields')
    {first : Matching Region} {heap' : Heap} {state state' : State} {ref' : Ref}
    (matched : matching scope = some (region, scope'))
    (states : pairing.States matching state state')
    (onward : first.Onward heap' matching state'.heap) (outside : heap'.size ≤ ref')
    (free : matching.Free ref') {done done' : Fields Value}
    (bindings : pairing.Bindings pairing.outer matching done done')
    (record : state'.heap.get? ref' = some (.record (.ofList done'))) :
    pairing.Outcomes first heap' (pairing.Completions pairing.Values)
      ((fieldValues self scope fields >>= fun completion => completion.andThen fun values => do
        let ref ← add (.record (.ofList (done ++ values)))
        pure (.value (.obj ref))) state)
      (bindFields self' scope' ref' fields' state') := by
  induction all generalizing matching state state' done done' with
  | nil =>
      rw [fieldValues, Completion.pure_value_andThen, List.append_nil]
      have unmatched := states.heaps.size_unmatched
      have le := Matching.le_add unmatched pairing.outer ref'
      have objects : pairing.Objects (matching.add state.heap.size pairing.outer ref') pairing.outer
          state.heap.size ref' (.record (.ofList done)) (.record (.ofList done')) :=
        ⟨rfl, .none, .none, Bindings.le (Bindings.ofList bindings) le⟩
      exact .ok (onward.match_new unmatched _ outside)
        ⟨states.heaps.match_free free record objects, states.sink, states.logs⟩
        (.value (.obj Matching.add_self))
  | @cons field field' rest rest' both _ ih =>
      obtain ⟨name, codes⟩ := both
      have inside := Heap.lt_size_of_get? record
      have outcomes := evaluators.nodes codes matched states
      rw [fieldValues_cons_andThen, bindFields, bind_apply, bind_apply]
      generalize self field.2 scope state = outcome at outcomes
      generalize self' field'.2 scope' state' = outcome' at outcomes
      cases outcomes with
      | deeper costlier => exact .deeper costlier
      | error further between faults => exact .error (onward.trans further) between faults
      | @ok later _ _ middle middle' further between completions =>
          obtain ⟨still, same⟩ := further.free inside free
          cases completions with
          | returning values => exact .ok (onward.trans further) between (.returning values)
          | @value result result' values =>
              have bound : (middle'.heap.register ref' field'.1 result').get? ref' =
                  some (.record (.ofList (done' ++ [(field'.1, result')]))) := by
                rw [Heap.get?_register, if_pos rfl, same, record, Fields.ofList_concat]
                rfl
              have pair : pairing.Bindings pairing.outer later [(field.1, result)]
                  [(field'.1, result')] := by
                refine .cons ⟨pairing.known_outer _, ?_, values⟩ .nil
                exact name.trans (pairing.rename_outer _).symm
              have others := @ih later middle
                { middle' with heap := middle'.heap.register ref' field'.1 result' }
                (further.le matched)
                ⟨between.heaps.register_free still _ _, between.sink, between.logs⟩
                ((onward.trans further).register_new outside _ _) still
                _ _ (List.rel_append (Bindings.le bindings further.le) pair) bound
              simp only [List.append_assoc, List.cons_append, List.nil_append] at others
              exact others

/-- A record that is added at the end, and one that is built in place. -/
theorem agree_rulesInPlace (evaluators : pairing.Evaluators self self') (settings : Settings)
    {expr expr' : Expr} (nodes : pairing.Nodes region expr expr')
    (matched : matching scope = some (region, scope')) :
    pairing.Agree matching (pairing.Completions pairing.Values) (rules settings self expr scope)
      (rulesInPlace settings self' expr' scope') := by
  have agree := agree_rules evaluators settings nodes matched
  cases nodes with
  | @record line line' fields fields' all =>
      intro state state' states
      have added : (state'.heap.add (.record [])).get? state'.heap.size = some (.record []) := by
        rw [Heap.get?_add, if_pos rfl]
      have steps := Heap.Steps.add none state'.heap (.record [])
      have begun : pairing.States matching state
          { state' with heap := state'.heap.add (.record []) } :=
        ⟨states.heaps.steps steps, states.sink, states.logs⟩
      have free : matching.Free state'.heap.size := fun ref region matched =>
        Nat.lt_irrefl _ (states.heaps.lt_size matched).2
      exact outcomes_bindFields evaluators all matched begun (.steps matching steps)
        (Nat.le_refl _) free .nil added
  | _ => exact agree

/-- Nodes evaluate to corresponding outcomes whichever way records are built. -/
theorem agree_evaluatorInPlace (lawful : pairing.Lawful) (whole : ∀ expr, ¬ pairing.inserted expr)
    (flat : ¬ pairing.nested) (settings : Settings) (depth : Nat) :
    pairing.Evaluators (evaluator settings depth) (evaluatorInPlace settings depth) := by
  induction depth with
  | zero =>
      exact ⟨lawful, fun _ _ => agree_throw .tooDeep, fun added => absurd added (whole _),
        fun nested => absurd nested flat⟩
  | succ depth ih =>
      refine ⟨lawful, fun codes matched => ?_, fun added => absurd added (whole _),
        fun nested => absurd nested flat⟩
      exact agree_rulesInPlace ih settings (lawful.nodes codes) matched

end Pairing

namespace InPlace

/-- A program and itself. -/
def pairing : Pairing Unit where
  toNaming := .same
  code _ expr expr' := expr' = expr
  line := Eq
  line_refl := Eq.refl
  line_orElse := @Line.orElse_congr
  unknown name name' := name' = name
  inserted _ := False

theorem lawful : pairing.Lawful where
  unseen := False.elim
  nodes := by
    intro region expr expr' same
    rw [show expr' = expr from same]
    exact Pairing.nodes_same () (fun _ => rfl) (fun _ => trivial) (fun _ => rfl) rfl expr

end InPlace

/-- A program whose records are built in place comes to the report that it comes to when they are
added at the end, up to references and objects that cannot be reached: the same lines are printed,
and it ends in the same way, with the same error on the same line. -/
theorem Script.report_inPlace (script : Script) (settings : Settings) (sink : Sink) (log : Log) :
    (script.report (script.outcome settings sink log)).SameReached
      (script.report (evaluatorInPlace settings settings.depth (.block script.body) Heap.root
        (script.begun settings sink log))) := by
  have evaluators := Pairing.agree_evaluatorInPlace InPlace.lawful (fun _ => id) id settings
    settings.depth
  have codes : InPlace.pairing.code () (.block script.body) (.block script.body) := rfl
  have outcomes := evaluators.outcomes settings sink log codes
  rcases outcomes.reports rfl with ⟨after, costlier | ⟨expr, inserted⟩, -⟩ | reports
  · exact costlier.elim
  · exact inserted.elim
  · exact reports.sameReached Eq.symm id

end ScriptTree
