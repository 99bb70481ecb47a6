import ScriptTree.Proofs.Pairing.Actions
import ScriptTree.Proofs.Sequences

/-!
# Two programs side by side

`Pairing.Nodes` says what a node and its counterpart have in common: they are of one kind, their
parts are nodes and counterparts again, and the elements of blocks are aligned (`Aligned`). A
pairing is lawful when this holds of all its code, and when the evaluation of what is inserted is
not seen (`Action.Unseen`). Then corresponding nodes evaluate to corresponding outcomes in
corresponding states (`agree_evaluator`), by induction on the depth that is left; the rules of
evaluation are gone through once, in `agree_rules`.
-/

namespace ScriptTree

open ScriptTree.Action ScriptTree.Eval

/-! ## Nodes and their counterparts -/

/-- What an action does is not seen: it gives a value, prints and logs nothing and binds no name in
an object that is there, unless it comes to the depth limit. -/
def Action.Unseen {α : Type} (action : Action (Completion α)) : Prop :=
  ∀ state, (∃ after, action state = .error .tooDeep after) ∨
    ∃ result after, action state = .ok (.value result) after ∧
      after.sink = state.sink ∧ after.log = state.log ∧ state.heap.Steps none after.heap

/-- The elements of a block and their counterparts, with others inserted between these. If `nested`
holds, then some of the counterparts may stand in blocks of their own. -/
inductive Aligned (related : Expr → Expr → Prop) (inserted : Expr → Prop) (nested : Prop) :
    List Expr → List Expr → Prop
  | nil : Aligned related inserted nested [] []
  | cons {expr expr' : Expr} {rest rest' : List Expr} (first : related expr expr')
      (others : Aligned related inserted nested rest rest') :
    Aligned related inserted nested (expr :: rest) (expr' :: rest')
  | insert {expr' : Expr} {rest rest' : List Expr} (added : inserted expr')
      (others : Aligned related inserted nested rest rest') :
    Aligned related inserted nested rest (expr' :: rest')
  | nest {body : Block Expr} {exprs rest' : List Expr} (allowed : nested)
      (others : Aligned related inserted nested exprs (body.instrs ++ rest')) :
    Aligned related inserted nested exprs (.block body :: rest')

section Alignment

variable {related : Expr → Expr → Prop} {inserted : Expr → Prop} {nested : Prop}
  {exprs exprs' : List Expr}

theorem Aligned.of_forall₂ (all : List.Forall₂ related exprs exprs') :
    Aligned related inserted nested exprs exprs' := by
  induction all with
  | nil => exact .nil
  | cons first _ ih => exact .cons first ih

/-- The elements are as many on both sides, if nothing is inserted and nothing is nested. -/
theorem Aligned.length_eq_or (aligned : Aligned related inserted nested exprs exprs') :
    exprs'.length = exprs.length ∨ nested ∨ ∃ expr, inserted expr := by
  induction aligned with
  | nil => exact .inl rfl
  | cons _ _ ih => exact ih.imp_left fun same => by rw [List.length_cons, List.length_cons, same]
  | insert added => exact .inr (.inr ⟨_, added⟩)
  | nest allowed => exact .inr (.inl allowed)

end Alignment

namespace Pairing

section Definitions

variable {Region : Type} (pairing : Pairing Region)

/-- A node of a region and its counterpart: of one kind, with corresponding parts. -/
inductive Nodes (region : Region) : Expr → Expr → Prop
  | block {body body' : Block Expr} (lines : pairing.line body.line body'.line)
      (elements : Aligned (pairing.code region) pairing.inserted pairing.nested body.instrs
        body'.instrs) :
    Nodes region (.block body) (.block body')
  | literal {line line' : Line} {literal : Literal} :
    Nodes region (.literal line literal) (.literal line' literal)
  | var {line line' : Line} {name : String} (known : pairing.known region name) :
    Nodes region (.var line name) (.var line' (pairing.rename region name))
  | assignment {line line' : Line} {name : String} {value value' : Expr} {declares : Bool}
      (lines : pairing.line line line') (known : pairing.known region name)
      (unknown : declares = false → pairing.unknown name (pairing.rename region name))
      (values : pairing.code region value value') :
    Nodes region (.assignment line name value declares)
      (.assignment line' (pairing.rename region name) value' declares)
  | function {line line' : Line} {name : Option String} {parameters parameters' : List String}
      {body body' : Block Expr}
      (named : ∀ bound, name = some bound →
        pairing.known region bound ∧ pairing.rename region bound = bound)
      (lambdas : pairing.Lambdas region ⟨line, name.getD "lambda", parameters, body⟩
        ⟨line', name.getD "lambda", parameters', body'⟩) :
    Nodes region (.function line name parameters body) (.function line' name parameters' body')
  | returns {line line' : Line} {value value' : Expr} (values : pairing.code region value value') :
    Nodes region (.returns line value) (.returns line' value')
  | branch {line line' : Line} {condition condition' : Expr}
      {onTrue onTrue' onFalse onFalse' : Block Expr} (lines : pairing.line line line')
      (conditions : pairing.code region condition condition')
      (trues : pairing.code region (.block onTrue) (.block onTrue'))
      (falses : pairing.code region (.block onFalse) (.block onFalse')) :
    Nodes region (.branch line condition onTrue onFalse) (.branch line' condition' onTrue' onFalse')
  | record {line line' : Line} {fields fields' : List (String × Expr)}
      (all : List.Forall₂ (fun field field' => field'.1 = field.1 ∧
        pairing.code region field.2 field'.2) fields fields') :
    Nodes region (.record line fields) (.record line' fields')
  | field {line line' : Line} {receiver receiver' : Expr} {name : String}
      (lines : pairing.line line line') (receivers : pairing.code region receiver receiver') :
    Nodes region (.field line receiver name) (.field line' receiver' name)
  | fieldAssignment {line line' : Line} {receiver receiver' value value' : Expr} {name : String}
      (lines : pairing.line line line') (receivers : pairing.code region receiver receiver')
      (values : pairing.code region value value') :
    Nodes region (.fieldAssignment line receiver name value)
      (.fieldAssignment line' receiver' name value')
  | call {line line' : Line} {callee callee' : Expr} {arguments arguments' : List Expr}
      (lines : pairing.line line line') (callees : pairing.code region callee callee')
      (all : List.Forall₂ (pairing.code region) arguments arguments') :
    Nodes region (.call line callee arguments) (.call line' callee' arguments')
  | methodCall {line line' : Line} {receiver receiver' : Expr} {name : String}
      {arguments arguments' : List Expr} (lines : pairing.line line line')
      (receivers : pairing.code region receiver receiver')
      (all : List.Forall₂ (pairing.code region) arguments arguments') :
    Nodes region (.methodCall line receiver name arguments)
      (.methodCall line' receiver' name arguments')
  | unknown {line line' : Line} {kind : String} (lines : pairing.line line line') :
    Nodes region (.unknown line kind) (.unknown line' kind)

/-- Code of the pairing corresponds part by part, and what is inserted is not seen. -/
structure Lawful : Prop where
  nodes : ∀ {region expr expr'}, pairing.code region expr expr' → pairing.Nodes region expr expr'
  unseen : ∀ {expr}, pairing.inserted expr →
    ∀ settings depth scope, (evaluator settings depth expr scope).Unseen

/-- Completions that correspond. -/
inductive Completions {α β : Type} (related : Matching Region → α → β → Prop)
    (matching : Matching Region) : Completion α → Completion β → Prop
  | value {result : α} {result' : β} (results : related matching result result') :
    Completions related matching (.value result) (.value result')
  | returning {value value' : Value} (values : pairing.Values matching value value') :
    Completions related matching (.returning value) (.returning value')

/-- Two evaluators for the nodes of a pairing. -/
structure Evaluators (inner inner' : Evaluator) : Prop where
  lawful : pairing.Lawful
  nodes : ∀ {matching region expr expr' scope scope'}, pairing.code region expr expr' →
    matching scope = some (region, scope') →
      pairing.Agree matching (pairing.Completions pairing.Values) (inner expr scope)
        (inner' expr' scope')
  unseen : ∀ {expr}, pairing.inserted expr → ∀ scope, (inner' expr scope).Unseen
  blocks : pairing.nested → ∀ scope body rest state,
    (∃ after, sequence inner' scope (.block body :: rest) state = .error .tooDeep after) ∨
      sequence inner' scope (.block body :: rest) state =
        sequence inner' scope (body.instrs ++ rest) state

end Definitions

variable {Region : Type} {pairing : Pairing Region} {matching : Matching Region}

/-! ## Lists of nodes -/

section Lists

variable {self self' : Evaluator} {region : Region} {scope scope' : Ref}

/-- Evaluations agree that agree in a part and then go on with its value. -/
theorem agree_step {α β γ δ : Type} {first : Matching Region → γ → δ → Prop}
    {related : Matching Region → α → β → Prop} {action : Action (Completion γ)}
    {action' : Action (Completion δ)} {next : γ → Action (Completion α)}
    {next' : δ → Action (Completion β)}
    (agree : pairing.Agree matching (pairing.Completions first) action action')
    (further : ∀ ⦃later⦄, matching.Le later → ∀ ⦃result result'⦄, first later result result' →
      pairing.Agree later (pairing.Completions related) (next result) (next' result')) :
    pairing.Agree matching (pairing.Completions related)
      (action >>= fun completion => completion.andThen next)
      (action' >>= fun completion => completion.andThen next') := by
  refine agree_bind agree fun later le completion completion' completions => ?_
  cases completions with
  | value results => exact further le results
  | returning values => exact agree_pure (.returning values)

theorem agree_sequence (evaluators : pairing.Evaluators self self') {exprs exprs' : List Expr}
    (elements : Aligned (pairing.code region) pairing.inserted pairing.nested exprs exprs')
    (matched : matching scope = some (region, scope')) :
    pairing.Agree matching (pairing.Completions pairing.Values) (sequence self scope exprs)
      (sequence self' scope' exprs') := by
  induction elements generalizing matching with
  | nil => exact agree_pure (.value .undefined)
  | cons first _ ih =>
      rw [sequence_cons, sequence_cons]
      exact agree_step (evaluators.nodes first matched) fun later le _ _ _ => ih (le matched)
  | @insert expr' rest rest' added _ ih =>
      intro state state' states
      rw [sequence_cons, bind_apply]
      rcases evaluators.unseen added scope' state' with
        ⟨after, tooDeep⟩ | ⟨value, after, evaluated, sink, log, steps⟩
      · rw [tooDeep]
        exact .deeper (.inr ⟨_, added⟩)
      · -- the rest goes on in a state that corresponds as before
        rw [evaluated]
        have between : pairing.States matching state after :=
          ⟨states.heaps.steps steps, sink.trans states.sink, log ▸ states.logs⟩
        exact (ih matched between).after (.steps matching steps)
  | @nest body exprs rest' allowed _ ih =>
      intro state state' states
      rcases evaluators.blocks allowed scope' body rest' state' with ⟨after, tooDeep⟩ | same
      · rw [tooDeep]
        exact .deeper (.inl allowed)
      · rw [same]
        exact ih matched states

theorem agree_arguments (evaluators : pairing.Evaluators self self') {exprs exprs' : List Expr}
    (all : List.Forall₂ (pairing.code region) exprs exprs')
    (matched : matching scope = some (region, scope')) :
    pairing.Agree matching
      (pairing.Completions fun later => List.Forall₂ (pairing.Values later))
      (arguments self scope exprs) (arguments self' scope' exprs') := by
  induction all generalizing matching with
  | nil => exact agree_pure (.value .nil)
  | cons first _ ih =>
      rw [arguments, arguments]
      refine agree_step (evaluators.nodes first matched) fun later le value value' values => ?_
      refine agree_step (ih (le matched)) fun later le others others' rest => ?_
      exact agree_pure (.value (.cons (Values.le values le) rest))

theorem agree_fieldValues (evaluators : pairing.Evaluators self self')
    {fields fields' : List (String × Expr)}
    (all : List.Forall₂ (fun field field' => field'.1 = field.1 ∧
      pairing.code region field.2 field'.2) fields fields')
    (matched : matching scope = some (region, scope')) :
    pairing.Agree matching (pairing.Completions (pairing.Bindings pairing.outer))
      (fieldValues self scope fields) (fieldValues self' scope' fields') := by
  induction all generalizing matching with
  | nil => exact agree_pure (.value .nil)
  | @cons field field' _ _ first _ ih =>
      obtain ⟨name, codes⟩ := first
      rw [fieldValues, fieldValues]
      refine agree_step (evaluators.nodes codes matched) fun later le value value' values => ?_
      refine agree_step (ih (le matched)) fun later le others others' rest => ?_
      have renamed : field'.1 = pairing.rename pairing.outer field.1 :=
        name.trans (pairing.rename_outer _).symm
      exact agree_pure
        (.value (.cons ⟨pairing.known_outer _, renamed, Values.le values le⟩ rest))

end Lists

/-! ## Calls -/

section Calls

variable {self self' : Evaluator} {values values' : List Value} {receiver receiver' : Value}

/-- The scopes of two calls begin with corresponding bindings. -/
theorem bindings_callBindings {inside : Region} {lambda lambda' : Lambda}
    (renamed : lambda'.parameters = lambda.parameters.map (pairing.rename inside))
    (known : ∀ name ∈ lambda.parameters, pairing.known inside name)
    (receivers : pairing.Values matching receiver receiver')
    (all : List.Forall₂ (pairing.Values matching) values values') :
    pairing.Bindings inside matching (callBindings lambda receiver values)
      (callBindings lambda' receiver' values') := by
  have this : pairing.known inside "this" ∧ "this" = pairing.rename inside "this" ∧
      pairing.Values matching receiver receiver' :=
    ⟨pairing.known_this inside, (pairing.rename_this inside).symm, receivers⟩
  refine Bindings.ofList (.cons this ?_)
  rw [renamed]
  generalize lambda.parameters = parameters at known
  induction all generalizing parameters with
  | nil =>
      rw [List.zip_nil_right, List.zip_nil_right]
      exact .nil
  | cons first _ ih =>
      cases parameters with
      | nil => exact .nil
      | cons name names =>
          obtain ⟨here, there⟩ := List.forall_mem_cons.mp known
          exact .cons ⟨here, rfl, first⟩ (ih names there)

/-- What the scope of a call does not bind is no parameter. -/
theorem not_mem_of_callBindings {lambda : Lambda} {name : String}
    (fits : values.length = lambda.parameters.length)
    (notBound : name ∉ (callBindings lambda receiver values).keys) :
    name ≠ "this" ∧ name ∉ lambda.parameters := by
  rw [keys_callBindings lambda receiver fits, List.mem_cons, not_or] at notBound
  obtain ⟨other, absent⟩ := notBound
  refine ⟨other, fun listed => absent ?_⟩
  rw [List.mem_eraseDups, List.mem_filter]
  exact ⟨listed, bne_iff_ne.mpr other⟩

theorem agree_enter (evaluators : pairing.Evaluators self self') {around : Region}
    {scope scope' : Ref} (matched : matching scope = some (around, scope'))
    {lambda lambda' : Lambda} (lambdas : pairing.Lambdas around lambda lambda')
    (receivers : pairing.Values matching receiver receiver')
    (all : List.Forall₂ (pairing.Values matching) values values') :
    pairing.Agree matching pairing.Values (enter self lambda scope receiver values)
      (enter self' lambda' scope' receiver' values') := by
  obtain ⟨lines, name, inside, binds, body⟩ := lambdas
  have parameters : lambda'.parameters.length = lambda.parameters.length := by
    rw [binds.renamed, List.length_map]
  have count : values'.length = values.length := all.length_eq.symm
  unfold enter
  rw [name, parameters, count]
  refine agree_ite Iff.rfl (fun fits => ?_) fun _ => agree_fail (fun _ => nofun) lines
  have bindings := bindings_callBindings binds.renamed binds.known receivers all
  have scopes := agree_addScope matched bindings fun name known notBound => by
    obtain ⟨other, noParameter⟩ := not_mem_of_callBindings fits notBound
    exact binds.free name known other noParameter
  refine agree_bind scopes fun later le inner inner' entered => ?_
  refine agree_bind (evaluators.nodes body entered) fun later le _ _ completions => ?_
  cases completions with
  | value => exact agree_pure .undefined
  | returning values => exact agree_pure values

theorem agree_invoke (evaluators : pairing.Evaluators self self') {ref ref' : Ref}
    (matched : pairing.Same matching ref ref')
    (receivers : pairing.Values matching receiver receiver')
    (all : List.Forall₂ (pairing.Values matching) values values') :
    pairing.Agree matching pairing.Values (Eval.invoke self ref receiver values)
      (Eval.invoke self' ref' receiver' values') := by
  have views : pairing.Agree matching pairing.Bodies
      (view fun state => (state.heap.get? ref).bind Object.body)
      (view fun state => (state.heap.get? ref').bind Object.body) := by
    refine agree_view fun states => ?_
    obtain ⟨object, object', found, found', objects⟩ := states.heaps.objects matched
    rw [found, found']
    exact objects.bodies
  refine agree_bind views fun later le body body' bodies => ?_
  have all := all.imp fun _ _ values => Values.le values le
  cases bodies with
  | none => exact agree_mismatch (.obj (le matched)) .function (pairing.line_refl none)
  | builtin => exact agree_run _ all
  | closure captured lambdas =>
      exact agree_enter evaluators captured lambdas (Values.le receivers le) all

theorem agree_call (evaluators : pairing.Evaluators self self') (settings : Settings)
    {line line' : Line} (lines : pairing.line line line') {ref ref' : Ref}
    (matched : pairing.Same matching ref ref')
    (receivers : pairing.Values matching receiver receiver')
    (all : List.Forall₂ (pairing.Values matching) values values') :
    pairing.Agree matching pairing.Values (call settings self line ref receiver values)
      (call settings self' line' ref' receiver' values') := by
  have logs : pairing.Agree matching Anything
      (log fun heap => .calling line (((heap.get? ref).map Object.name).getD "")
        (Value.quotedList? heap values))
      (log fun heap => .calling line' (((heap.get? ref').map Object.name).getD "")
        (Value.quotedList? heap values')) := by
    refine agree_log fun heaps => ?_
    obtain ⟨object, object', found, found', objects⟩ := heaps.objects matched
    rw [heaps.quotedList? all, found, found', Option.map_some, Option.map_some, objects.name]
    exact .calling lines
  have invokes := agree_orAt lines (agree_invoke evaluators matched receivers all)
  unfold call
  refine agree_ite Iff.rfl (fun _ => ?_) fun _ => invokes
  refine agree_bind logs fun later le _ _ _ => ?_
  have all := all.imp fun _ _ values => Values.le values le
  exact agree_orAt lines (agree_invoke evaluators (le matched) (Values.le receivers le) all)

end Calls

/-! ## The rules -/

section Rules

variable {self self' : Evaluator} {region : Region} {scope scope' : Ref}

/-- A name that is the same in both is looked up in a matched value. -/
theorem agree_lookupField {ref ref' : Ref} (matched : pairing.Same matching ref ref')
    (name : String) :
    pairing.Agree matching pairing.Values (lookup ref name) (lookup ref' name) := by
  have looked := agree_lookup matched (pairing.known_outer name)
  rwa [pairing.rename_outer] at looked

theorem agree_registerField {ref ref' : Ref} (matched : pairing.Same matching ref ref')
    (name : String) {value value' : Value} (values : pairing.Values matching value value') :
    pairing.Agree matching Anything (register ref name value) (register ref' name value') := by
  have registered := agree_register matched (pairing.known_outer name) values
  rwa [pairing.rename_outer] at registered

theorem Values.eq_undefined_iff {value value' : Value}
    (values : pairing.Values matching value value') : value' = .undefined ↔ value = .undefined := by
  cases values <;> simp

/-- Blocks that are code of a pairing are aligned. -/
theorem Lawful.elements (lawful : pairing.Lawful) {body body' : Block Expr}
    (codes : pairing.code region (.block body) (.block body')) :
    Aligned (pairing.code region) pairing.inserted pairing.nested body.instrs body'.instrs := by
  cases lawful.nodes codes with
  | block _ elements => exact elements

/-- Corresponding nodes do corresponding things, if the evaluators for their parts do. -/
theorem agree_rules (evaluators : pairing.Evaluators self self') (settings : Settings)
    {expr expr' : Expr} (nodes : pairing.Nodes region expr expr')
    (matched : matching scope = some (region, scope')) :
    pairing.Agree matching (pairing.Completions pairing.Values) (rules settings self expr scope)
      (rules settings self' expr' scope') := by
  cases nodes with
  | block _ elements => exact agree_sequence evaluators elements matched
  | @literal _ _ literal =>
      cases literal with
      | int => exact agree_pure (.value .int)
      | str => exact agree_pure (.value .str)
  | var known =>
      exact agree_bind (agree_lookup matched known) fun _ _ _ _ values => agree_pure (.value values)
  | assignment lines known unknown values =>
      refine agree_step (evaluators.nodes values matched) fun later le value value' values => ?_
      have matched := le matched
      refine agree_bind (agree_lookup matched known) fun later le found found' looked => ?_
      have same := Values.eq_undefined_iff looked
      refine agree_ite ?_ (fun refused => ?_) fun _ => ?_
      · simp only [Bool.and_eq_true, decide_eq_true_eq, same]
      · rw [Bool.and_eq_true, Bool.not_eq_true'] at refused
        exact agree_throw (.failure (.unknownVariable (unknown refused.1)) lines)
      · refine agree_bind (agree_register (le matched) known (Values.le values le)) ?_
        exact fun _ _ _ _ _ => agree_pure (.value .undefined)
  | @function line line' name parameters parameters' body body' named lambdas =>
      have adds : pairing.Agree matching pairing.Same
          (add (.function (name.getD "lambda")
            (.closure ⟨line, name.getD "lambda", parameters, body⟩ scope)))
          (add (.function (name.getD "lambda")
            (.closure ⟨line', name.getD "lambda", parameters', body'⟩ scope'))) :=
        agree_add rfl rfl rfl (.closure matched lambdas) .nil
      refine agree_bind adds fun later le ref ref' added => ?_
      cases name with
      | none => exact agree_pure (.value (.obj added))
      | some name =>
          obtain ⟨known, renamed⟩ := named name rfl
          have bound := agree_register (le matched) known (.obj added)
          rw [renamed] at bound
          exact agree_bind bound fun _ le _ _ _ => agree_pure (.value (.obj (le added)))
  | returns values =>
      refine agree_step (evaluators.nodes values matched) fun _ _ _ _ values => ?_
      exact agree_pure (.returning values)
  | branch lines conditions trues falses =>
      refine agree_step (evaluators.nodes conditions matched) fun later le value value' values => ?_
      have matched := le matched
      refine agree_bind_same (agree_integer values lines) fun later le n => ?_
      have matched := le matched
      by_cases zero : n = 0
      · rw [if_pos zero, if_pos zero]
        exact agree_sequence evaluators (evaluators.lawful.elements falses) matched
      · rw [if_neg zero, if_neg zero]
        exact agree_sequence evaluators (evaluators.lawful.elements trues) matched
  | record all =>
      refine agree_step (agree_fieldValues evaluators all matched)
        fun later le fields fields' bindings => ?_
      have adds : pairing.Agree later pairing.Same (add (.record (.ofList fields)))
          (add (.record (.ofList fields'))) :=
        agree_add rfl rfl rfl .none (Bindings.ofList bindings)
      exact agree_bind adds fun _ _ _ _ added => agree_pure (.value (.obj added))
  | field lines receivers =>
      refine agree_step (evaluators.nodes receivers matched) fun later le value value' values => ?_
      refine agree_bind (agree_object values lines) fun later le ref ref' same => ?_
      refine agree_bind (agree_lookupField same _) fun _ _ _ _ values => ?_
      exact agree_pure (.value values)
  | fieldAssignment lines receivers values =>
      refine agree_step (evaluators.nodes receivers matched)
        fun later le target target' targets => ?_
      have matched := le matched
      refine agree_bind (agree_object targets lines) fun later le ref ref' same => ?_
      refine agree_step (evaluators.nodes values (le matched))
        fun later le value value' values => ?_
      refine agree_bind (agree_registerField (le same) _ values) fun _ _ _ _ _ => ?_
      exact agree_pure (.value .undefined)
  | call lines callees all =>
      refine agree_step (evaluators.nodes callees matched) fun later le value value' values => ?_
      have matched := le matched
      refine agree_bind (agree_function values lines) fun later le ref ref' same => ?_
      refine agree_step (agree_arguments evaluators all (le matched))
        fun later le values values' all => ?_
      have calls := agree_call evaluators settings lines (le same) .undefined all
      exact agree_bind calls fun _ _ _ _ values => agree_pure (.value values)
  | methodCall lines receivers all =>
      refine agree_step (evaluators.nodes receivers matched) fun later le value value' values => ?_
      have matched := le matched
      refine agree_bind (agree_object values lines) fun later le target target' targets => ?_
      have matched := le matched
      refine agree_bind (agree_lookupField targets _) fun later le found found' looked => ?_
      have targets := le targets
      have matched := le matched
      refine agree_bind (agree_function looked lines) fun later le ref ref' same => ?_
      have targets := le targets
      refine agree_step (agree_arguments evaluators all (le matched))
        fun later le values values' all => ?_
      have calls := agree_call evaluators settings lines (le same) (.obj (le targets)) all
      exact agree_bind calls fun _ _ _ _ values => agree_pure (.value values)
  | unknown lines => exact agree_fail (fun _ => nofun) lines

/-- Corresponding nodes evaluate to corresponding outcomes, with any depth left. -/
theorem agree_evaluator (lawful : pairing.Lawful) (settings : Settings) (depth : Nat) :
    pairing.Evaluators (evaluator settings depth) (evaluator settings depth) := by
  induction depth with
  | zero =>
      exact ⟨lawful, fun _ _ => agree_throw .tooDeep, fun added => lawful.unseen added _ _,
        fun _ => sequence_block settings 0⟩
  | succ depth ih =>
      refine ⟨lawful, fun codes matched => ?_, fun added => lawful.unseen added _ _,
        fun _ => sequence_block settings _⟩
      rw [evaluator_succ]
      exact agree_rules ih settings (lawful.nodes codes) matched

end Rules

end Pairing

end ScriptTree
