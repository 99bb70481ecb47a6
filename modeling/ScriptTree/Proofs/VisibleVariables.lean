import ScriptTree.Proofs.Machine.Alone
import ScriptTree.Proofs.NearestBinding
import ScriptTree.Proofs.ScopeNames

/-!
# The variables that an assignment finds

An assignment that declares nothing needs its variable to be there. It looks the name up on the
chain of its scope, and takes it for unknown when the lookup gives undefined, which is also the mark
of a name that is not bound. So there are two ways in which it fails: no scope of the chain binds
the name to a value (`Heap.Binds`), or the nearest scope that holds the name holds undefined for it
and hides a scope further out that does bind it (`Heap.Hides`). A parameter that is given undefined
is of the second kind when a variable of its name stands around the function.

`Script.assignments_find` says this of every assignment in every scope of a run.
-/

namespace ScriptTree

/-! ## Binding and hiding -/

namespace Heap

/-- Some object of a chain binds the name to a value. Undefined is the mark of no value. -/
def Binds (heap : Heap) (links : List Ref) (name : String) : Prop :=
  ∃ link ∈ links, ∃ value, (heap.fields link).get? name = some value ∧ value ≠ .undefined

/-- The nearest object of a chain that holds the name holds undefined, and one further out binds the
name. -/
def Hides (heap : Heap) (links : List Ref) (name : String) : Prop :=
  ∃ nearer link outer, links = nearer ++ link :: outer ∧
    (∀ inner ∈ nearer, (heap.fields inner).get? name = none) ∧
    (heap.fields link).get? name = some .undefined ∧ heap.Binds outer name

variable {heap : Heap} {link : Ref} {links : List Ref} {name : String}

theorem binds_cons : heap.Binds (link :: links) name ↔
    (∃ value, (heap.fields link).get? name = some value ∧ value ≠ .undefined) ∨
      heap.Binds links name := by
  simp [Binds]

/-- An object that does not hold the name hides nothing and is no obstacle. -/
theorem hides_cons_of_none (free : (heap.fields link).get? name = none) :
    heap.Hides (link :: links) name ↔ heap.Hides links name := by
  constructor
  · rintro ⟨nearer, hider, outer, split, inner, holds, binds⟩
    cases nearer with
    | nil =>
        cases split
        cases free.symm.trans holds
    | cons first nearer =>
        cases split
        exact ⟨nearer, hider, outer, rfl, (List.forall_mem_cons.mp inner).2, holds, binds⟩
  · rintro ⟨nearer, hider, outer, rfl, inner, holds, binds⟩
    exact ⟨link :: nearer, hider, outer, rfl, List.forall_mem_cons.mpr ⟨free, inner⟩, holds, binds⟩

/-- An object that holds the name hides what is further out if it holds undefined. -/
theorem hides_cons_of_some {value : Value} (holds : (heap.fields link).get? name = some value) :
    heap.Hides (link :: links) name ↔ value = .undefined ∧ heap.Binds links name := by
  constructor
  · rintro ⟨nearer, hider, outer, split, inner, undefined, binds⟩
    cases nearer with
    | nil =>
        cases split
        exact ⟨Option.some.inj (holds.symm.trans undefined), binds⟩
    | cons first nearer =>
        cases split
        cases holds.symm.trans (inner link List.mem_cons_self)
  · rintro ⟨rfl, binds⟩
    exact ⟨[], link, links, rfl, nofun, holds, binds⟩

/-- The first value that a chain holds for a name is undefined, or there is none, just when nothing
on the chain binds the name or what binds it is hidden. -/
theorem findSome?_eq_undefined_iff :
    (links.findSome? fun link => (heap.fields link).get? name).getD .undefined = .undefined ↔
      ¬ heap.Binds links name ∨ heap.Hides links name := by
  induction links with
  | nil =>
      refine iff_of_true rfl (.inl ?_)
      rintro ⟨link, listed, -⟩
      cases listed
  | cons link links ih =>
      rw [List.findSome?_cons, binds_cons]
      cases own : (heap.fields link).get? name with
      | none =>
          rw [ih, hides_cons_of_none own]
          simp
      | some value =>
          rw [hides_cons_of_some own]
          by_cases undefined : value = .undefined
          · by_cases binds : heap.Binds links name <;> simp [undefined, binds]
          · simp [undefined]

/-- What a lookup gives is undefined just when nothing on the chain binds the name or what binds it
is hidden. -/
theorem ScopeAt.exists_lookup_iff {scope : Ref} {depth : Nat} (there : heap.ScopeAt scope depth) :
    ∃ links, heap.Linked scope links ∧ links.getLast? = some Heap.root ∧
      ∀ name, heap.lookup scope name = .undefined ↔
        ¬ heap.Binds links name ∨ heap.Hides links name := by
  rcases there.exists_linked with ⟨links, linked, length, -, last, -⟩
  refine ⟨links, linked, last, fun name => ?_⟩
  have room := there.depth_lt_size
  rw [linked.lookup_eq (by omega), findSome?_eq_undefined_iff]

end Heap

/-! ## One assignment -/

namespace Eval

variable {settings : Settings} {depth : Nat} {line : Line} {name : String} {expr : Expr}
  {scope : Ref} {state after : State} {value : Value}

/-- An assignment that declares nothing is decided by one lookup, when its value is there. -/
theorem assignment_of_value
    (given : evaluator settings depth expr scope state = .ok (.value value) after) :
    evaluator settings (depth + 1) (.assignment line name expr false) scope state =
      if after.heap.lookup scope name = .undefined then
        .error (.failure ⟨.unknownVariable name, line⟩) after
      else .ok (.value .undefined) { after with heap := after.heap.register scope name value } := by
  rw [evaluator_succ, rules, Action.bind_apply, given]
  dsimp only [Completion.andThen]
  rw [Action.bind_apply]
  dsimp only [Action.lookup, Action.view]
  by_cases unbound : after.heap.lookup scope name = .undefined
  · rw [if_pos unbound, if_pos (by simpa using unbound)]
    rfl
  · rw [if_neg unbound, if_neg (by simpa using unbound)]
    rfl

end Eval

namespace Script

variable (script : Script) (settings : Settings) (sink : Sink) (log : Log)

/-! ## The scopes of a run -/

variable {script settings sink log} in
/-- Every scope that there is at a moment of a run has a chain out to the root scope, whether or not
anything is evaluated in it. -/
theorem exists_scopeAt {n : Nat} {scope : Ref} {parent : Option Ref} {fields : Fields Value}
    (found : (script.moment settings sink log n).state.heap.get? scope =
      some (.scope parent fields)) :
    ∃ depth, (script.moment settings sink log n).state.heap.ScopeAt scope depth := by
  induction n generalizing fields with
  | zero =>
      rcases Heap.eq_of_get?_initial found with rfl | ⟨builtin, same⟩
      · exact ⟨0, .root (Heap.get?_initial_root settings)⟩
      · cases congrArg Object.body same
  | succ n ih =>
      have move := script.move_moment settings sink log n
      have grows := move.steps.grows
      rcases move.cases_get? found with ⟨before, there, same⟩ | ⟨rfl, task, does, adds⟩
      · have earlier : before = .scope parent before.fields := by
          obtain ⟨name, above, body, held⟩ := before
          cases same
          rfl
        rw [earlier] at there
        rcases ih there with ⟨depth, inside⟩
        exact ⟨depth, inside.grows grows⟩
      · generalize added : Object.scope parent fields = object at found adds
        cases adds with
        | record =>
            have different : "env" ≠ "object" := by decide
            exact absurd (congrArg Object.name added) different
        | closure => cases congrArg Object.body added
        | scope =>
            rcases move.closure_of_invoke does found with ⟨lambda, captured, closure, fits⟩
            have entered := @Moment.get?_next_of_invoke settings settings.depth _ _ _ _ _ _
              does closure fits
            rw [← moment_succ] at entered
            rcases Option.bind_eq_some_iff.mp closure with ⟨function, there, body⟩
            rcases (script.placed_moment settings sink log n).closures there body with
              ⟨name, stands⟩
            exact ⟨_, .inner entered stands.scope.lt_size (stands.scope.grows grows)⟩

/-! ## The assignments of a run -/

/-- An assignment that declares nothing, in any scope that there is at some moment of a run, when
its value has been evaluated. The chain of the scope, as it is then, ends in the root scope.
* If nothing on the chain binds the name, or the nearest scope that holds the name holds undefined
  and hides one further out that binds it, then the assignment fails for an unknown variable, at its
  own line, and nothing changes.
* Else it gives undefined, and nothing changes but that the name is bound in this scope. -/
theorem assignments_find {n : Nat} {scope : Ref} {parent : Option Ref} {fields : Fields Value}
    (found : (script.moment settings sink log n).state.heap.get? scope =
      some (.scope parent fields))
    {depth : Nat} {expr : Expr} {value : Value} {after : State}
    (given : Eval.evaluator settings depth expr scope (script.moment settings sink log n).state =
      .ok (.value value) after) (line : Line) (name : String) :
    ∃ links, after.heap.Linked scope links ∧ links.getLast? = some Heap.root ∧
      (¬ after.heap.Binds links name ∨ after.heap.Hides links name →
        Eval.evaluator settings (depth + 1) (.assignment line name expr false) scope
            (script.moment settings sink log n).state =
          .error (.failure ⟨.unknownVariable name, line⟩) after) ∧
      (after.heap.Binds links name → ¬ after.heap.Hides links name →
        ∃ bound, Eval.evaluator settings (depth + 1) (.assignment line name expr false) scope
            (script.moment settings sink log n).state =
          .ok (.value .undefined) { after with heap := bound } ∧
          bound = after.heap.register scope name value ∧
          (bound.fields scope).get? name = some value ∧
          (∀ other ≠ name, (bound.fields scope).get? other = (after.heap.fields scope).get? other) ∧
          ∀ ref ≠ scope, bound.get? ref = after.heap.get? ref) := by
  rcases exists_scopeAt found with ⟨depth', there⟩
  have grows : (script.moment settings sink log n).state.heap.Grows after.heap := by
    have ends := Eval.ends_grows settings depth expr scope
      (script.moment settings sink log n).state
    rw [Action.Ends, given] at ends
    exact ends
  rcases (there.grows grows).exists_lookup_iff with ⟨links, linked, last, unbound⟩
  refine ⟨links, linked, last, fun unknown => ?_, fun binds shown => ?_⟩
  · rw [Eval.assignment_of_value given, if_pos ((unbound name).mpr unknown)]
  · have known : after.heap.lookup scope name ≠ .undefined := by
      rw [Ne, unbound name]
      simp [binds, shown]
    have inside := (there.grows grows).lt_size
    refine ⟨_, ?_, rfl, ?_, fun other differs => ?_, fun ref differs => ?_⟩
    · rw [Eval.assignment_of_value given, if_neg known]
    · rw [Heap.fields_register inside, Fields.get?_put_self]
    · rw [Heap.fields_register inside, Fields.get?_put_of_ne _ _ differs]
    · rw [Heap.get?_register, if_neg fun same => differs same.symm]

/-- A function whose parameter has the name of a variable around it, and is given undefined. -/
def hiddenByParameter : Script :=
  ⟨.mk none [
    .assignment (some 1) "x" (.literal none (.int 5)) true,
    .function (some 2) (some "f") ["x"]
      (.mk none [.assignment (some 3) "x" (.literal none (.int 1)) false]),
    .call (some 4) (.var none "f") [.var none "unset"]]⟩

/-- The assignment in the function is evaluated in a scope whose chain binds its name, and still
fails for an unknown variable. -/
theorem unknown_hiddenByParameter : ∃ scope code state frames origins,
    hiddenByParameter.moment .standard .empty {} 20 =
      ⟨.task (.eval code scope), frames, state, origins⟩ ∧
    code.node = .assignment (some 3) "x" (.literal none (.int 1)) false ∧
    state.heap.Linked scope [scope, Heap.root] ∧ state.heap.Binds [scope, Heap.root] "x" ∧
    Eval.evaluator .standard 1 (.literal none (.int 1)) scope state = .ok (.value (.int 1)) state ∧
    Eval.evaluator .standard 2 code.node scope state =
      .error (.failure ⟨.unknownVariable "x", some 3⟩) state := by
  refine ⟨14, ⟨[0, 0, 1], _⟩, _, _, _, rfl, rfl, .next rfl rfl (.last rfl rfl), ?_, rfl, rfl⟩
  exact ⟨Heap.root, by simp, .int 5, rfl, nofun⟩

/-- In the scope of that call the name of the parameter is hidden, and the name of the function is
not. -/
theorem assignments_find_hiddenByParameter : ∃ state scope fields after links,
    (hiddenByParameter.moment .standard .empty {} 20).state = state ∧
    state.heap.get? scope = some (.scope (some Heap.root) fields) ∧
    Eval.evaluator .standard 1 (.literal none (.int 1)) scope state =
      .ok (.value (.int 1)) after ∧
    after.heap.Linked scope links ∧ links.getLast? = some Heap.root ∧
    (after.heap.Hides links "x" ∧
      Eval.evaluator .standard 2 (.assignment (some 3) "x" (.literal none (.int 1)) false) scope
        state = .error (.failure ⟨.unknownVariable "x", some 3⟩) after) ∧
    (after.heap.Binds links "f" ∧ ¬ after.heap.Hides links "f") ∧
    ∃ bound,
      Eval.evaluator .standard 2 (.assignment (some 3) "f" (.literal none (.int 1)) false) scope
        state = .ok (.value .undefined) { after with heap := bound } ∧
      bound = after.heap.register scope "f" (.int 1) ∧
      (bound.fields scope).get? "f" = some (.int 1) ∧
      (∀ other ≠ "f", (bound.fields scope).get? other = (after.heap.fields scope).get? other) ∧
      ∀ ref ≠ scope, bound.get? ref = after.heap.get? ref := by
  have found : ∃ fields, (hiddenByParameter.moment .standard .empty {} 20).state.heap.get? 14 =
      some (.scope (some Heap.root) fields) := ⟨_, rfl⟩
  have given : Eval.evaluator .standard 1 (.literal none (.int 1)) 14
      (hiddenByParameter.moment .standard .empty {} 20).state = .ok (.value (.int 1)) _ := rfl
  rcases found with ⟨fields, found⟩
  rcases assignments_find hiddenByParameter .standard .empty {} found given (some 3) "x" with
    ⟨links, linked, last, fails, -⟩
  rcases assignments_find hiddenByParameter .standard .empty {} found given (some 3) "f" with
    ⟨links', linked', -, -, succeeds⟩
  obtain rfl := linked.unique linked'
  obtain rfl := linked.unique (.next rfl rfl (.last rfl rfl))
  have hidden : (hiddenByParameter.moment .standard .empty {} 20).state.heap.Hides
      [14, Heap.root] "x" :=
    ⟨[], 14, [Heap.root], rfl, nofun, rfl, Heap.root, by simp, .int 5, rfl, nofun⟩
  have binds : (hiddenByParameter.moment .standard .empty {} 20).state.heap.Binds
      [14, Heap.root] "f" :=
    ⟨Heap.root, by simp, .obj 13, rfl, nofun⟩
  have visible : ¬ (hiddenByParameter.moment .standard .empty {} 20).state.heap.Hides
      [14, Heap.root] "f" := by
    have function : ((hiddenByParameter.moment .standard .empty {} 20).state.heap.fields
        Heap.root).get? "f" = some (.obj 13) := rfl
    rw [Heap.hides_cons_of_none rfl, Heap.hides_cons_of_some function]
    rintro ⟨undefined, -⟩
    cases undefined
  exact ⟨_, 14, fields, _, _, rfl, found, given, linked, last, ⟨hidden, fails (.inr hidden)⟩,
    ⟨binds, visible⟩, succeeds binds visible⟩

end Script

end ScriptTree
