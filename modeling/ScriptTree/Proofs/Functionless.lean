import ScriptTree.Proofs.BindingHistory
import ScriptTree.Proofs.CallProtocol
import ScriptTree.Proofs.Machine.Ahead
import ScriptTree.Proofs.Machine.Output

/-!
# Programs without functions

A program with no function in its tree (`Script.Functionless`) can still call, by way of any
variable, field or argument, but only what every run starts with. So it has no way to go back, and
what its runs do is bounded by its tree: each node is evaluated once at most, evaluations are nested
no deeper than the program is high, every call of the program invokes once at most and prints one
line at most, and a run ends after six steps for a node at most. Where the limit leaves room for as
many evaluations as the program is high, no run hits it (`Script.ends_without_functions`).

Most of this is proved of the evaluation of the program under any limit (`Script.nested`), of which
a run is the case with the limit of its options.
-/

namespace ScriptTree

/-- If what a list gives is each related to an element of its own, there are enough of these. -/
theorem length_filterMap_le_of_related {α β γ : Type} {list : List α} {given : α → Option β}
    {others : List γ} {R : α → γ → Prop} (nodup : list.Nodup)
    (each : ∀ a ∈ list, (given a).isSome = true → ∃ c ∈ others, R a c)
    (own : ∀ {a b c}, R a c → R b c → a = b) :
    (list.filterMap given).length ≤ others.length := by
  have chosen (a : α) (listed : a ∈ list.filter fun a => (given a).isSome) :
      ∃ c ∈ others, R a c :=
    each a (List.mem_filter.mp listed).1 (List.mem_filter.mp listed).2
  choose other inside holds using chosen
  rw [List.length_filterMap_eq_countP, List.countP_eq_length_filter,
    ← List.length_pmap (f := other) (H := fun _ => id)]
  refine List.Nodup.length_le_of_subset ?_ ?_
  · refine (nodup.filter _).pmap fun a listed b listed' same => ?_
    exact own (holds a listed) (same ▸ holds b listed')
  · intro c listed
    obtain ⟨a, there, rfl⟩ := List.mem_pmap.mp listed
    exact inside a there

namespace Moment

/-- How many evaluations are active at a moment: those that wait, and the one that has something to
do. What is invoked is not the evaluation of a node. -/
def active (moment : Moment) : Nat :=
  match moment.focus with
  | .task (.invoke ..) | .answer _ | .raise _ => moment.frames.length
  | .task _ => moment.frames.length + 1

end Moment

/-- An evaluation for which there is always room does not end by the limit. -/
theorem Eval.evaluator_ne_tooDeep {settings : Settings} {depth : Nat} {node : Expr} {scope : Ref}
    {state : State}
    (room : ∀ k, ¬ (Moment.evaluating settings depth node scope state k).Full depth)
    (after : State) : evaluator settings depth node scope state ≠ .error .tooDeep after := by
  intro failed
  obtain ⟨last, origins, reached⟩ := Moment.arrives_evaluator settings depth depth ⟨[], node⟩ scope
    [] state (fun _ => []) (Nat.zero_add depth)
  rw [failed] at reached
  -- the fault is not under way at any moment
  have never (k : Nat) :
      (Moment.evaluating settings depth node scope state k).focus ≠ .raise .tooDeep := by
    induction k with
    | zero => exact nofun
    | succ k ih =>
        have room := room k
        unfold Moment.evaluating at ih room ⊢
        rw [Function.iterate_succ_apply']
        intro raised
        rcases Moment.raises_next raised with raises | ⟨earlier, frame, passed, -, same⟩ | same
        · exact room (Moment.full_of_raises raises raised)
        · cases earlier with
          | tooDeep => exact ih passed
          | failure | digitLimit | sinkClosed => cases frame <;> cases same
        · exact ih (same ▸ raised)
  exact never last (congrArg Moment.focus reached)

namespace Script

variable {script : Script} {settings : Settings} {sink : Sink} {log : Log}

/-! ## Evaluations -/

section

variable (script settings sink log)

/-- The moments of the evaluation of a program when so many evaluations may be nested. -/
def nested (depth : Nat) : Nat → Moment :=
  Moment.evaluating settings depth (.block script.body) Heap.root (script.begun settings sink log)

theorem move_nested (depth k : Nat) :
    (script.nested settings sink log depth k).Move
      (script.nested settings sink log depth (k + 1)) :=
  Moment.move_evaluating _ _ _ _ _ _

/-- At its beginning an evaluation has the whole program ahead. -/
theorem ahead_nested_zero (depth : Nat) :
    (script.nested settings sink log depth 0).ahead = script.nodes :=
  List.flatMap_singleton _ _

end

theorem functionless_nested_zero (functionless : script.Functionless) (depth : Nat) :
    (script.nested settings sink log depth 0).Functionless settings where
  ahead := ahead_nested_zero script settings sink log depth ▸ functionless
  builtins := Heap.onlyBuiltins_initial settings

section Evaluations

variable (functionless : script.Functionless) (depth : Nat)

include functionless

theorem functionless_nested (n : Nat) :
    (script.nested settings sink log depth n).Functionless settings :=
  functionless_of_moves (move_nested script settings sink log depth)
    (functionless_nested_zero functionless depth) n

theorem shallow_nested (n : Nat) : (script.nested settings sink log depth n).Shallow := by
  induction n with
  | zero =>
      refine ⟨fun decided => ?_, fun waits => absurd waits.length_le (Nat.not_succ_le_zero _)⟩
      cases decided
      exact Nat.le_refl 0
  | succ n ih =>
      exact (move_nested script settings sink log depth n).shallow
        (functionless_nested functionless depth n).builtins ih

/-- What is evaluated is a node of the program. -/
theorem mem_nodes_of_eval {n : Nat} {code : Occurrence} {scope : Ref}
    (evaluates : (script.nested settings sink log depth n).focus = .task (.eval code scope)) :
    code ∈ script.nodes := by
  have fewer := sublist_ahead_of_moves (move_nested script settings sink log depth)
    (functionless_nested_zero functionless depth) (Nat.zero_le n)
  rw [ahead_nested_zero] at fewer
  exact fewer.subset (Moment.mem_ahead_of_eval evaluates)

/-- Fewer evaluations wait for a node than the program is high. -/
theorem length_lt_height_of_eval {n : Nat} {code : Occurrence} {scope : Ref}
    (evaluates : (script.nested settings sink log depth n).focus = .task (.eval code scope)) :
    (script.nested settings sink log depth n).frames.length < script.height := by
  have above := (shallow_nested functionless depth n).task evaluates
  have stands := mem_nodes_of_eval functionless depth evaluates
  exact Nat.lt_of_le_of_lt above (length_lt_height stands)

theorem evaluator_ne_tooDeep {depth : Nat} (allows : script.height ≤ depth) (after : State) :
    Eval.evaluator settings depth (.block script.body) Heap.root (script.begun settings sink log) ≠
      .error .tooDeep after := by
  refine Eval.evaluator_ne_tooDeep (fun k full => ?_) after
  obtain ⟨code, scope, evaluates, noRoom⟩ := full
  have room : (script.nested settings sink log depth k).frames.length < script.height :=
    length_lt_height_of_eval functionless depth evaluates
  exact absurd allows (Nat.not_le.mpr (Nat.lt_of_le_of_lt noRoom room))

end Evaluations

/-! ## Moments of a run -/

section Runs

variable (functionless : script.Functionless)

include functionless

/-- An evaluation that is open under some frames is less deep than the program is high. -/
theorem OpenAt.length_lt_height {n : Nat} {frames : List Frame} {code : Occurrence}
    (opened : script.OpenAt settings sink log n frames code) : frames.length < script.height := by
  obtain ⟨k, -, ⟨scope, evaluates⟩, rfl, -⟩ := opened
  exact length_lt_height_of_eval functionless settings.depth evaluates

/-- What is open is a node of the program. -/
theorem OpenAt.mem_nodes {n : Nat} {frames : List Frame} {code : Occurrence}
    (opened : script.OpenAt settings sink log n frames code) : code ∈ script.nodes := by
  obtain ⟨k, -, ⟨scope, evaluates⟩, -, -⟩ := opened
  exact mem_nodes_of_eval functionless settings.depth evaluates

/-- Evaluations are nested no deeper than the program is high. -/
theorem active_le_height (n : Nat) :
    (script.moment settings sink log n).active ≤ script.height := by
  have traced := script.traced settings sink log n
  -- the evaluations that wait, the innermost first
  have waiting : (script.moment settings sink log n).frames.length ≤ script.height := by
    cases frames : (script.moment settings sink log n).frames with
    | nil => exact Nat.zero_le _
    | cons frame below =>
        obtain ⟨code, opened, -⟩ := traced.frames ⟨[], frames.symm⟩
        exact opened.length_lt_height functionless
  unfold Moment.active
  split
  · exact waiting
  · exact waiting
  · exact waiting
  · rename_i task other does
    rcases traced.task does with ⟨callee, receiver, values, rfl⟩ | ⟨code, opened, -⟩
    · exact absurd rfl (other _ _ _)
    · exact opened.length_lt_height functionless

/-- No node is evaluated twice. -/
theorem eq_of_eval {n m : Nat} {code code' : Occurrence} {scope scope' : Ref}
    (evaluates : (script.moment settings sink log n).focus = .task (.eval code scope))
    (evaluates' : (script.moment settings sink log m).focus = .task (.eval code' scope'))
    (same : code.place = code'.place) : n = m := by
  refine eq_of_eval_of_moves (move_nested script settings sink log settings.depth)
    (functionless_nested_zero functionless settings.depth) ?_ evaluates evaluates' same
  rw [ahead_nested_zero]
  exact Occurrence.nodup_places _

/-- What is invoked is one of the functions that a run starts with. -/
theorem builtin_of_invoke {n : Nat} {callee : Ref} {receiver : Value} {values : List Value}
    (invokes : (script.moment settings sink log n).focus =
      .task (.invoke callee receiver values)) :
    ∃ builtin : Builtin,
      (Heap.initial settings).get? callee = some (.function builtin.name (.builtin builtin)) ∧
      ((script.moment settings sink log n).state.heap.get? callee).bind Object.body =
        some (.builtin builtin) := by
  have functions : (script.moment settings sink log n).CallsFunctions := callsFunctions_moment n
  have builtins : (script.moment settings sink log n).state.heap.OnlyBuiltins settings :=
    (functionless_nested functionless settings.depth n).builtins
  generalize script.moment settings sink log n = moment at invokes functions builtins
  obtain ⟨focus, frames, state, origins⟩ := moment
  cases invokes
  obtain ⟨body, has⟩ := Option.ne_none_iff_exists'.mp functions.body_ne_none
  obtain ⟨builtin, rfl, there⟩ := builtins has
  exact ⟨builtin, there, has⟩

end Runs

/-! ## Calls and their lines -/

section

variable (script settings sink log)

/-- A call is open at a moment of a run, and what it calls is invoked by the next step. -/
def InvokesFor (n : Nat) (code : Occurrence) : Prop :=
  ∃ line frames, (∃ callee receiver values, (script.moment settings sink log n).focus =
      .task (.invoke callee receiver values)) ∧
    (script.moment settings sink log n).frames = .call line :: frames ∧
    script.OpenAt settings sink log n frames code ∧ code.node.callLine? = some line

/-- The lines that a run gives to its sink in its first steps. The sink may refuse the last one. -/
def offered (n : Nat) : List String :=
  (List.range n).filterMap fun k => (script.moment settings sink log k).line?

end

/-- An invocation is for a call of the program. -/
theorem exists_invokesFor {n : Nat} {callee : Ref} {receiver : Value} {values : List Value}
    (invokes : (script.moment settings sink log n).focus =
      .task (.invoke callee receiver values)) :
    ∃ code, script.InvokesFor settings sink log n code := by
  cases n with
  | zero => cases invokes
  | succ n =>
      have move := script.move_moment settings sink log n
      obtain ⟨line, scope, arguments⟩ := move.arguments_of_invoke invokes
      rcases move.of_task arguments with ⟨decided, does, -, top⟩ | ⟨fault, raised, -⟩
      · rw [does.of_arguments.1] at top
        have traced := script.traced settings sink log (n + 1)
        obtain ⟨⟨place, node⟩, opened, own⟩ := traced.frames ⟨[], top.symm⟩
        cases own with
        | call is => exact ⟨_, line, _, ⟨callee, receiver, values, invokes⟩, top, opened, is⟩
      · cases invokes.symm.trans raised

/-- Only an invocation has a line for the sink. -/
theorem invokes_of_line {moment : Moment} {line : String} (offered : moment.line? = some line) :
    ∃ callee receiver values, moment.focus = .task (.invoke callee receiver values) := by
  obtain ⟨values, printed, -⟩ := Option.bind_eq_some_iff.mp offered
  unfold Moment.printed? at printed
  split at printed
  · exact ⟨_, _, _, ‹_›⟩
  · cases printed

section Calls

variable (functionless : script.Functionless)

include functionless

/-- What invokes is a call of the program. -/
theorem InvokesFor.mem_calls {n : Nat} {code : Occurrence}
    (invokes : script.InvokesFor settings sink log n code) : code ∈ script.calls := by
  obtain ⟨line, frames, -, -, opened, is⟩ := invokes
  exact List.mem_filter.mpr ⟨opened.mem_nodes functionless, is ▸ rfl⟩

/-- After a function of the language the call is over with the second step. -/
theorem over_of_invoke {n : Nat} {callee : Ref} {receiver : Value} {values : List Value}
    {line : Line} {frames : List Frame}
    (invokes : (script.moment settings sink log n).focus =
      .task (.invoke callee receiver values))
    (waits : (script.moment settings sink log n).frames = .call line :: frames) :
    (script.moment settings sink log (n + 1)).Over (.call line :: frames) ∧
      (script.moment settings sink log (n + 2)).Over frames := by
  obtain ⟨builtin, -, has⟩ := builtin_of_invoke functionless invokes
  have ran := Moment.next_of_builtin settings settings.depth invokes has
  rw [← moment_succ] at ran
  have frames' : (script.moment settings sink log (n + 1)).frames = .call line :: frames := by
    have move := script.move_moment settings sink log n
    rcases move.of_task invokes with ⟨decided, does, focus, top⟩ | ⟨fault, -, still, -⟩
    · rw [does.of_invoke.1] at top
      exact top.trans waits
    · exact still.trans waits
  have isOver : (script.moment settings sink log (n + 1)).Over (.call line :: frames) := by
    refine ⟨frames', fun task does => ?_⟩
    rcases ran with ⟨result, focus, -⟩ | ⟨fault, focus, -⟩
    · cases focus.symm.trans does
    · cases focus.symm.trans does
  exact ⟨isOver, (over_of_call isOver).1⟩

/-- A call that has invoked something does not last until a later invocation. -/
theorem not_lt_of_invokesFor {n m : Nat} {code code' : Occurrence}
    (invokes : script.InvokesFor settings sink log n code)
    (invokes' : script.InvokesFor settings sink log m code')
    (same : code.place = code'.place) : ¬ n < m := by
  intro earlier
  obtain ⟨line, frames, ⟨callee, receiver, values, focus⟩, waits, opened, -⟩ := invokes
  obtain ⟨line', frames', ⟨callee', receiver', values', focus'⟩, -, opened', -⟩ := invokes'
  obtain ⟨k, before, ⟨scope, evaluates⟩, under, -⟩ := opened
  obtain ⟨k', -, ⟨scope', evaluates'⟩, under', since⟩ := opened'
  -- both are for the one evaluation of the node
  obtain rfl : k = k' := eq_of_eval functionless evaluates evaluates' same
  obtain rfl := under.symm.trans under'
  obtain ⟨result, isOver⟩ := over_of_invoke functionless focus waits
  rcases Nat.lt_or_ge m (n + 2) with close | far
  · obtain rfl : m = n + 1 := by omega
    exact result.2 _ focus'
  · obtain ⟨task, does⟩ := (since (n + 2) (by omega) far).2 isOver.1
    exact isOver.2 task does

/-- A call of the program invokes once at most. -/
theorem eq_of_invokesFor {n m : Nat} {code code' : Occurrence}
    (invokes : script.InvokesFor settings sink log n code)
    (invokes' : script.InvokesFor settings sink log m code')
    (same : code.place = code'.place) : n = m :=
  Nat.le_antisymm (Nat.not_lt.mp (not_lt_of_invokesFor functionless invokes' invokes same.symm))
    (Nat.not_lt.mp (not_lt_of_invokesFor functionless invokes invokes' same))

/-- There are no more lines than calls in the program. -/
theorem length_offered_le (n : Nat) :
    (script.offered settings sink log n).length ≤ script.calls.length := by
  refine length_filterMap_le_of_related (R := script.InvokesFor settings sink log) List.nodup_range
    (fun k _ given => ?_) fun invokes invokes' => eq_of_invokesFor functionless invokes invokes' rfl
  obtain ⟨line, given⟩ := Option.isSome_iff_exists.mp given
  obtain ⟨callee, receiver, values, focus⟩ := invokes_of_line given
  obtain ⟨code, invokes⟩ := exists_invokesFor focus
  exact ⟨code, invokes.mem_calls functionless, invokes⟩

end Calls

/-! ## Whole runs -/

/-- A run that reports too deep nesting hits the limit. -/
theorem hitsLimit_of_reported {report : Report} {line : Line}
    (ran : script.run (.sink sink) settings log = .ok report)
    (ending : report.ending = .error (.failure ⟨.recursionTooDeep, line⟩)) :
    script.HitsLimit settings sink log := by
  rcases ending_of_run ran with none | ⟨n, result, -, -, stray⟩ | ⟨n, given, raises, raised, met⟩
  · cases ending.symm.trans none
  · cases ending.symm.trans stray
  · have same := ending.symm.trans met
    cases given with
    | failure failure =>
        obtain ⟨cause, given⟩ := failure
        rw [Fault.through_failure] at same
        cases same
        exact absurd rfl (failsAt_of_raises raises raised).cause_ne
    | tooDeep =>
        rw [moment_succ] at raised
        exact ⟨n, Moment.full_of_raises raises raised⟩
    | digitLimit | sinkClosed =>
        rw [Fault.through_of_not rfl] at same
        cases same

section Runs

variable (functionless : script.Functionless)

include functionless

/-- A run takes no more than six steps for a node. -/
theorem ended_of_size : (script.moment settings sink log (6 * script.size)).Ended := by
  have work : (script.nested settings sink log settings.depth 0).work = 6 * script.size := by
    rw [Moment.work, ahead_nested_zero]
    rfl
  have ended := ended_of_moves (move_nested script settings sink log settings.depth)
    (functionless_nested_zero functionless settings.depth)
  rw [work] at ended
  exact ended

end Runs

/-- A run of a program in whose tree there is no function evaluates nodes of the program only, and
none of them twice. At most as many evaluations are active at one time as the program is high. What
is invoked is one of the functions that the run starts with; a line comes from the invocation for a
call of the program, which is the only one for this call, so there are no more lines than calls. The
run ends whatever its options are. It is the limit that ends it only if this leaves room for fewer
evaluations than the program is high; otherwise a run that is admitted reports something else. -/
theorem ends_without_functions (script : Script) (functionless : script.Functionless)
    (settings : Settings) (sink : Sink) (log : Log) :
    (∀ {n code scope}, (script.moment settings sink log n).focus = .task (.eval code scope) →
      script.nodeAt? code.place = some code.node ∧
      ∀ {m code' scope'},
        (script.moment settings sink log m).focus = .task (.eval code' scope') →
          code.place = code'.place → n = m) ∧
    (∀ n, (script.moment settings sink log n).active ≤ script.height) ∧
    (∀ {n callee receiver values},
      (script.moment settings sink log n).focus = .task (.invoke callee receiver values) →
        ∃ builtin : Builtin,
          (Heap.initial settings).get? callee = some (.function builtin.name (.builtin builtin)) ∧
          ((script.moment settings sink log n).state.heap.get? callee).bind Object.body =
            some (.builtin builtin)) ∧
    (∀ {n line}, (script.moment settings sink log n).line? = some line →
      ∃ code ∈ script.calls, ∀ m, script.InvokesFor settings sink log m code ↔ m = n) ∧
    (∀ n, (script.offered settings sink log n).length ≤ script.calls.length) ∧
    (script.moment settings sink log (6 * script.size)).Ended ∧
    (∀ {depth}, script.height ≤ depth → ∀ after,
      Eval.evaluator settings depth (.block script.body) Heap.root
        (script.begun settings sink log) ≠ .error .tooDeep after) ∧
    (script.height ≤ settings.depth →
      Settings.greatestLimit < settings.effectiveLimit ∧
          script.run (.sink sink) settings log = .error .limitTooLarge ∨
        ∃ report, script.run (.sink sink) settings log = .ok report ∧
          ∀ line, report.ending ≠ .error (.failure ⟨.recursionTooDeep, line⟩)) := by
  refine ⟨fun evaluates => ⟨?_, fun evaluates' same => ?_⟩,
    active_le_height functionless, builtin_of_invoke functionless, fun given => ?_,
    length_offered_le functionless, ended_of_size functionless,
    evaluator_ne_tooDeep functionless, fun allows => ?_⟩
  · exact mem_nodes_iff.mp (mem_nodes_of_eval functionless settings.depth evaluates)
  · exact eq_of_eval functionless evaluates evaluates' same
  · obtain ⟨callee, receiver, values, focus⟩ := invokes_of_line given
    obtain ⟨code, invokes⟩ := exists_invokesFor focus
    refine ⟨code, invokes.mem_calls functionless, fun m => ⟨fun invokes' => ?_, ?_⟩⟩
    · exact eq_of_invokesFor functionless invokes' invokes rfl
    · rintro rfl
      exact invokes
  · by_cases admitted : settings.effectiveLimit ≤ Settings.greatestLimit
    · refine .inr ⟨_, run_of_admitted admitted, fun line ending => ?_⟩
      obtain ⟨after, failed⟩ := hitsLimit_iff.mp
        (hitsLimit_of_reported (run_of_admitted admitted) ending)
      exact evaluator_ne_tooDeep functionless allows after failed
    · refine .inl ⟨Nat.lt_of_not_le admitted, ?_⟩
      rw [run_eq, if_neg admitted]

/-- Functions of the language under other names, in a record and as a method, called in a branch, as
an argument and by way of `global`. -/
def borrowed : Script :=
  ⟨.mk none [
    .assignment none "say" (.field none (.var none "global") "print") true,
    .assignment none "tools" (.record none [("say", .var none "say"), ("add", .var none "+")]) true,
    .branch (some 3) (.call none (.var none "<") [.literal none (.int 1), .literal none (.int 2)])
      (.mk none [
        .methodCall (some 4) (.var none "tools") "say" [
          .methodCall (some 4) (.var none "tools") "add" [
            .literal none (.int 3), .literal none (.int 4)]],
        .call (some 5) (.var none "say") [.literal none (.str "done")]])
      (.mk none [.call (some 6) (.var none "say") []]),
    .methodCall (some 7) (.var none "global") "missing" []]⟩

theorem ends_without_functions_borrowed :
    borrowed.Functionless ∧ borrowed.height = 6 ∧ borrowed.calls.length = 6 ∧
    (∀ n, (borrowed.moment .standard .empty {} n).active ≤ 6) ∧
    (∃ code ∈ borrowed.calls, ∀ m, borrowed.InvokesFor .standard .empty {} m code ↔ m = 54) ∧
    (∀ n, (borrowed.offered .standard .empty {} n).length ≤ 6) ∧
    (borrowed.moment .standard .empty {} (6 * 28)).Ended ∧
    (∀ after, Eval.evaluator .standard 6 (.block borrowed.body) Heap.root
      (borrowed.begun .standard .empty {}) ≠ .error .tooDeep after) ∧
    ∃ report, borrowed.run (.sink .empty) .standard {} = .ok report ∧
      ∀ line, report.ending ≠ .error (.failure ⟨.recursionTooDeep, line⟩) := by
  have functionless : borrowed.Functionless := by decide
  have height : borrowed.height = 6 := by decide
  have size : borrowed.size = 28 := by decide
  have calls : borrowed.calls.length = 6 := by decide
  have prints : (borrowed.moment .standard .empty {} 54).line? = some "7" := by decide +kernel
  obtain ⟨-, active, -, line, offered, ended, inside, reports⟩ :=
    ends_without_functions borrowed functionless .standard .empty {}
  rw [height] at active inside reports
  rw [calls] at offered
  rw [size] at ended
  refine ⟨functionless, height, calls, active, line prints, offered, ended,
    inside (Nat.le_refl 6), ?_⟩
  rcases reports (by decide) with ⟨tooLarge, -⟩ | reported
  · exact absurd tooLarge (by decide)
  · exact reported

end Script

end ScriptTree
