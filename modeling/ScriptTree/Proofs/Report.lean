import ScriptTree.Proofs.Machine.Adequacy
import ScriptTree.Proofs.Machine.Moves

/-!
# What a run reports

A run that is admitted evaluates the program's block in the root scope, and what it reports depends
on nothing but the outcome of that evaluation (`Script.run_eq`). The moments of the run come to the
same outcome (`Script.exists_moment_eq_ended`), and to no other (`Script.outcome_of_ended`).
-/

namespace ScriptTree

namespace Moment

variable {settings : Settings} {limit : Nat} {moment : Moment} {origins origins' : Ref → Place}
  {outcome outcome' : EStateM.Result Fault State (Completion Value)}

/-- An evaluation that has come to an outcome is over. -/
theorem ended_ended (origins : Ref → Place)
    (outcome : EStateM.Result Fault State (Completion Value)) :
    (ended [] origins outcome).Ended := by
  cases outcome with
  | ok completion after => exact ⟨rfl, nofun⟩
  | error fault after => exact ⟨rfl, nofun⟩

/-- An end determines its outcome. -/
theorem outcome_inj {frames frames' : List Frame}
    (same : ended frames origins outcome = ended frames' origins' outcome') :
    outcome = outcome' := by
  cases outcome <;> cases outcome' <;> cases same <;> rfl

/-- An evaluation comes to one outcome only. -/
theorem outcome_unique {n n' : Nat}
    (reached : (next settings limit)^[n] moment = ended [] origins outcome)
    (reached' : (next settings limit)^[n'] moment = ended [] origins' outcome') :
    outcome = outcome' := by
  have isOver := ended_ended origins outcome
  have isOver' := ended_ended origins' outcome'
  rw [← reached] at isOver
  rw [← reached'] at isOver'
  suffices same : ended [] origins outcome = ended [] origins' outcome' from outcome_inj same
  rw [← reached, ← reached']
  rcases Nat.le_total n n' with later | earlier
  · exact (iterate_of_ended isOver later).symm
  · exact iterate_of_ended isOver' earlier

end Moment

/-- Two runs are both refused for one reason, or their reports are related. -/
inductive RunsAlike (related : Report → Report → Prop) :
    Except Refusal Report → Except Refusal Report → Prop
  | refused {refusal : Refusal} : RunsAlike related (.error refusal) (.error refusal)
  | reported {report report' : Report} (reports : related report report') :
    RunsAlike related (.ok report) (.ok report')

theorem RunsAlike.trans {related : Report → Report → Prop} {run run' run'' : Except Refusal Report}
    (both : ∀ {first second third}, related first second → related second third →
      related first third) (alike : RunsAlike related run run')
    (further : RunsAlike related run' run'') : RunsAlike related run run'' := by
  cases alike with
  | refused => exact further
  | reported reports =>
      cases further with
      | reported reports' => exact .reported (both reports reports')

namespace Script

variable (script : Script) (settings : Settings) (sink : Sink) (log : Log)

/-- The state in which the evaluation of a program begins: the log has its first record. -/
def begun : State :=
  start settings sink
    { log with records := log.records.push (.started script.body.instrs.length) }

/-- The outcome of the evaluation of a program. -/
def outcome : EStateM.Result Fault State (Completion Value) :=
  Eval.evaluator settings settings.depth (.block script.body) Heap.root
    (script.begun settings sink log)

/-- The report on an outcome. A `return` outside of any function is an error of the program's
block, and only a run that gives a value writes its last record. -/
def report : EStateM.Result Fault State (Completion Value) → Report
  | .ok (.value _) after =>
      ⟨.ok (), { after with log := { after.log with records := after.log.records.push .finished } }⟩
  | .ok (.returning _) after => ⟨.error (.failure ⟨.strayReturn, script.body.line⟩), after⟩
  | .error fault after => ⟨.error fault.reported, after⟩

/-- A run is refused for a limit that is too large, and else reports the outcome. -/
theorem run_eq : script.run (.sink sink) settings log =
    if settings.effectiveLimit ≤ Settings.greatestLimit then
      .ok (script.report (script.outcome settings sink log))
    else .error .limitTooLarge := by
  unfold run outcome begun start
  dsimp only
  rw [execute_apply, evaluate, Action.bind_apply]
  generalize Eval.evaluator settings settings.depth (.block script.body) Heap.root _ = outcome
  cases outcome with
  | ok completion after => cases completion <;> rfl
  | error fault after => rfl

variable {script settings sink log}

theorem run_of_admitted (admitted : settings.effectiveLimit ≤ Settings.greatestLimit) :
    script.run (.sink sink) settings log =
      .ok (script.report (script.outcome settings sink log)) := by
  rw [run_eq, if_pos admitted]

/-- Two runs with one limit are both refused, or they report their outcomes. -/
theorem runsAlike_of_reports {script' : Script} {settings' : Settings} {sink' : Sink} {log' : Log}
    {related : Report → Report → Prop} (limit : settings'.effectiveLimit = settings.effectiveLimit)
    (reports : related (script.report (script.outcome settings sink log))
      (script'.report (script'.outcome settings' sink' log'))) :
    RunsAlike related (script.run (.sink sink) settings log)
      (script'.run (.sink sink') settings' log') := by
  rw [run_eq, run_eq, limit]
  split
  · exact .reported reports
  · exact .refused

variable (script settings sink log)

/-- The moments of a run come to the outcome. -/
theorem exists_moment_eq_ended : ∃ n origins,
    script.moment settings sink log n =
      Moment.ended [] origins (script.outcome settings sink log) :=
  Moment.arrives_evaluator settings settings.depth settings.depth ⟨[], .block script.body⟩
    Heap.root [] (script.begun settings sink log) (fun _ => []) (Nat.zero_add _)

variable {script settings sink log}

/-- The outcome at which the moments of a run end is that of the evaluation. -/
theorem outcome_of_ended {n : Nat} {origins : Ref → Place}
    {outcome : EStateM.Result Fault State (Completion Value)}
    (reached : script.moment settings sink log n = Moment.ended [] origins outcome) :
    script.outcome settings sink log = outcome := by
  obtain ⟨last, origins', reached'⟩ := script.exists_moment_eq_ended settings sink log
  exact Moment.outcome_unique reached' reached

/-- What a run leaves is what its last moment holds. -/
theorem state_of_ended {n : Nat} {origins : Ref → Place}
    (reached : script.moment settings sink log n =
      Moment.ended [] origins (script.outcome settings sink log)) :
    (script.report (script.outcome settings sink log)).state.heap =
        (script.moment settings sink log n).state.heap ∧
      (script.report (script.outcome settings sink log)).state.sink =
        (script.moment settings sink log n).state.sink := by
  rw [reached]
  cases script.outcome settings sink log with
  | ok completion after => cases completion <;> exact ⟨rfl, rfl⟩
  | error fault after => exact ⟨rfl, rfl⟩

/-- After its end a run stays as it is. -/
theorem moment_of_ended {n m : Nat} (isOver : (script.moment settings sink log n).Ended)
    (later : n ≤ m) : script.moment settings sink log m = script.moment settings sink log n :=
  Moment.iterate_of_ended isOver later

end Script

end ScriptTree
