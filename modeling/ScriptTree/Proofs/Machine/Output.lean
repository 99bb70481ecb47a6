import ScriptTree.Proofs.Display
import ScriptTree.Proofs.Machine.Disguise
import ScriptTree.Proofs.Report

/-!
# What a step gives to the sink and to the log

The sink and the log are written to and never read. Two kinds of steps write at all: the invocation
of `print` (`Moment.printed?`) and, when calls are traced, the step from the arguments of a call to
the invocation (`Moment.calling?`). Every other step is silent: it does the same whatever the sink
and the log are, and leaves both as they are (`Moment.next_withOutput`). The two kinds are given
exactly, by `Moment.next_of_printed` and `Moment.next_of_calling`.
-/

namespace ScriptTree

open ScriptTree.Action ScriptTree.Eval

/-! ## Logs with more records -/

namespace Log

variable {log : Log}

/-- The log with one more record. -/
def push (log : Log) (record : LogRecord) : Log :=
  { log with records := log.records.push record }

/-- The log with some more records. -/
def adding (log : Log) (records : List LogRecord) : Log :=
  records.foldl push log

theorem adding_append (log : Log) (first second : List LogRecord) :
    log.adding (first ++ second) = (log.adding first).adding second :=
  List.foldl_append

theorem strict_adding (log : Log) (records : List LogRecord) :
    (log.adding records).strict = log.strict := by
  induction records generalizing log with
  | nil => rfl
  | cons record records ih => exact ih (log.push record)

theorem toList_adding (log : Log) (records : List LogRecord) :
    (log.adding records).records.toList = log.records.toList ++ records := by
  induction records generalizing log with
  | nil => exact (List.append_nil _).symm
  | cons record records ih =>
      apply (ih (log.push record)).trans
      rw [push, Array.toList_push, List.append_assoc, List.singleton_append]

end Log

/-! ## Another sink and another log -/

/-- The state with another sink and another log. -/
def State.withOutput (state : State) (sink : Sink) (log : Log) : State :=
  { state with sink, log }

/-- Evaluation looks at neither the sink nor the log. -/
def Disguise.output (sink : Sink) (log : Log) : Disguise where
  allowed _ := True
  apply state := state.withOutput sink log
  size _ := rfl
  lookup _ _ _ := rfl
  isFunction _ _ := rfl
  display? _ _ := rfl
  add _ _ := ⟨trivial, rfl⟩
  register _ _ _ _ := ⟨trivial, rfl⟩

/-! ## Moments -/

namespace Moment

/-- The moment with another sink and another log. -/
def withOutput (moment : Moment) (sink : Sink) (log : Log) : Moment :=
  { moment with state := moment.state.withOutput sink log }

/-- The arguments of `print`, when the next step invokes it. -/
def printed? (moment : Moment) : Option (List Value) :=
  match moment.focus with
  | .task (.invoke callee _ values) =>
      match (moment.state.heap.get? callee).bind Object.body with
      | some (.builtin .print) => some values
      | _ => none
  | _ => none

/-- The record of `print`, when the next step invokes it. -/
def printing? (moment : Moment) : Option LogRecord :=
  moment.printed?.map fun values => .printing (Value.quotedList? moment.state.heap values)

/-- The line that the next step gives to the sink. There is none if `print` has arguments that
cannot be shown. -/
def line? (moment : Moment) : Option String :=
  moment.printed?.bind fun values =>
    (values.mapM (Value.display? moment.state.heap)).map (String.intercalate " ")

/-- The record of a call, when all of its arguments have their values and the next step leads to
the invocation. -/
def calling? (moment : Moment) : Option LogRecord :=
  match moment.focus with
  | .task (.arguments line callee _ values [] _) =>
      some (.calling line (((moment.state.heap.get? callee).map Object.name).getD "")
        (Value.quotedList? moment.state.heap values))
  | _ => none

variable {moment : Moment} (settings : Settings) (limit : Nat)

/-- A step that neither invokes `print` nor has a call to record does the same whatever the sink and
the log are. -/
theorem next_withOutput (noPrint : moment.printed? = none)
    (noRecord : settings.traceCalls = true → moment.calling? = none) (sink : Sink) (log : Log) :
    (moment.withOutput sink log).next settings limit =
      (moment.next settings limit).withOutput sink log := by
  obtain ⟨focus, frames, state, origins⟩ := moment
  have allowed : (Disguise.output sink log).allowed (mk focus frames state origins).state := trivial
  refine (next_disguised allowed
    (fun line callee receiver values scope arguments => ?_)
    fun callee receiver values invokes => ?_).1
  · cases arguments
    have untraced : ¬ settings.traceCalls = true := fun traced => nomatch noRecord traced
    simp only [Task.begin, if_neg untraced]
    exact commutes_pure _ state allowed
  · cases invokes
    have other : (state.heap.get? callee).bind Object.body ≠ some (.builtin .print) := by
      intro print
      rw [printed?] at noPrint
      dsimp only at noPrint
      rw [print] at noPrint
      cases noPrint
    exact Task.commutesAt_invoke rfl (Task.commutes_invoked _ _ _ _ other state allowed)

/-- A silent step leaves the sink and the log as they are. -/
theorem output_next_of_silent (noPrint : moment.printed? = none)
    (noRecord : settings.traceCalls = true → moment.calling? = none) :
    (moment.next settings limit).state.sink = moment.state.sink ∧
      (moment.next settings limit).state.log = moment.state.log := by
  have same : moment.next settings limit =
      (moment.next settings limit).withOutput moment.state.sink moment.state.log :=
    next_withOutput settings limit noPrint noRecord moment.state.sink moment.state.log
  rw [same]
  exact ⟨rfl, rfl⟩

/-! ## The steps that write -/

/-- With the arguments of a call all evaluated, the step writes the record of the call, if calls are
traced, and leads to the invocation. -/
theorem next_of_calling {record : LogRecord} (calling : moment.calling? = some record) :
    ∃ line callee receiver values scope,
      moment.focus = .task (.arguments line callee receiver values [] scope) ∧
      moment.next settings limit =
        if settings.traceCalls then
          match moment.state.log.write? record with
          | none => { moment with focus := .raise .digitLimit }
          | some log =>
              { moment with
                focus := .task (.invoke callee receiver values)
                frames := .call line :: moment.frames
                state := { moment.state with log } }
        else
          { moment with
            focus := .task (.invoke callee receiver values)
            frames := .call line :: moment.frames } := by
  obtain ⟨focus, frames, state, origins⟩ := moment
  unfold calling? at calling
  dsimp only at calling
  split at calling
  · rename_i line callee receiver values scope
    cases calling
    refine ⟨line, callee, receiver, values, scope, rfl, ?_⟩
    unfold next
    dsimp only
    by_cases traced : settings.traceCalls = true
    · simp only [Task.begin, traced, if_true, after, bind_apply, Action.log, noting]
      cases state.log.write? _ <;> rfl
    · simp only [Task.begin, if_neg traced]
      rfl
  · cases calling

/-- The invocation of `print` writes its record, and then its line. -/
theorem next_of_printed {values : List Value} (printed : moment.printed? = some values) :
    moment.next settings limit =
      match moment.state.log.write? (.printing (Value.quotedList? moment.state.heap values)) with
      | none => { moment with focus := .raise .digitLimit }
      | some log =>
          match moment.line? with
          | none => { moment with focus := .raise .digitLimit, state := { moment.state with log } }
          | some line =>
              match moment.state.sink.write? line with
              | none =>
                  { moment with focus := .raise .sinkClosed, state := { moment.state with log } }
              | some sink =>
                  { moment with
                    focus := .answer (.returning .undefined)
                    state := { moment.state with log, sink } } := by
  rw [line?, printed, Option.bind_some]
  obtain ⟨focus, frames, state, origins⟩ := moment
  unfold printed? at printed
  dsimp only at printed ⊢
  split at printed
  · rename_i callee receiver given
    split at printed
    · rename_i print
      cases printed
      have ran : Task.begin settings origins (frames.length < limit)
          (.invoke callee receiver values) state =
            (do return .returning (← Builtin.print.run values) : Action Next) state := by
        change Task.invoked (origins callee) callee receiver values
          ((state.heap.get? callee).bind Object.body) state = _
        rw [print]
        rfl
      unfold next after
      dsimp only [noting]
      rw [ran]
      simp only [Builtin.run, bind_apply, Action.log]
      cases state.log.write? _ with
      | none => rfl
      | some log =>
          simp only [shown]
          cases (values.mapM (Value.display? state.heap)).map (String.intercalate " ") with
          | none => rfl
          | some line =>
              simp only [writeLine]
              cases state.sink.write? line <;> rfl
    · cases printed
  · cases printed

/-- The moment with another sink. -/
def withSink (moment : Moment) (sink : Sink) : Moment :=
  moment.withOutput sink moment.state.log

/-- A step that has no line for the sink does not depend on the sink. -/
theorem next_withSink (silent : moment.line? = none) (sink : Sink) :
    (moment.withSink sink).next settings limit = (moment.next settings limit).withSink sink := by
  cases printed : moment.printed? with
  | some values =>
      -- the record is refused, or the arguments have no text
      have printed' : (moment.withSink sink).printed? = some values := printed
      have silent' : (moment.withSink sink).line? = none := silent
      rw [next_of_printed settings limit printed, next_of_printed settings limit printed', silent,
        silent']
      dsimp only [withSink, withOutput, State.withOutput]
      cases moment.state.log.write? _ <;> rfl
  | none =>
      by_cases recorded : settings.traceCalls = true → moment.calling? = none
      · have written := next_withOutput settings limit printed recorded sink moment.state.log
        have kept := output_next_of_silent settings limit printed recorded
        rw [withSink, withSink, written, kept.2]
      · -- a call is recorded, and the log is not the sink
        obtain ⟨traced, given⟩ := Classical.not_imp.mp recorded
        obtain ⟨record, calling⟩ := Option.ne_none_iff_exists'.mp given
        have calling' : (moment.withSink sink).calling? = some record := calling
        obtain ⟨line, callee, receiver, values, scope, focus, step⟩ :=
          next_of_calling settings limit calling
        obtain ⟨_, _, _, _, _, focus', step'⟩ :=
          next_of_calling settings limit calling'
        cases focus.symm.trans focus'
        rw [step, step', if_pos traced, if_pos traced]
        dsimp only [withSink, withOutput, State.withOutput]
        cases moment.state.log.write? record <;> rfl

/-- A step that has no line for the sink leaves it as it is. -/
theorem sink_next_of_silent (silent : moment.line? = none) :
    (moment.next settings limit).state.sink = moment.state.sink := by
  have same : moment.next settings limit =
      (moment.next settings limit).withSink moment.state.sink :=
    next_withSink settings limit silent moment.state.sink
  rw [same]
  rfl

/-- A line for the sink comes with a record that has a message: what can be printed can be shown to
the log. -/
theorem printing?_of_line {line : String} (offered : moment.line? = some line) :
    ∃ record, moment.printing? = some record ∧ record.message?.isSome = true := by
  obtain ⟨values, printed, shown⟩ := Option.bind_eq_some_iff.mp offered
  refine ⟨_, by rw [printing?, printed, Option.map_some], ?_⟩
  have texts : Value.quotedList? moment.state.heap values ≠ none := by
    intro hidden
    have none := mapM_eq_none_iff.mpr (Value.quotedList?_eq_none_iff.mp hidden)
    rw [none] at shown
    cases shown
  rw [LogRecord.message?, Option.isSome_map]
  exact Option.isSome_iff_ne_none.mpr texts

/-- A step that has a line for the sink writes the record of `print` first. The line is written
then, or the sink refuses it and its fault is raised. -/
theorem next_of_line {line : String} (offered : moment.line? = some line) :
    ∃ record, moment.printing? = some record ∧
      moment.next settings limit =
        match moment.state.sink.write? line with
        | none =>
            { moment.withOutput moment.state.sink (moment.state.log.push record) with
              focus := .raise .sinkClosed }
        | some sink =>
            { moment.withOutput sink (moment.state.log.push record) with
              focus := .answer (.returning .undefined) } := by
  obtain ⟨record, printing, message⟩ := printing?_of_line offered
  obtain ⟨values, printed, -⟩ := Option.bind_eq_some_iff.mp offered
  refine ⟨record, printing, ?_⟩
  rw [printing?, printed, Option.map_some] at printing
  rw [next_of_printed settings limit printed, Option.some.inj printing,
    Log.write?_of_message message, offered]
  dsimp only
  cases moment.state.sink.write? line <;> rfl

end Moment

/-! ## What is left of it at the end -/

namespace Report

/-- The record that a run writes when it comes to its end. -/
def closing (report : Report) : List LogRecord :=
  match report.ending with
  | .ok _ => [.finished]
  | .error _ => []

/-- The report with another sink, and with another log before its last record. -/
def withOutput (report : Report) (sink : Sink) (log : Log) : Report :=
  { report with state := report.state.withOutput sink (log.adding report.closing) }

end Report

namespace Script

variable {script : Script} {settings settings' : Settings} {sink sink' : Sink} {log log' : Log}
  {n : Nat} {origins : Ref → Place}

/-- The log that a run leaves is the one of its last moment, with the last record. -/
theorem log_of_ended
    (reached : script.moment settings sink log n =
      Moment.ended [] origins (script.outcome settings sink log)) :
    (script.report (script.outcome settings sink log)).state.log =
      (script.moment settings sink log n).state.log.adding
        (script.report (script.outcome settings sink log)).closing := by
  rw [reached]
  cases script.outcome settings sink log with
  | ok completion after => cases completion <;> rfl
  | error fault after => rfl

/-- A run whose moments are those of another one, up to sink and log, reports the same up to
these. -/
theorem report_of_withOutput {sink'' : Sink} {log'' : Log}
    (reached : script.moment settings sink log n =
      Moment.ended [] origins (script.outcome settings sink log))
    (same : script.moment settings' sink' log' n =
      (script.moment settings sink log n).withOutput sink'' log'') :
    script.report (script.outcome settings' sink' log') =
      (script.report (script.outcome settings sink log)).withOutput sink'' log'' := by
  rw [reached] at same
  generalize script.outcome settings sink log = outcome at same
  cases outcome with
  | ok completion after =>
      have ended : script.moment settings' sink' log' n =
          Moment.ended [] origins (.ok completion (after.withOutput sink'' log'')) := same
      rw [outcome_of_ended ended]
      cases completion <;> rfl
  | error fault after =>
      have ended : script.moment settings' sink' log' n =
          Moment.ended [] origins (.error fault (after.withOutput sink'' log'')) := same
      rw [outcome_of_ended ended]
      rfl

end Script

end ScriptTree
