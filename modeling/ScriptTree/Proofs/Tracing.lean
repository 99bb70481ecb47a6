import Mathlib.Data.List.Forall2
import ScriptTree.Proofs.Machine.Open
import ScriptTree.Proofs.Machine.Output

/-!
# Tracing of calls

No step looks at the log, and a lenient log takes every record. So a run with the tracing of calls
goes through the same moments as the one without, up to its log, and the logs differ by the records
of calls alone (`Script.moment_tracing`). These stand for the invocations that the calls of the
program make, one for each and in order (`Script.tracing_only_observes`).
-/

namespace ScriptTree

/-- The same options, with or without the tracing of calls. -/
def Settings.tracing (settings : Settings) (traceCalls : Bool) : Settings :=
  { settings with traceCalls }

/-- Whether a record is one of a call. -/
def LogRecord.isCalling : LogRecord → Bool
  | .calling .. => true
  | .started _ | .finished | .printing _ => false

/-! ## Single steps -/

namespace Moment

variable {moment : Moment} (settings settings' : Settings) (limit : Nat)

/-- The moment with another log. -/
def withLog (moment : Moment) (log : Log) : Moment :=
  moment.withOutput moment.state.sink log

/-- The records that the next step gives to a lenient log. -/
def emits (moment : Moment) (traceCalls : Bool) : List LogRecord :=
  (if traceCalls then moment.calling?.toList else []) ++ moment.printing?.toList

/-- Whether an invocation is next. -/
def invokes (moment : Moment) : Bool :=
  match moment.focus with
  | .task (.invoke ..) => true
  | _ => false

theorem exists_of_calling? {record : LogRecord} (calling : moment.calling? = some record) :
    ∃ line name arguments, record = .calling line name arguments := by
  unfold calling? at calling
  split at calling
  · cases calling
    exact ⟨_, _, _, rfl⟩
  · cases calling

theorem exists_of_printing? {record : LogRecord} (printing : moment.printing? = some record) :
    ∃ arguments, record = .printing arguments := by
  obtain ⟨values, -, rfl⟩ := Option.map_eq_some_iff.mp printing
  exact ⟨_, rfl⟩

/-- What a step gives to a traced log are its record of a call and what it gives to any log. -/
theorem filter_emits (moment : Moment) :
    (moment.emits true).filter LogRecord.isCalling = moment.calling?.toList ∧
      (moment.emits true).filter (!·.isCalling) = moment.emits false := by
  have calls : ∀ record ∈ moment.calling?.toList, record.isCalling = true := by
    intro record given
    obtain ⟨line, name, arguments, rfl⟩ := exists_of_calling? (Option.mem_toList.mp given)
    rfl
  have prints : ∀ record ∈ moment.printing?.toList, record.isCalling = false := by
    intro record given
    obtain ⟨arguments, rfl⟩ := exists_of_printing? (Option.mem_toList.mp given)
    rfl
  have callsOnly := List.filter_eq_self.mpr calls
  have noCalls : (moment.printing?.toList).filter LogRecord.isCalling = [] :=
    List.filter_eq_nil_iff.mpr fun record given => by simp [prints record given]
  have printsOnly : (moment.printing?.toList).filter (!·.isCalling) = moment.printing?.toList :=
    List.filter_eq_self.mpr fun record given => by simp [prints record given]
  have noPrints : (moment.calling?.toList).filter (!·.isCalling) = [] :=
    List.filter_eq_nil_iff.mpr fun record given => by simp [calls record given]
  constructor
  · rw [emits, if_pos rfl, List.filter_append, callsOnly, noCalls, List.append_nil]
  · rw [emits, if_pos rfl, List.filter_append, noPrints, printsOnly]
    rfl

/-- Only the step from the arguments of a call looks at whether calls are traced. -/
theorem next_settings (noCall : moment.calling? = none) :
    moment.next settings limit = moment.next settings' limit := by
  obtain ⟨focus, frames, state, origins⟩ := moment
  match focus with
  | .answer completion => cases frames <;> cases completion <;> rfl
  | .raise fault => cases frames <;> rfl
  | .task (.arguments _ _ _ _ [] _) => cases noCall
  | .task (.eval ..) | .task (.elements [] _) | .task (.elements (_ :: _) _)
  | .task (.fields _ [] _) | .task (.fields _ (_ :: _) _)
  | .task (.arguments _ _ _ _ (_ :: _) _) | .task (.invoke ..) => rfl

theorem calling?_of_printed {values : List Value} (printed : moment.printed? = some values) :
    moment.calling? = none := by
  unfold printed? at printed
  unfold calling?
  split at printed
  · rename_i focus
    rw [focus]
  · cases printed

/-- With a lenient log, the invocation of `print` always writes its record. -/
theorem next_of_printed_lenient {values : List Value} (printed : moment.printed? = some values)
    (lenient : moment.state.log.strict = false) :
    moment.next settings limit =
      let logged := moment.withLog
        (moment.state.log.push (.printing (Value.quotedList? moment.state.heap values)))
      match moment.line? with
      | none => { logged with focus := .raise .digitLimit }
      | some line =>
          match moment.state.sink.write? line with
          | none => { logged with focus := .raise .sinkClosed }
          | some sink =>
              { logged with
                focus := .answer (.returning .undefined)
                state := { logged.state with sink } } := by
  rw [next_of_printed settings limit printed, Log.write?_of_lenient lenient]
  rfl

/-- With a lenient log, the step from the arguments of a call always leads to the invocation. -/
theorem next_of_calling_lenient {record : LogRecord} (calling : moment.calling? = some record)
    (lenient : moment.state.log.strict = false) :
    ∃ line callee receiver values scope,
      moment.focus = .task (.arguments line callee receiver values [] scope) ∧
      moment.next settings limit =
        let logged := moment.withLog
          (moment.state.log.adding (if settings.traceCalls then [record] else []))
        { logged with
          focus := .task (.invoke callee receiver values)
          frames := .call line :: moment.frames } := by
  obtain ⟨line, callee, receiver, values, scope, focus, step⟩ :=
    next_of_calling settings limit calling
  refine ⟨line, callee, receiver, values, scope, focus, ?_⟩
  rw [step, Log.write?_of_lenient lenient]
  cases settings.traceCalls <;> rfl

/-- With another lenient log a step does the same, and gives that log its records, whether or not
the tracing of calls is the same. -/
theorem next_withLog (lenient : moment.state.log.strict = false) {log : Log}
    (lenient' : log.strict = false) :
    (moment.withLog log).next settings' limit =
      (moment.next settings limit).withLog (log.adding (moment.emits settings'.traceCalls)) := by
  cases printed : moment.printed? with
  | some values =>
      have printed' : (moment.withLog log).printed? = some values := printed
      have records : moment.emits settings'.traceCalls =
          [.printing (Value.quotedList? moment.state.heap values)] := by
        simp [emits, printing?, printed, calling?_of_printed printed]
      rw [next_of_printed_lenient settings limit printed lenient,
        next_of_printed_lenient settings' limit printed' lenient', records]
      change (match moment.line? with | none => _ | some line => _) = _
      cases moment.line? with
      | none => rfl
      | some line =>
          change (match moment.state.sink.write? line with | none => _ | some sink => _) = _
          dsimp only
          cases moment.state.sink.write? line <;> rfl
  | none =>
      cases calling : moment.calling? with
      | none =>
          have records : moment.emits settings'.traceCalls = [] := by
            simp [emits, printing?, printed, calling]
          have silent (traced : settings'.traceCalls = true) : moment.calling? = none := calling
          have same := output_next_of_silent settings' limit printed silent
          rw [records, next_settings settings settings' limit calling, withLog, withLog, same.1]
          exact next_withOutput settings' limit printed silent _ log
      | some record =>
          have calling' : (moment.withLog log).calling? = some record := calling
          have records : moment.emits settings'.traceCalls =
              if settings'.traceCalls then [record] else [] := by
            simp [emits, printing?, printed, calling]
          obtain ⟨line, callee, receiver, values, scope, focus, step⟩ :=
            next_of_calling_lenient settings limit calling lenient
          obtain ⟨_, _, _, _, _, focus', step'⟩ :=
            next_of_calling_lenient settings' limit calling' lenient'
          cases focus.symm.trans focus'
          rw [step, step', records]
          rfl

/-- An invocation is next after exactly the steps that have a call to record. -/
theorem invokes_next (lenient : moment.state.log.strict = false) :
    (moment.next settings limit).invokes = moment.calling?.isSome := by
  cases calling : moment.calling? with
  | some record =>
      obtain ⟨line, callee, receiver, values, scope, focus, step⟩ :=
        next_of_calling_lenient settings limit calling lenient
      rw [step]
      rfl
  | none =>
      by_contra invokes
      cases focus : (moment.next settings limit).focus with
      | task task =>
          cases task with
          | invoke callee receiver values =>
              obtain ⟨line, scope, arguments⟩ := (move_next moment).arguments_of_invoke focus
              rw [calling?, arguments] at calling
              cases calling
          | _ => exact invokes (by rw [Moment.invokes, focus]; rfl)
      | _ => exact invokes (by rw [Moment.invokes, focus]; rfl)

end Moment

/-! ## Whole runs -/

namespace Script

variable (script : Script) (settings : Settings) (sink : Sink) (records : Array LogRecord)

/-- The records of a run up to some moment, with or without the tracing of calls. -/
def emitted (traceCalls : Bool) (n : Nat) : List LogRecord :=
  .started script.body.instrs.length :: (List.range n).flatMap fun k =>
    (script.moment (settings.tracing false) sink { records } k).emits traceCalls

variable {script settings sink records}

theorem emitted_succ (traceCalls : Bool) (n : Nat) :
    script.emitted settings sink records traceCalls (n + 1) =
      script.emitted settings sink records traceCalls n ++
        (script.moment (settings.tracing false) sink { records } n).emits traceCalls := by
  simp [emitted, List.range_succ]

/-- Traced or not, a run goes through the same moments, up to its log. -/
theorem moment_tracing (traceCalls : Bool) (n : Nat) :
    script.moment (settings.tracing traceCalls) sink { records } n =
      (script.moment (settings.tracing false) sink { records } n).withLog
        (Log.adding { records } (script.emitted settings sink records traceCalls n)) := by
  induction n generalizing traceCalls with
  | zero => rfl
  | succ n ih =>
      have lenient : (script.moment (settings.tracing false) sink { records } n).state.log.strict =
          false := by
        rw [ih false]
        exact Log.strict_adding _ _
      rw [moment_succ, moment_succ, ih traceCalls, emitted_succ, Log.adding_append]
      exact Moment.next_withLog _ _ _ lenient (Log.strict_adding _ _)

/-- Traced or not, a run reports the same, up to its log. -/
theorem report_tracing {n : Nat} {origins : Ref → Place}
    (reached : script.moment (settings.tracing false) sink { records } n =
      Moment.ended [] origins (script.outcome (settings.tracing false) sink { records }))
    (traceCalls : Bool) :
    script.report (script.outcome (settings.tracing traceCalls) sink { records }) =
      (script.report (script.outcome (settings.tracing false) sink { records })).withOutput
        (script.report (script.outcome (settings.tracing false) sink { records })).state.sink
        (Log.adding { records } (script.emitted settings sink records traceCalls n)) := by
  rw [report_of_withOutput reached (moment_tracing traceCalls n), (state_of_ended reached).2]

/-- The record of a call in the log of a traced run, for the invocation that is next at a moment: a
node that is a call has evaluated all of its arguments, and the step from there gives the log this
record and leads to the invocation. -/
inductive RecordsCall (script : Script) (settings : Settings) (sink : Sink) (log : Log) :
    Nat → LogRecord → Prop
  | mk {n : Nat} {line : Line} {callee scope : Ref} {receiver : Value} {values : List Value}
      {code : Occurrence} {record : LogRecord}
      (opened : script.OpenAt settings sink log n (script.moment settings sink log n).frames code)
      (node : code.node.callLine? = some line)
      (evaluated : (script.moment settings sink log n).focus =
        .task (.arguments line callee receiver values [] scope))
      (invokes : (script.moment settings sink log (n + 1)).focus =
        .task (.invoke callee receiver values))
      (logged : (script.moment settings sink log (n + 1)).state.log =
        (script.moment settings sink log n).state.log.push record)
      (shows : record = .calling line
        ((((script.moment settings sink log n).state.heap.get? callee).map Object.name).getD "")
        (Value.quotedList? (script.moment settings sink log n).state.heap values)) :
    RecordsCall script settings sink log (n + 1) record

/-- A traced run records each of its invocations, in their order. -/
theorem recordsCalls (n : Nat) :
    List.Forall₂ (script.RecordsCall (settings.tracing true) sink { records })
      ((List.range (n + 1)).filter fun k =>
        (script.moment (settings.tracing true) sink { records } k).invokes)
      ((List.range n).filterMap fun k =>
        (script.moment (settings.tracing true) sink { records } k).calling?) := by
  induction n with
  | zero => exact .nil
  | succ n ih =>
      have lenient : (script.moment (settings.tracing true) sink { records } n).state.log.strict =
          false := by
        rw [moment_tracing]
        exact Log.strict_adding _ _
      have invokes := Moment.invokes_next (settings.tracing true) (settings.tracing true).depth
        lenient
      rw [← moment_succ] at invokes
      rw [List.range_succ (n := n + 1), List.range_succ (n := n), List.filterMap_append,
        ← List.range_succ, List.filter_append]
      apply List.rel_append ih
      cases calling : (script.moment (settings.tracing true) sink { records } n).calling? with
      | none =>
          rw [calling] at invokes
          simp [invokes, calling]
      | some record =>
          rw [calling] at invokes
          simp only [invokes, calling, Option.isSome_some, List.filter_cons, List.filter_nil,
            List.filterMap_cons, List.filterMap_nil, if_true]
          refine .cons ?_ .nil
          obtain ⟨line, callee, receiver, values, scope, focus, step⟩ :=
            Moment.next_of_calling_lenient (settings.tracing true) (settings.tracing true).depth
              calling lenient
          rw [← moment_succ] at step
          rcases (script.traced (settings.tracing true) sink { records } n).task focus with
            ⟨_, _, _, invoke⟩ | ⟨⟨place, node⟩, opened, own⟩
          · cases invoke
          · cases own with
            | arguments call =>
                rw [Moment.calling?, focus] at calling
                refine .mk opened call focus (by rw [step]) (by rw [step]; rfl) ?_
                exact (Option.some.inj calling).symm

/-- Of the records of a traced run, those of calls are the ones that its steps have to record, and
the others are the records of the untraced run. -/
theorem filter_emitted (n : Nat) :
    ((script.emitted settings sink records true n).filter LogRecord.isCalling =
        (List.range n).filterMap fun k =>
          (script.moment (settings.tracing true) sink { records } k).calling?) ∧
      (script.emitted settings sink records true n).filter (!·.isCalling) =
        script.emitted settings sink records false n := by
  induction n with
  | zero => exact ⟨rfl, rfl⟩
  | succ n ih =>
      have filtered := (script.moment (settings.tracing false) sink { records } n).filter_emits
      have calling : (script.moment (settings.tracing true) sink { records } n).calling? =
          (script.moment (settings.tracing false) sink { records } n).calling? := by
        rw [moment_tracing true]
        rfl
      rw [emitted_succ, emitted_succ, List.filter_append, List.filter_append, ih.1, ih.2,
        filtered.1, filtered.2, List.range_succ, List.filterMap_append, ← calling]
      refine ⟨congrArg _ ?_, rfl⟩
      cases h : (script.moment (settings.tracing true) sink { records } n).calling? <;> simp [h]

/-- No step writes the last record of a run. -/
theorem finished_not_mem_emitted (traceCalls : Bool) (n : Nat) :
    .finished ∉ script.emitted settings sink records traceCalls n := by
  intro listed
  rcases List.mem_cons.mp listed with first | later
  · cases first
  · obtain ⟨k, -, given⟩ := List.mem_flatMap.mp later
    rcases List.mem_append.mp given with calling | printing
    · split at calling
      · obtain ⟨_, _, _, same⟩ := Moment.exists_of_calling? (Option.mem_toList.mp calling)
        cases same
      · cases calling
    · obtain ⟨_, same⟩ := Moment.exists_of_printing? (Option.mem_toList.mp printing)
      cases same

/-- A run has come to its end exactly when its last record says so. -/
theorem ending_iff_of_emitted {report : Report} {traceCalls : Bool} {n : Nat}
    (left : report.state.log.records.toList = records.toList ++
      (script.emitted settings sink records traceCalls n ++ report.closing)) :
    report.ending = .ok () ↔ report.state.log.records.back? = some .finished := by
  rw [← Array.getLast?_toList, left, ← List.append_assoc]
  cases ended : report.ending with
  | ok =>
      rw [Report.closing, ended]
      exact ⟨fun _ => List.getLast?_concat, fun _ => rfl⟩
  | error fault =>
      have some : script.emitted settings sink records traceCalls n ≠ [] := List.cons_ne_nil _ _
      rw [Report.closing, ended, List.append_nil, List.getLast?_append_of_ne_nil _ some]
      refine ⟨nofun, fun last => ?_⟩
      exact absurd (List.mem_of_getLast? last) (finished_not_mem_emitted traceCalls n)

variable (script settings sink records)

/-- What the tracing of calls makes of a report: nothing changes but that the log has the records of
calls. These stand for the invocations of the traced run. In either log the last record tells
whether the run came to its end. -/
structure SameButCalls (report report' : Report) : Prop where
  ending_eq : report'.ending = report.ending
  heap_eq : report'.state.heap = report.state.heap
  sink_eq : report'.state.sink = report.state.sink
  calls : ∃ added last,
    (script.moment (settings.tracing true) sink { records } last).Ended ∧
    report'.state.log.records.toList = records.toList ++ added ∧
    report.state.log.records.toList = records.toList ++ added.filter (!·.isCalling) ∧
    List.Forall₂ (script.RecordsCall (settings.tracing true) sink { records })
      ((List.range (last + 1)).filter fun n =>
        (script.moment (settings.tracing true) sink { records } n).invokes)
      (added.filter LogRecord.isCalling)
  finished : report.ending = .ok () ↔ report.state.log.records.back? = some .finished
  finished' : report'.ending = .ok () ↔ report'.state.log.records.back? = some .finished

theorem sameButCalls :
    script.SameButCalls settings sink records
      (script.report (script.outcome (settings.tracing false) sink { records }))
      (script.report (script.outcome (settings.tracing true) sink { records })) := by
  obtain ⟨last, origins, reached⟩ :=
    script.exists_moment_eq_ended (settings.tracing false) sink { records }
  have traced := report_tracing reached true
  have untraced := report_tracing reached false
  have isOver := Moment.ended_ended origins
    (script.outcome (settings.tracing false) sink { records })
  rw [← reached] at isOver
  have isOver' : (script.moment (settings.tracing true) sink { records } last).Ended := by
    rw [moment_tracing]
    exact isOver
  generalize script.report (script.outcome (settings.tracing false) sink { records }) = report
    at traced untraced
  have logs (added : List LogRecord) :
      (report.withOutput report.state.sink
          (Log.adding { records } added)).state.log.records.toList =
        records.toList ++ (added ++ report.closing) := by
    change ((Log.adding { records } added).adding report.closing).records.toList = _
    rw [Log.toList_adding, Log.toList_adding, List.append_assoc]
  have log := (congrArg (·.state.log.records.toList) untraced).trans (logs _)
  have closes : report.closing.filter LogRecord.isCalling = [] ∧
      report.closing.filter (!·.isCalling) = report.closing := by
    unfold Report.closing
    cases report.ending <;> exact ⟨rfl, rfl⟩
  rw [traced]
  refine ⟨rfl, rfl, rfl, ⟨_, last, isOver', logs _, ?_, ?_⟩, ending_iff_of_emitted log,
    ending_iff_of_emitted (logs _)⟩
  · rw [List.filter_append, (filter_emitted last).2, closes.2]
    exact log
  · rw [List.filter_append, (filter_emitted last).1, closes.1, List.append_nil]
    exact recordsCalls last

/-- Tracing only observes. With a log that takes every record, a run with the tracing of calls ends
as it does without, with the same objects and the same lines, and its log has besides the same
records one for each invocation that a call makes (`SameButCalls`). Traced or not, a step changes
the sink only by a line, and has given the log the record of this very `print` before, even if the
sink refuses the line then. -/
theorem tracing_only_observes (script : Script) (settings : Settings) (sink : Sink)
    (records : Array LogRecord) :
    RunsAlike (script.SameButCalls settings sink records)
      (script.run (.sink sink) (settings.tracing false) { records })
      (script.run (.sink sink) (settings.tracing true) { records }) ∧
    ∀ traceCalls n,
      let moment := script.moment (settings.tracing traceCalls) sink { records } n
      let next := script.moment (settings.tracing traceCalls) sink { records } (n + 1)
      (moment.line? = none → next.state.sink = moment.state.sink) ∧
      ∀ line, moment.line? = some line → ∃ record, moment.printing? = some record ∧
        next.state.log = moment.state.log.push record ∧
        next.state.sink = (moment.state.sink.write? line).getD moment.state.sink := by
  constructor
  · have limit : (settings.tracing true).effectiveLimit = (settings.tracing false).effectiveLimit :=
      rfl
    exact runsAlike_of_reports limit (script.sameButCalls settings sink records)
  · intro traceCalls n moment next
    have step : next = moment.next (settings.tracing traceCalls) settings.depth :=
      script.moment_succ _ _ _ n
    constructor
    · intro silent
      rw [step]
      exact Moment.sink_next_of_silent _ _ silent
    · intro line offered
      obtain ⟨record, printing, written⟩ := Moment.next_of_line (settings.tracing traceCalls)
        settings.depth offered
      refine ⟨record, printing, ?_⟩
      rw [step, written]
      cases moment.state.sink.write? line <;> exact ⟨rfl, rfl⟩

end Script

end ScriptTree
