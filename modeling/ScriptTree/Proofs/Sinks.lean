import ScriptTree.Proofs.FailureLines
import ScriptTree.Proofs.Machine.Output

/-!
# A run and its sink

No step looks at the sink. So the runs of one program with two sinks go through the same moments,
up to what the sinks hold, as long as both take the lines (`Script.moment_of_taken`); where one of
them refuses a line, its run ends there, with the fault of the sink and the objects of that moment
(`Script.outcome_of_refused`).

A sink that keeps lines takes all of them, and so does a stream; a bounded sink takes as many as it
has room for (`Script.sink_unobserved`).
-/

namespace ScriptTree

/-- The report with another sink. -/
def Report.withSink (report : Report) (sink : Sink) : Report :=
  { report with state := { report.state with sink } }

/-! ## What sinks make of lines -/

namespace Sink

/-- A stream takes all lines, each with a line feed at its end. -/
theorem foldlM_stream (lines : List String) (before : String) :
    lines.foldlM write? (.stream before) =
      some (.stream (before ++ String.join (lines.map (· ++ "\n")))) := by
  induction lines generalizing before with
  | nil => simp
  | cons line lines ih =>
      have later := ih (before ++ line ++ "\n")
      rw [List.foldlM_cons]
      change lines.foldlM write? (.stream (before ++ line ++ "\n")) = _
      rw [later, List.map_cons, String.join_cons]
      simp only [String.append_assoc]

/-- A bounded sink takes the lines that it has room for. -/
theorem foldlM_bounded {capacity : Nat} (lines : List String) (before : Array String)
    (room : before.size ≤ capacity) :
    lines.foldlM write? (.bounded capacity before) =
      if before.size + lines.length ≤ capacity then
        some (.bounded capacity (before ++ lines.toArray))
      else none := by
  induction lines generalizing before with
  | nil => simp [room]
  | cons line lines ih =>
      rw [List.foldlM_cons, List.length_cons, write?]
      by_cases full : capacity ≤ before.size
      · have tooMany : ¬ before.size + (lines.length + 1) ≤ capacity := by omega
        rw [if_pos full, if_neg tooMany]
        rfl
      · rw [if_neg full]
        change lines.foldlM write? (.bounded capacity (before.push line)) = _
        have size : (before.push line).size = before.size + 1 := Array.size_push line
        have fits : (before.push line).size ≤ capacity := by omega
        rw [ih _ fits, size, Nat.add_right_comm, Nat.add_assoc]
        simp

/-- A bounded sink refuses a line only when it holds as many as it has room for. -/
theorem eq_of_full {capacity : Nat} {lines : List String} {full : Sink} {line : String}
    (taken : lines.foldlM write? (.bounded capacity #[]) = some full)
    (refused : full.write? line = none) :
    full = .bounded capacity lines.toArray ∧ lines.length = capacity := by
  rw [foldlM_bounded _ _ (Nat.zero_le _)] at taken
  split at taken
  · rename_i fits
    cases taken
    have noRoom : capacity ≤ (#[] ++ lines.toArray).size := by
      by_contra room
      rw [write?, if_neg room] at refused
      cases refused
    simp only [Array.empty_append, List.size_toArray] at noRoom fits ⊢
    exact ⟨trivial, by omega⟩
  · cases taken

end Sink

/-! ## Single steps -/

namespace Moment

variable {moment : Moment} (settings : Settings) (limit : Nat)

/-- A step that has a line for the sink goes on in the same way with every sink that takes it. -/
theorem next_withSink_of_taken {line : String} (offered : moment.line? = some line)
    {written sink after : Sink} (taken : moment.state.sink.write? line = some written)
    (taken' : sink.write? line = some after) :
    (moment.withSink sink).next settings limit = (moment.next settings limit).withSink after := by
  have offered' : (moment.withSink sink).line? = some line := offered
  obtain ⟨record, printing, step⟩ := next_of_line settings limit offered
  obtain ⟨record', printing', step'⟩ := next_of_line settings limit offered'
  have same : record = record' := Option.some.inj (printing.symm.trans printing')
  have held : (moment.withSink sink).state.sink = sink := rfl
  rw [taken] at step
  rw [held, taken'] at step'
  rw [step, step', same]
  rfl

/-- A step that has a line for the sink raises the fault of the sink if this takes no more. -/
theorem next_withSink_of_refused {line : String} (offered : moment.line? = some line) {sink : Sink}
    (refused : sink.write? line = none) :
    ((moment.withSink sink).next settings limit).focus = .raise .sinkClosed ∧
      ((moment.withSink sink).next settings limit).state.heap = moment.state.heap ∧
      ((moment.withSink sink).next settings limit).state.sink = sink := by
  have offered' : (moment.withSink sink).line? = some line := offered
  obtain ⟨record, printing, step⟩ := next_of_line settings limit offered'
  have held : (moment.withSink sink).state.sink = sink := rfl
  rw [held, refused] at step
  rw [step]
  exact ⟨rfl, rfl, rfl⟩

end Moment

/-! ## Whole runs -/

namespace Script

variable (script : Script) (settings : Settings) (log : Log)

/-- The lines that a run prints in its first steps, if its sink takes all. -/
def printed (n : Nat) : List String :=
  (List.range n).filterMap fun k => (script.moment settings .empty log k).line?

variable {script settings log}

theorem printed_succ (n : Nat) :
    script.printed settings log (n + 1) =
      script.printed settings log n ++ (script.moment settings .empty log n).line?.toList := by
  rw [printed, List.range_succ, List.filterMap_append]
  cases offered : (script.moment settings .empty log n).line? <;>
    simp [printed, offered]

/-- A sink that keeps lines holds the lines that were printed. -/
theorem sink_moment (n : Nat) : (script.moment settings .empty log n).state.sink =
    .lines (script.printed settings log n).toArray := by
  induction n with
  | zero => rfl
  | succ n ih =>
      rw [moment_succ, printed_succ]
      cases offered : (script.moment settings .empty log n).line? with
      | none =>
          rw [Moment.sink_next_of_silent settings settings.depth offered, ih, Option.toList_none,
            List.append_nil]
      | some line =>
          obtain ⟨record, -, step⟩ := Moment.next_of_line settings settings.depth offered
          rw [step, ih]
          change Sink.lines ((script.printed settings log n).toArray.push line) = _
          simp

/-- Two runs go through the same moments, up to what the sinks hold, as long as both take the lines
that are printed. -/
theorem moment_of_taken {n : Nat} {sink after : Sink}
    (taken : (script.printed settings log n).foldlM Sink.write? sink = some after) :
    script.moment settings sink log n =
      (script.moment settings .empty log n).withSink after := by
  induction n generalizing after with
  | zero =>
      cases taken
      rfl
  | succ n ih =>
      rw [printed_succ, List.foldlM_append] at taken
      obtain ⟨between, before, last⟩ := Option.bind_eq_some_iff.mp taken
      rw [moment_succ, moment_succ, ih before]
      cases offered : (script.moment settings .empty log n).line? with
      | none =>
          rw [offered] at last
          cases last
          exact Moment.next_withSink settings settings.depth offered after
      | some line =>
          have taken' : between.write? line = some after := by
            rw [offered] at last
            simpa using last
          have listed : (script.moment settings .empty log n).state.sink.write? line =
              some (.lines ((script.printed settings log n).toArray.push line)) := by
            rw [sink_moment]
            rfl
          exact Moment.next_withSink_of_taken settings settings.depth offered listed taken'

/-- If a sink does not take all the lines of some steps, then there is a first one that it
refuses. -/
theorem exists_refused {n : Nat} {sink : Sink}
    (refusedSome : (script.printed settings log n).foldlM Sink.write? sink = none) :
    ∃ k < n, ∃ full line,
      (script.printed settings log k).foldlM Sink.write? sink = some full ∧
      (script.moment settings .empty log k).line? = some line ∧ full.write? line = none := by
  induction n with
  | zero => cases refusedSome
  | succ n ih =>
      cases before : (script.printed settings log n).foldlM Sink.write? sink with
      | none =>
          obtain ⟨k, earlier, found⟩ := ih before
          exact ⟨k, by omega, found⟩
      | some full =>
          rw [printed_succ, List.foldlM_append, before] at refusedSome
          cases offered : (script.moment settings .empty log n).line? with
          | none =>
              rw [offered] at refusedSome
              cases refusedSome
          | some line =>
              rw [offered] at refusedSome
              refine ⟨n, by omega, full, line, before, offered, ?_⟩
              simpa using refusedSome

/-- Where a sink refuses a line its run ends, with the fault of the sink and the objects of that
moment. -/
theorem outcome_of_refused {n : Nat} {sink full : Sink} {line : String}
    (taken : (script.printed settings log n).foldlM Sink.write? sink = some full)
    (offered : (script.moment settings .empty log n).line? = some line)
    (refused : full.write? line = none) :
    ∃ after, script.outcome settings sink log = .error .sinkClosed after ∧
      after.heap = (script.moment settings .empty log n).state.heap ∧ after.sink = full := by
  obtain ⟨raised, heap, kept⟩ := Moment.next_withSink_of_refused settings settings.depth
    offered refused
  rw [← moment_of_taken taken, ← moment_succ] at raised heap kept
  exact ⟨_, outcome_of_raise rfl raised, heap, kept⟩

/-- A sink that takes all the lines of a run makes no difference but that it holds them. -/
theorem report_of_taken {n : Nat} {origins : Ref → Place} {sink after : Sink}
    (reached : script.moment settings .empty log n =
      Moment.ended [] origins (script.outcome settings .empty log))
    (taken : (script.printed settings log n).foldlM Sink.write? sink = some after) :
    script.report (script.outcome settings sink log) =
      (script.report (script.outcome settings .empty log)).withSink after := by
  rw [report_of_withOutput reached (moment_of_taken taken), Report.withOutput,
    ← log_of_ended reached]
  rfl

theorem printed_prefix {m n : Nat} (later : m ≤ n) :
    script.printed settings log m <+: script.printed settings log n := by
  induction later with
  | refl => exact List.prefix_refl _
  | step _ ih =>
      rw [printed_succ]
      exact ih.trans (List.prefix_append _ _)

variable (script settings log)

/-- A run whose sink had room for so many lines and was offered more: it ends with the fault of the
sink, which holds the first lines, and with the objects that the run with a list has when it writes
the next line. -/
structure CutOff (capacity : Nat) (lines : List String) (report : Report) : Prop where
  ending : report.ending = .error .sinkClosed
  sink : report.state.sink = .bounded capacity (lines.take capacity).toArray
  heap : ∃ n, (script.moment settings .empty log n).line? = lines[capacity]? ∧
    (script.moment settings .empty log n).state.sink = .lines (lines.take capacity).toArray ∧
    (script.moment settings .empty log (n + 1)).state.sink =
      .lines (lines.take (capacity + 1)).toArray ∧
    report.state.heap = (script.moment settings .empty log n).state.heap

variable {script settings log}

/-- A bounded sink that is offered more lines than it has room for cuts the run off. -/
theorem cutOff_of_lt {n capacity : Nat}
    (longer : capacity < (script.printed settings log n).length) :
    script.CutOff settings log capacity (script.printed settings log n)
      (script.report (script.outcome settings (.bounded capacity #[]) log)) := by
  have refused : (script.printed settings log n).foldlM Sink.write? (.bounded capacity #[]) =
      none := by
    rw [Sink.foldlM_bounded _ _ (Nat.zero_le _), if_neg]
    simpa using longer
  obtain ⟨k, earlier, full, line, taken, offered, refuses⟩ := exists_refused refused
  obtain ⟨rfl, rfl⟩ := Sink.eq_of_full taken refuses
  have here : script.printed settings log k <+: script.printed settings log n :=
    printed_prefix (Nat.le_of_lt earlier)
  have next : script.printed settings log (k + 1) <+: script.printed settings log n :=
    printed_prefix (Nat.succ_le_of_lt earlier)
  have one : script.printed settings log (k + 1) = script.printed settings log k ++ [line] := by
    rw [printed_succ, offered, Option.toList_some]
  have first := List.prefix_iff_eq_take.mp here
  have firstAndNext := List.prefix_iff_eq_take.mp next
  rw [one, List.length_append, List.length_singleton, ← one] at firstAndNext
  obtain ⟨after, failed, heap, sink⟩ := outcome_of_refused taken offered refuses
  rw [failed]
  refine ⟨rfl, ?_, k, ?_, ?_, ?_, heap⟩
  · rw [← first]
    exact sink
  · obtain ⟨rest, whole⟩ := next
    rw [← whole, one, offered]
    simp
  · rw [← first]
    exact sink_moment k
  · rw [← firstAndNext]
    exact sink_moment (k + 1)

/-- A run does not observe its sink. Whatever a program prints into a list, with a stream it ends in
the same way, with the same objects and the same log, and the stream takes the text of these lines,
each with a line feed at its end. With a sink that has room for `capacity` lines nothing is
different either if there are no more lines; otherwise the run is cut off (`CutOff`). -/
theorem sink_unobserved (script : Script) (settings : Settings) (log : Log) :
    (∀ earlier, RunsAlike
      (fun report report' => ∃ lines : List String,
        report.state.sink = .lines lines.toArray ∧
        report' = report.withSink (.stream (earlier ++ String.join (lines.map (· ++ "\n")))))
      (script.run (.sink .empty) settings log)
      (script.run (.sink (.stream earlier)) settings log)) ∧
    ∀ capacity, RunsAlike
      (fun report report' => ∃ lines : List String,
        report.state.sink = .lines lines.toArray ∧
        (lines.length ≤ capacity →
          report' = report.withSink (.bounded capacity lines.toArray)) ∧
        (capacity < lines.length → script.CutOff settings log capacity lines report'))
      (script.run (.sink .empty) settings log)
      (script.run (.sink (.bounded capacity #[])) settings log) := by
  obtain ⟨last, origins, reached⟩ := script.exists_moment_eq_ended settings .empty log
  have listed : (script.report (script.outcome settings .empty log)).state.sink =
      .lines (script.printed settings log last).toArray := by
    rw [(state_of_ended reached).2, sink_moment]
  constructor
  · intro earlier
    apply runsAlike_of_reports rfl
    refine ⟨script.printed settings log last, listed, ?_⟩
    exact report_of_taken reached (Sink.foldlM_stream _ _)
  · intro capacity
    apply runsAlike_of_reports rfl
    refine ⟨script.printed settings log last, listed, fun fits => ?_, cutOff_of_lt⟩
    apply report_of_taken reached
    rw [Sink.foldlM_bounded _ _ (Nat.zero_le _), if_pos]
    · simp
    · simpa using fits

end Script

end ScriptTree
