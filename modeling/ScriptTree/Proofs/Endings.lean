import ScriptTree.Proofs.FailureLines
import ScriptTree.Proofs.Machine.Printed
import ScriptTree.Proofs.Script.RoundTrip
import ScriptTree.Settings.Decode

/-!
# How a run ends

A run is refused only for a limit that is too large. One that is admitted ends with a value, in a
failure, at an integer that is too long to be shown, or at a sink that is full. The last is for
bounded sinks only. The third comes about exactly when a step has to show a value that holds such an
integer: for `print`, for the message of a failure, or for a log that takes no record without a
message (`Script.ending_digitLimit_iff`). Nothing else keeps a run from ending as the language
speaks of it (`Script.only_failures_leave`).
-/

namespace ScriptTree

/-! ## What a step has to show -/

namespace Action

variable {α β : Type} {state : State}

/-- The action ends because an integer is too long to be shown. -/
def Hides (action : Action α) (state : State) : Prop :=
  ∃ after, action state = .error .digitLimit after

theorem hides_shown {text? : Heap → Option String} (hidden : text? state.heap = none) :
    (shown text?).Hides state := by
  refine ⟨state, ?_⟩
  rw [shown, hidden]

theorem Hides.bind {first : Action β} {next : β → Action α} (hides : first.Hides state) :
    (first >>= next).Hides state := by
  obtain ⟨after, raised⟩ := hides
  refine ⟨after, ?_⟩
  rw [bind_apply, raised]

/-- An action ends so if it goes on so after a first part. -/
theorem Hides.later {first : Action β} {next : β → Action α} {b : β} {between : State}
    (ran : first state = .ok b between) (hides : (next b).Hides between) :
    (first >>= next).Hides state := by
  obtain ⟨after, raised⟩ := hides
  refine ⟨after, ?_⟩
  rw [bind_apply, ran]
  exact raised

theorem hides_mismatch {value : Value} {expected : Expected} {line : Line}
    (long : value.display? state.heap = none) :
    (do let text ← shown fun heap => value.display? heap
        fail (.mismatch text expected) line : Action α).Hides state :=
  (hides_shown long).bind

/-- A strict log refuses a record without a message. -/
theorem hides_log {record : Heap → LogRecord} (strict : state.log.strict = true)
    (hidden : (record state.heap).message? = none) : (log record).Hides state := by
  refine ⟨state, ?_⟩
  simp [log, Log.write?, strict, hidden]

end Action

section Parts

open ScriptTree.Action

variable {state : State}

theorem Builtin.hides_integerOperand {symbol : String} {value : Value} (other : ∀ n, value ≠ .int n)
    (long : value.display? state.heap = none) : (integerOperand symbol value).Hides state := by
  unfold integerOperand
  split
  · exact absurd rfl (other _)
  · exact (hides_shown long).bind

theorem Builtin.hides_run {builtin : Builtin} {values : List Value} {value : Value}
    (shows : builtin.Shows values value) (long : value.display? state.heap = none) :
    (builtin.run values).Hides state := by
  cases shows with
  | print given =>
      have texts : values.mapM (Value.display? state.heap) = none :=
        mapM_eq_none_iff.mpr ⟨value, given, long⟩
      -- a strict log refuses its record before the line is made
      cases logged : log (fun heap => .printing (Value.quotedList? heap values)) state with
      | ok _ between =>
          obtain ⟨log, rfl⟩ := eq_of_log logged
          exact .later logged (hides_shown (Option.map_eq_none_iff.mpr texts)).bind
      | error fault between =>
          obtain rfl : .digitLimit = fault := says_log (fun _ _ => rfl) logged
          exact Hides.bind ⟨between, logged⟩
  | left other => exact .later rfl (hides_integerOperand other long).bind
  | right other => exact .later rfl (.later rfl (hides_integerOperand other long).bind)
  | @incomparable symbol comparison left right _ unordered given =>
      refine .later rfl ?_
      dsimp only
      rw [unordered]
      dsimp only
      cases first : left.display? state.heap with
      | none => exact (hides_shown first).bind
      | some text =>
          have ran : shown (fun heap => left.display? heap) state = .ok text state := by
            rw [shown, first]
          refine .later ran (hides_shown ?_).bind
          rcases List.mem_cons.mp given with rfl | last
          · cases first.symm.trans long
          · exact List.mem_singleton.mp last ▸ long

theorem Frame.hides_resume {frame : Frame} {value refused : Value} {expected : Expected}
    {line : Line} (checks : frame.Checks state.heap value refused expected line)
    (long : refused.display? state.heap = none) : (frame.resume value).Hides state := by
  have function {found : Value}
      (other : ∀ ref, found = .obj ref → state.heap.isFunction ref = false)
      (long : found.display? state.heap = none) : (Eval.function line found).Hides state := by
    unfold Eval.function
    split
    · refine .later rfl ?_
      rw [if_neg (by simp [other _ rfl])]
      exact hides_mismatch long
    · exact hides_mismatch long
  have object {found : Value} (other : ∀ ref, found ≠ .obj ref)
      (long : found.display? state.heap = none) : (Eval.object line found).Hides state := by
    unfold Eval.object
    split
    · exact absurd rfl (other _)
    · exact hides_mismatch long
  cases checks with
  | condition other =>
      refine Hides.bind ?_
      unfold Eval.integer
      split
      · exact absurd rfl (other _)
      · exact hides_mismatch long
  | field other | target other | receiver other => exact (object other long).bind
  | callee other => exact (function other long).bind
  | method other => exact .later rfl (.later rfl (function other long).bind)

end Parts

namespace Moment

variable {moment : Moment} {settings : Settings}

/-- A value that the step after the moment has to show: an argument of a call that is logged, what
a function of the language has to show, or what a node refuses. -/
inductive Shows (settings : Settings) : Moment → Value → Prop
  | logged {line : Line} {callee scope : Ref} {receiver value : Value} {done : List Value}
      {frames : List Frame} {state : State} {origins : Ref → Place}
      (traced : settings.traceCalls = true) (strict : state.log.strict = true)
      (given : value ∈ done) :
    Shows settings
      ⟨.task (.arguments line callee receiver done [] scope), frames, state, origins⟩ value
  | builtin {callee : Ref} {receiver value : Value} {values : List Value} {builtin : Builtin}
      {frames : List Frame} {state : State} {origins : Ref → Place}
      (body : (state.heap.get? callee).bind Object.body = some (.builtin builtin))
      (shows : builtin.Shows values value) :
    Shows settings ⟨.task (.invoke callee receiver values), frames, state, origins⟩ value
  | refused {value refused : Value} {expected : Expected} {line : Line} {frame : Frame}
      {frames : List Frame} {state : State} {origins : Ref → Place}
      (checks : frame.Checks state.heap value refused expected line) :
    Shows settings ⟨.answer (.value value), frame :: frames, state, origins⟩ refused

/-- What a step shows is a value of the run. -/
theorem Shows.plain {value : Value} (shows : moment.Shows settings value) (plain : moment.Plain) :
    value.Plain moment.state.heap := by
  cases shows with
  | logged _ _ given =>
      exact plain.values _ (List.mem_append_left _ (List.mem_cons_of_mem _
        (List.mem_cons_of_mem _ given)))
  | @builtin _ _ _ values _ _ _ _ _ shows =>
      have given : value ∈ values := by
        cases shows with
        | print given => exact given
        | left | right => simp
        | incomparable _ given => exact given
      exact plain.values _ (List.mem_append_left _ (List.mem_cons_of_mem _
        (List.mem_cons_of_mem _ given)))
  | refused checks =>
      cases checks with
      | method => exact plain.heap.lookup _ _
      | _ => exact plain.values _ List.mem_cons_self

/-- A step says that an integer is too long only of a value that it has to show. -/
theorem Raises.exists_shows (raises : moment.Raises settings .digitLimit)
    (functions : moment.CallsFunctions) :
    ∃ value, moment.Shows settings value ∧ value.display? moment.state.heap = none := by
  cases raises with
  | refuse refuses =>
      cases refuses with
      | unlogged traced strict given long => exact ⟨_, .logged traced strict given, long⟩
      | notFunction body => exact absurd body functions.body_ne_none
      | builtin body raises =>
          cases raises with
          | hidden shows long => exact ⟨_, .builtin body shows, long⟩
  | reject rejects =>
      cases rejects with
      | mismatch checks fails =>
          cases fails with
          | hidden long => exact ⟨_, .refused checks, long⟩

/-- A step says that the sink is full only if the sink refuses a line. -/
theorem Raises.exists_write?_eq_none (raises : moment.Raises settings .sinkClosed) :
    ∃ line, moment.state.sink.write? line = none := by
  cases raises with
  | refuse refuses =>
      cases refuses with
      | notFunction _ fails => cases fails
      | builtin _ raises =>
          cases raises with
          | closed full => exact ⟨_, full⟩
  | reject rejects =>
      cases rejects with
      | mismatch _ fails => cases fails

theorem focus_after_of_hides {action : Action Next} {frames : List Frame}
    (hides : action.Hides moment.state) :
    (moment.after frames action).focus = .raise .digitLimit := by
  obtain ⟨state, raised⟩ := hides
  rw [after, raised]

/-- A step raises that an integer is too long if a value that it has to show has no text. -/
theorem Shows.focus_next {value : Value} (shows : moment.Shows settings value)
    (long : value.display? moment.state.heap = none) (limit : Nat) :
    (moment.next settings limit).focus = .raise .digitLimit := by
  cases shows with
  | @logged line callee scope receiver _ done frames state origins traced strict given =>
      refine focus_after_of_hides ?_
      have hidden : Value.quotedList? state.heap done = none :=
        Value.quotedList?_eq_none_iff.mpr ⟨value, given, long⟩
      rw [Task.begin, if_pos traced]
      exact (Action.hides_log strict (by rw [LogRecord.message?, hidden]; rfl)).bind
  | @builtin callee receiver _ values builtin frames state origins body shows =>
      refine focus_after_of_hides (.later rfl ?_)
      change (Task.invoked (origins callee) callee receiver values
        ((state.heap.get? callee).bind Object.body)).Hides state
      rw [body]
      exact (Builtin.hides_run shows long).bind
  | refused checks => exact focus_after_of_hides (Frame.hides_resume checks long)

end Moment

/-! ## How a run ends -/

namespace Script

variable {script : Script} {settings : Settings} {sink : Sink} {log : Log}

/-- A fault that is under way and is no failure is what the run reports. -/
theorem ending_of_raise {report : Report} {fault : Fault} {n : Nat}
    (ran : script.run (.sink sink) settings log = .ok report)
    (raised : (script.moment settings sink log n).focus = .raise fault)
    (other : fault.isFailure = false) : report.ending = .error fault.reported := by
  have still {m : Nat} (later : n ≤ m) :
      (script.moment settings sink log m).focus = .raise fault := by
    refine holds_from (P := fun moment => moment.focus = .raise fault) ?_ later raised
    intro before after move raised
    cases move with
    | @unwind _ frame =>
        cases raised
        exact congrArg _ (frame.failed_of_not other)
    | rest => exact raised
    | _ => cases raised
  obtain ⟨last, ended, reported, -⟩ := exists_moment_of_run ran
  have focus : (script.moment settings sink log last).focus = .raise fault := by
    rcases Nat.le_total n last with later | earlier
    · exact still later
    · have atEnd : (script.moment settings sink log last).Ended := by
        refine ⟨ended, fun task evaluates => ?_⟩
        rw [evaluates] at reported
        cases reported
      exact moment_of_ended atEnd earlier ▸ raised
  rw [focus] at reported
  exact (Option.some.inj reported).symm

variable (script settings sink log)

/-- A step of the run has to show a value that holds an integer that is too long. -/
def ShowsTooLong : Prop :=
  ∃ n value written, (script.moment settings sink log n).Shows settings value ∧
    value.Writes (script.moment settings sink log n).state.heap written ∧
    Decimal.fits written = false

variable {script settings sink log}

/-- A run that ends in a fault of its own, and in no failure, has raised it. -/
theorem exists_raises_of_ending {report : Report} {fault : Fault}
    (ran : script.run (.sink sink) settings log = .ok report)
    (ending : report.ending = .error fault) (other : fault.isFailure = false) :
    ∃ n, (script.moment settings sink log n).Raises settings fault := by
  rcases ending_of_run ran with none | ⟨n, result, leaves, outside, stray⟩ |
    ⟨n, given, raises, raised, passed⟩
  · cases ending.symm.trans none
  · cases ending.symm.trans stray
    cases other
  · have same : fault = _ := Except.error.inj (ending.symm.trans passed)
    cases given with
    | failure failure =>
        rw [Fault.through_failure] at same
        subst same
        cases other
    | tooDeep =>
        rw [Fault.through_of_not rfl] at same
        subst same
        cases other
    | digitLimit | sinkClosed =>
        rw [Fault.through_of_not rfl] at same
        exact ⟨n, same ▸ raises⟩

/-- A run ends at an integer that is too long exactly when a step has to show one. -/
theorem ending_digitLimit_iff {report : Report}
    (ran : script.run (.sink sink) settings log = .ok report) :
    report.ending = .error .digitLimit ↔ script.ShowsTooLong settings sink log := by
  constructor
  · intro ending
    obtain ⟨n, raises⟩ := exists_raises_of_ending ran ending rfl
    obtain ⟨value, shows, hidden⟩ := raises.exists_shows (callsFunctions_moment n)
    have plain := script.plain_moment settings sink log n
    have there := (shows.plain plain).there plain.heap
    obtain ⟨written, writes, unfit⟩ := (Value.display?_eq_none_iff plain.heap there).mp hidden
    exact ⟨n, value, written, shows, writes, unfit⟩
  · rintro ⟨n, value, written, shows, writes, unfit⟩
    have plain := script.plain_moment settings sink log n
    have there := (shows.plain plain).there plain.heap
    have hidden := (Value.display?_eq_none_iff plain.heap there).mpr ⟨written, writes, unfit⟩
    have raised := shows.focus_next hidden settings.depth
    rw [← moment_succ] at raised
    exact ending_of_raise ran raised rfl

/-- A run ends at a full sink only if the sink is bounded. -/
theorem exists_bounded_of_ending {report : Report}
    (ran : script.run (.sink sink) settings log = .ok report)
    (ending : report.ending = .error .sinkClosed) :
    ∃ capacity written, sink = .bounded capacity written := by
  obtain ⟨n, raises⟩ := exists_raises_of_ending ran ending rfl
  obtain ⟨line, full⟩ := raises.exists_write?_eq_none
  obtain ⟨capacity, written, bounded⟩ := Sink.exists_bounded_of_write?_eq_none full
  have grows := script.grows_moment settings sink log n
  rw [bounded] at grows
  exact ⟨capacity, grows.exists_bounded⟩

/-- Too deep nesting is reported as a failure. -/
theorem ending_ne_tooDeep {report : Report}
    (ran : script.run (.sink sink) settings log = .ok report) :
    report.ending ≠ .error .tooDeep := by
  intro ending
  unfold run at ran
  dsimp only at ran
  split at ran
  · split at ran
    · cases ran
      cases ending
    · rename_i fault state _
      cases ran
      cases fault <;> cases ending
  · cases ran

/-- A run is admitted exactly when its limit is not too large. -/
theorem exists_report_iff :
    (∃ report, script.run (.sink sink) settings log = .ok report) ↔
      settings.effectiveLimit ≤ Settings.greatestLimit := by
  unfold run
  dsimp only
  split
  · refine ⟨fun _ => ‹_›, fun _ => ?_⟩
    split <;> exact ⟨_, rfl⟩
  · exact ⟨nofun, fun admitted => absurd admitted ‹_›⟩

/-- A run on a sink that takes every line gives a value or ends in a failure, exactly when its limit
is not too large and no step has to show an integer that is too long. -/
theorem only_failures_leave (script : Script) (settings : Settings) (sink : Sink) (log : Log)
    (takes : ∀ capacity written, sink ≠ .bounded capacity written) :
    (∃ report, script.run (.sink sink) settings log = .ok report ∧
        (report.ending = .ok () ∨ ∃ failure, report.ending = .error (.failure failure))) ↔
      settings.effectiveLimit ≤ Settings.greatestLimit ∧
        ¬ script.ShowsTooLong settings sink log := by
  constructor
  · rintro ⟨report, ran, ended⟩
    refine ⟨exists_report_iff.mp ⟨report, ran⟩, fun long => ?_⟩
    have ending := (ending_digitLimit_iff ran).mpr long
    rcases ended with value | ⟨failure, failed⟩
    · cases ending.symm.trans value
    · cases ending.symm.trans failed
  · rintro ⟨admitted, short⟩
    obtain ⟨report, ran⟩ := exists_report_iff.mpr admitted
    refine ⟨report, ran, ?_⟩
    cases ending : report.ending with
    | ok => exact .inl rfl
    | error fault =>
        cases fault with
        | failure failure => exact .inr ⟨failure, rfl⟩
        | digitLimit => exact absurd ((ending_digitLimit_iff ran).mp ending) short
        | sinkClosed =>
            obtain ⟨capacity, written, bounded⟩ := exists_bounded_of_ending ran ending
            exact absurd bounded (takes capacity written)
        | tooDeep => exact absurd ending (ending_ne_tooDeep ran)

/-- Multiplies the least integer of as many digits as can be written by ten, and prints it. -/
def tooLong : Script :=
  ⟨.mk none [.call none (.var none "print")
    [.call none (.var none "*")
      [.literal none (.int (Int.ofNat (Nat.pow 10 4299))), .literal none (.int 10)]]]⟩

theorem ending_tooLong {report : Report}
    (ran : tooLong.run (.sink .empty) .standard {} = .ok report) :
    report.ending = .error .digitLimit := by
  have ended : (tooLong.run (.sink .empty) .standard {}).toOption.any
      (·.ending matches .error .digitLimit) = true := by
    decide +kernel
  rw [ran] at ended
  change (report.ending matches .error .digitLimit) = true at ended
  split at ended
  · assumption
  · cases ended

theorem documented_tooLong : tooLong.Documented := by
  have unknown : Line.Documented none := nofun
  have literal {n : Int} (fits : Decimal.fits n = true) : (Expr.literal none (.int n)).Documented :=
    .literal unknown fits
  refine .block unknown (List.forall_mem_singleton.mpr ?_)
  refine .call unknown (.var unknown) (List.forall_mem_singleton.mpr ?_)
  refine .call unknown (.var unknown) ?_
  simp only [List.forall_mem_cons]
  exact ⟨literal (by decide +kernel), literal (by decide +kernel), nofun⟩

/-- A program and options that are accepted, and runs that neither give a value nor end in a
failure. -/
theorem accepted_other_endings :
    ofText tooLong.toText = .accepted tooLong ∧
      (∃ report, tooLong.run (.sink .empty) .standard {} = .ok report ∧
        report.ending = .error .digitLimit) ∧
      Settings.ofMembers [("recursion_limit", .int 2147483648)] =
        .accepted { recursionLimit := 2147483648 } ∧
      Script.run ⟨{}⟩ (.sink .empty) { recursionLimit := 2147483648 } {} =
        .error .limitTooLarge := by
  have shallow : tooLong.toJson.depth ≤ Json.Limits.standard.depth := by decide +kernel
  have accepted := ofText_toText_eq documented_tooLong
  rw [if_pos shallow] at accepted
  have admitted : Settings.standard.effectiveLimit ≤ Settings.greatestLimit := by decide
  obtain ⟨report, ran⟩ := exists_report_iff.mpr admitted
  exact ⟨accepted, ⟨report, ran, ending_tooLong ran⟩, rfl, rfl⟩

theorem only_failures_leave_tooLong :
    (∀ capacity written, Sink.empty ≠ .bounded capacity written) ∧
      tooLong.ShowsTooLong .standard .empty {} := by
  have takes : ∀ capacity written, Sink.empty ≠ .bounded capacity written := nofun
  refine ⟨takes, ?_⟩
  have admitted : Settings.standard.effectiveLimit ≤ Settings.greatestLimit := by decide
  by_contra short
  obtain ⟨report, ran, ended⟩ :=
    (only_failures_leave tooLong .standard .empty {} takes).mpr ⟨admitted, short⟩
  rw [ending_tooLong ran] at ended
  rcases ended with value | ⟨failure, failed⟩
  · cases value
  · cases failed

end Script

end ScriptTree
