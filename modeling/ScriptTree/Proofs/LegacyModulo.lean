import ScriptTree.Proofs.HeapGrowth
import ScriptTree.Proofs.Machine.Disguise
import ScriptTree.Proofs.Report

/-!
# What the legacy modulo changes

Whether `%` multiplies or takes a remainder is decided when the objects of a run are made, by what
one of them does (`Heap.modulo`). That object is a value like all others: a program may bind it to
other names, give it fields, show it or compare it, and none of this tells what it does. Only its
invocation does, and only with two integers, since it refuses all other arguments before it
computes anything (`Builtin.run_arithmetic_unfit`).

So making the object compute something else is a disguise of the state (`Disguise.modulo`), and the
two runs of a program go through the same moments, up to this disguise, until the first at which
the object is invoked with two integers (`Script.modulo_unnoticed`).
-/

namespace ScriptTree

open ScriptTree.Action

/-! ## The objects of the other run -/

namespace Heap

/-- The function that the root scope binds to `%` at the start. -/
def modulo : Ref := 6

/-- The objects, with that function computing something else. -/
def withModulo (operation : Arithmetic) (heap : Heap) : Heap :=
  ⟨heap.objects.modify modulo fun object =>
    { object with body := some (.builtin (.arithmetic "%" operation)) }⟩

/-- The function is there, and computes something. -/
def HasModulo (heap : Heap) : Prop :=
  ∃ operation, (heap.get? modulo).bind Object.body = some (.builtin (.arithmetic "%" operation))

variable {heap heap' : Heap} (operation : Arithmetic)

theorem ext_get? (same : ∀ ref, heap.get? ref = heap'.get? ref) : heap = heap' := by
  obtain ⟨objects⟩ := heap
  obtain ⟨objects'⟩ := heap'
  exact congrArg mk (Array.ext_getElem? same)

theorem get?_withModulo (heap : Heap) (ref : Ref) :
    (heap.withModulo operation).get? ref =
      if modulo = ref then
        (heap.get? ref).map fun object =>
          { object with body := some (.builtin (.arithmetic "%" operation)) }
      else heap.get? ref := by
  simp [get?, withModulo, Array.getElem?_modify]

/-- What is only about whether an object can be invoked, and not about what that does, is the
same. -/
theorem view_get?_withModulo {α : Type} (has : heap.HasModulo) (view : Option Object → α)
    (blind : ∀ (object : Object) body, object.isFunction = true →
      view (some { object with body := some body }) = view (some object)) (ref : Ref) :
    view ((heap.withModulo operation).get? ref) = view (heap.get? ref) := by
  rw [get?_withModulo]
  split
  · rename_i same
    subst same
    obtain ⟨own, has⟩ := has
    obtain ⟨object, found, body⟩ := Option.bind_eq_some_iff.mp has
    have function : object.isFunction = true := by rw [Object.isFunction, body, Option.isSome_some]
    rw [found]
    exact blind object _ function
  · rfl

theorem size_withModulo (heap : Heap) : (heap.withModulo operation).size = heap.size := by
  simp [size, withModulo]

theorem chainUpTo_withModulo (has : heap.HasModulo) (count : Nat) (ref : Ref) :
    (heap.withModulo operation).chainUpTo count ref = heap.chainUpTo count ref := by
  induction count generalizing ref with
  | zero => rfl
  | succ count ih =>
      have parent : ((heap.withModulo operation).get? ref).map Object.parent =
          (heap.get? ref).map Object.parent :=
        view_get?_withModulo operation has (fun found => found.map Object.parent)
          (fun _ _ _ => rfl) ref
      rw [chainUpTo, chainUpTo]
      cases found : heap.get? ref with
      | none =>
          rw [found] at parent
          rw [Option.map_eq_none_iff.mp parent]
      | some object =>
          rw [found] at parent
          obtain ⟨object', found', same⟩ := Option.map_eq_some_iff.mp parent
          rw [found']
          dsimp only
          rw [same]
          cases object.parent with
          | none => rfl
          | some parent => exact congrArg (ref :: ·) (ih parent)

theorem lookup_withModulo (has : heap.HasModulo) (ref : Ref) (key : String) :
    (heap.withModulo operation).lookup ref key = heap.lookup ref key := by
  have fields (link : Ref) : (heap.withModulo operation).fields link = heap.fields link :=
    view_get?_withModulo operation has (fun found => (found.map Object.fields).getD [])
      (fun _ _ _ => rfl) link
  rw [lookup, lookup, find?, find?, chain, chain, size_withModulo, chainUpTo_withModulo _ has]
  simp only [fields]

theorem isFunction_withModulo (has : heap.HasModulo) (ref : Ref) :
    (heap.withModulo operation).isFunction ref = heap.isFunction ref :=
  view_get?_withModulo operation has (fun found => found.any Object.isFunction)
    (fun _ _ function => function.symm) ref

theorem HasModulo.grows (has : heap.HasModulo) (grows : heap.Grows heap') : heap'.HasModulo := by
  obtain ⟨operation, body⟩ := has
  exact ⟨operation, grows.body body⟩

theorem HasModulo.lt_size (has : heap.HasModulo) : modulo < heap.size := by
  obtain ⟨operation, has⟩ := has
  obtain ⟨object, found, -⟩ := Option.bind_eq_some_iff.mp has
  exact lt_size_of_get? found

theorem withModulo_add (has : heap.HasModulo) (object : Object) :
    (heap.add object).withModulo operation = (heap.withModulo operation).add object := by
  refine ext_get? fun ref => ?_
  rw [get?_withModulo, get?_add, get?_add, size_withModulo, get?_withModulo]
  by_cases new : ref = heap.size
  · have other : modulo ≠ ref := new ▸ Nat.ne_of_lt has.lt_size
    rw [if_pos new, if_pos new, if_neg other]
  · rw [if_neg new, if_neg new]

theorem withModulo_register (heap : Heap) (ref : Ref) (key : String) (value : Value) :
    (heap.register ref key value).withModulo operation =
      (heap.withModulo operation).register ref key value := by
  refine ext_get? fun other => ?_
  rw [get?_withModulo, get?_register, get?_register, get?_withModulo]
  by_cases first : modulo = other
  · by_cases second : ref = other
    · rw [if_pos first, if_pos second, if_pos second, if_pos first, Option.map_map, Option.map_map]
      rfl
    · rw [if_neg second, if_neg second]
  · rw [if_neg first, if_neg first]

end Heap

/-! ## How values are shown -/

namespace Value

variable {heap : Heap} (operation : Arithmetic)

theorem nested?_withModulo (has : heap.HasModulo) (value : Value) :
    value.nested? (heap.withModulo operation) = value.nested? heap := by
  cases value with
  | obj ref =>
      refine Heap.view_get?_withModulo operation has (fun found => found.map Object.nestedText)
        (fun object body function => ?_) ref
      rw [Option.map_some, Option.map_some, Object.nestedText, Object.nestedText, if_pos function]
      rfl
  | flag b => cases b <;> rfl
  | _ => rfl

theorem display?_withModulo (has : heap.HasModulo) (value : Value) :
    value.display? (heap.withModulo operation) = value.display? heap := by
  have objects : object? (heap.withModulo operation) = object? heap := by
    funext object
    rw [object?, object?, bindings?, bindings?]
    simp only [nested?_withModulo operation has]
  cases value with
  | obj ref =>
      rw [display?, display?, objects]
      refine Heap.view_get?_withModulo operation has (fun found => found.bind (object? heap))
        (fun object body function => ?_) ref
      rw [Option.bind_some, Option.bind_some, object?, object?, if_pos function]
      rfl
  | flag b => cases b <;> rfl
  | _ => rfl

theorem quotedList?_withModulo (has : heap.HasModulo) (values : List Value) :
    quotedList? (heap.withModulo operation) values = quotedList? heap values := by
  have quoted : quoted? (heap.withModulo operation) = quoted? heap := by
    funext value
    cases value with
    | str s => rfl
    | _ => exact display?_withModulo operation has _
  rw [quotedList?, quotedList?, quoted]

end Value

/-! ## The disguise -/

/-- A state, with the function that is first bound to `%` computing something else. -/
def State.withModulo (operation : Arithmetic) (state : State) : State :=
  { state with heap := state.heap.withModulo operation }

/-- What a function computes is seen by its invocation only. -/
def Disguise.modulo (operation : Arithmetic) : Disguise where
  allowed state := state.heap.HasModulo
  apply state := state.withModulo operation
  size _ := Heap.size_withModulo operation _
  lookup has ref key := Heap.lookup_withModulo operation has ref key
  isFunction has ref := Heap.isFunction_withModulo operation has ref
  display? has value := Value.display?_withModulo operation has value
  add has object :=
    ⟨has.grows (.add _ object),
      congrArg (fun heap => State.mk heap _ _) (Heap.withModulo_add operation has object)⟩
  register has ref key value :=
    ⟨has.grows (.register _ ref key value),
      congrArg (fun heap => State.mk heap _ _) (Heap.withModulo_register operation _ ref key value)⟩

/-! ## Functions on other arguments -/

namespace Builtin

variable {α : Type} {symbol : String}

/-- Nothing follows on an operand that is not an integer. -/
theorem integerOperand_bind {value : Value} (other : ∀ n, value ≠ .int n) (f g : Int → Action α) :
    (integerOperand symbol value >>= f) = (integerOperand symbol value >>= g) := by
  have fails : integerOperand symbol value = (do
      let text ← shown fun heap => value.display? heap
      fail (.operandMismatch text symbol)) := by
    cases value with
    | int n => exact absurd rfl (other n)
    | _ => rfl
  rw [fails, bind_assoc, bind_assoc]
  rfl

/-- An operator refuses whatever is not two integers without regard to what it computes. -/
theorem run_arithmetic_unfit {values : List Value} (unfit : ∀ a b, values ≠ [.int a, .int b])
    (operation operation' : Arithmetic) :
    (arithmetic symbol operation).run values = (arithmetic symbol operation').run values := by
  obtain _ | ⟨left, _ | ⟨right, _ | ⟨third, rest⟩⟩⟩ := values
  case cons.cons.nil =>
    simp only [run, operands, pure_bind]
    by_cases first : ∃ a, left = .int a
    · obtain ⟨a, rfl⟩ := first
      have second (b : Int) : right ≠ .int b := fun same => unfit a b (by rw [same])
      exact integerOperand_bind second _ _
    · exact integerOperand_bind (fun a same => first ⟨a, same⟩) _ _
  all_goals rfl

end Builtin

/-! ## Steps -/

section Steps

variable {operation : Arithmetic}

/-- A record that is the same in disguise. -/
theorem Action.commutes_log {record : Heap → LogRecord}
    (same : ∀ {heap : Heap}, heap.HasModulo →
      record (heap.withModulo operation) = record heap) :
    (log record).Commutes (.modulo operation) := by
  intro state has
  have given : record (state.withModulo operation).heap = record state.heap := same has
  unfold CommutesAt Ends log
  dsimp only [Disguise.modulo]
  rw [given, State.withModulo]
  cases state.log.write? (record state.heap) with
  | some log | none => exact ⟨has, rfl⟩

theorem Action.commutes_writeLine (line : String) :
    (writeLine line).Commutes (.modulo operation) := by
  intro state has
  unfold CommutesAt Ends writeLine
  dsimp only [Disguise.modulo, State.withModulo]
  cases state.sink.write? line with
  | some sink | none => exact ⟨has, rfl⟩

theorem Action.commutes_print (values : List Value) :
    (Builtin.print.run values).Commutes (.modulo operation) := by
  apply (commutes_log fun has => ?_).bind
  · intro _
    apply (commutes_shown fun {state} has => ?_).bind
    · exact fun line => (commutes_writeLine line).bind fun _ => commutes_pure _
    · have texts : Value.display? (state.withModulo operation).heap = Value.display? state.heap :=
        funext fun value => Value.display?_withModulo operation has value
      exact congrArg (fun text? => (values.mapM text?).map (String.intercalate " ")) texts
  · rw [Value.quotedList?_withModulo operation has]

/-- What an invocation does, whatever the body. -/
theorem Task.commutes_invoked_modulo (origin : Place) (callee : Ref) (receiver : Value)
    (values : List Value) (body : Option Body) :
    (invoked origin callee receiver values body).Commutes (.modulo operation) := by
  by_cases print : body = some (.builtin .print)
  · subst print
    exact (commutes_print values).bind fun _ => commutes_pure _
  · exact commutes_invoked origin callee receiver values print

/-- The step from the arguments of a call to the invocation, with its record. -/
theorem Task.commutes_recorded (settings : Settings) (origins : Ref → Place) (room : Bool)
    (line : Line) (callee : Ref) (receiver : Value) (values : List Value) (scope : Ref) :
    (Task.begin settings origins room (.arguments line callee receiver values [] scope)).Commutes
      (.modulo operation) := by
  unfold Task.begin
  refine commutes_ite ((commutes_log fun {heap} has => ?_).bind fun _ => commutes_pure _)
    (commutes_pure _)
  have name : ((heap.withModulo operation).get? callee).map Object.name =
      (heap.get? callee).map Object.name :=
    Heap.view_get?_withModulo operation has (fun found => found.map Object.name)
      (fun _ _ _ => rfl) callee
  rw [name, Value.quotedList?_withModulo operation has]

/-- Any invocation but that of the function with two integers. -/
theorem Task.commutesAt_invoke_modulo (settings : Settings) (origins : Ref → Place) (room : Bool)
    {callee : Ref} (receiver : Value) {values : List Value} {state : State}
    (has : state.heap.HasModulo)
    (unnoticed : callee = Heap.modulo → ∀ a b, values ≠ [.int a, .int b]) :
    (Task.begin settings origins room (.invoke callee receiver values)).CommutesAt
      (.modulo operation) state := by
  have allowed : (Disguise.modulo operation).allowed state := has
  refine commutesAt_invoke ?_ (commutes_invoked_modulo _ _ _ _ _ state allowed)
  change invoked _ _ _ _ (((state.heap.withModulo operation).get? callee).bind Object.body) = _
  rw [Heap.get?_withModulo]
  split
  · rename_i same
    obtain ⟨own, body⟩ := has
    obtain ⟨object, found, -⟩ := Option.bind_eq_some_iff.mp body
    rw [← same, body, found, Option.map_some, Option.bind_some, invoked, invoked,
      Builtin.run_arithmetic_unfit (unnoticed same.symm) operation own]
  · rfl

namespace Moment

variable {moment : Moment} (settings : Settings) (limit : Nat)

/-- The moment with that function computing something else. -/
def withModulo (operation : Arithmetic) (moment : Moment) : Moment :=
  { moment with state := moment.state.withModulo operation }

/-- The function is about to be invoked with exactly two integers. -/
def InvokesModulo (moment : Moment) : Prop :=
  ∃ receiver a b, moment.focus = .task (.invoke Heap.modulo receiver [.int a, .int b])

/-- Steps look at none of the settings but the tracing of calls. -/
theorem next_of_traceCalls {settings settings' : Settings}
    (same : settings'.traceCalls = settings.traceCalls) :
    moment.next settings' limit = moment.next settings limit := by
  obtain ⟨focus, frames, state, origins⟩ := moment
  match focus with
  | .answer completion => cases frames <;> cases completion <;> rfl
  | .raise fault => cases frames <;> rfl
  | .task (.arguments _ _ _ _ [] _) =>
      unfold next
      simp only [Task.begin, same]
  | .task (.eval ..) | .task (.elements [] _) | .task (.elements (_ :: _) _)
  | .task (.fields _ [] _) | .task (.fields _ (_ :: _) _)
  | .task (.arguments _ _ _ _ (_ :: _) _) | .task (.invoke ..) => rfl

/-- A step that does not invoke the function with two integers does not see what it computes. -/
theorem next_withModulo (has : moment.state.heap.HasModulo) (unnoticed : ¬ moment.InvokesModulo) :
    (moment.withModulo operation).next settings limit =
        (moment.next settings limit).withModulo operation ∧
      (moment.next settings limit).state.heap.HasModulo := by
  have allowed : (Disguise.modulo operation).allowed moment.state := has
  refine next_disguised allowed
    (fun line callee receiver values scope _ =>
      Task.commutes_recorded settings _ _ line callee receiver values scope _ allowed)
    fun callee receiver values invokes =>
      Task.commutesAt_invoke_modulo settings _ _ receiver has ?_
  rintro rfl a b rfl
  exact unnoticed ⟨receiver, a, b, invokes⟩

end Moment

end Steps

/-! ## Runs -/

/-- The same options, with `%` as it once was or as it is. -/
def Settings.legacy (settings : Settings) (legacyModulo : Bool) : Settings :=
  { settings with legacyModulo }

/-- The report, with that function computing something else. -/
def Report.withModulo (operation : Arithmetic) (report : Report) : Report :=
  { report with state := report.state.withModulo operation }

namespace Heap

theorem hasModulo_initial (settings : Settings) : (initial settings).HasModulo :=
  ⟨if settings.legacyModulo then .mul else .rem, rfl⟩

/-- It is the function that programs find as `%`. -/
theorem lookup_modulo_initial (settings : Settings) :
    (initial settings).lookup root "%" = .obj modulo := by
  rfl

theorem initial_legacy (settings : Settings) :
    initial (settings.legacy true) = (initial (settings.legacy false)).withModulo .mul := by
  rfl

end Heap

namespace Script

variable {script : Script} {settings settings' : Settings} {sink : Sink} {log : Log} {n : Nat}
  {origins : Ref → Place} {operation : Arithmetic}

/-- The two runs go through the same moments, as long as the function has not been invoked with two
integers. -/
theorem moment_legacy
    (before : ∀ k < n, ¬ (script.moment (settings.legacy false) sink log k).InvokesModulo) :
    script.moment (settings.legacy true) sink log n =
        (script.moment (settings.legacy false) sink log n).withModulo .mul ∧
      (script.moment (settings.legacy false) sink log n).state.heap.HasModulo := by
  induction n with
  | zero =>
      refine ⟨?_, Heap.hasModulo_initial _⟩
      unfold moment start
      rw [Heap.initial_legacy]
      rfl
  | succ n ih =>
      obtain ⟨same, has⟩ := ih fun k earlier => before k (Nat.lt_succ_of_lt earlier)
      obtain ⟨step, has'⟩ := Moment.next_withModulo (settings.legacy false) settings.depth has
        (before n (Nat.lt_succ_self n))
      rw [moment_succ, moment_succ, same]
      exact ⟨(Moment.next_of_traceCalls _ rfl).trans step, has'⟩

/-- The first moments at which it is invoked with two integers are the same. -/
theorem unnoticed_iff :
    (∀ k < n, ¬ (script.moment (settings.legacy false) sink log k).InvokesModulo) ↔
      ∀ k < n, ¬ (script.moment (settings.legacy true) sink log k).InvokesModulo := by
  induction n with
  | zero => exact ⟨fun _ _ none => absurd none (Nat.not_lt_zero _), fun _ _ none =>
      absurd none (Nat.not_lt_zero _)⟩
  | succ n ih =>
      rw [Nat.forall_lt_succ_right, Nat.forall_lt_succ_right, ← ih]
      refine and_congr_right fun before => ?_
      rw [(moment_legacy before).1]
      rfl

/-- Two runs that come to the same end, up to what the function computes, report the same up to
that. -/
theorem report_of_withModulo
    (reached : script.moment settings sink log n =
      Moment.ended [] origins (script.outcome settings sink log))
    (same : script.moment settings' sink log n =
      (script.moment settings sink log n).withModulo operation) :
    script.report (script.outcome settings' sink log) =
      (script.report (script.outcome settings sink log)).withModulo operation := by
  rw [reached] at same
  generalize script.outcome settings sink log = outcome at same
  cases outcome with
  | ok completion after =>
      have ended : script.moment settings' sink log n =
          Moment.ended [] origins (.ok completion (after.withModulo operation)) := same
      rw [outcome_of_ended ended]
      cases completion <;> rfl
  | error fault after =>
      have ended : script.moment settings' sink log n =
          Moment.ended [] origins (.error fault (after.withModulo operation)) := same
      rw [outcome_of_ended ended]
      rfl

/-- With `%` as it once was and as it is, a program goes through the same moments, with the same
lines and objects up to what that function computes, until the function is invoked with two
integers, under whatever name and in whatever way. If it never is, both runs are refused or report
the same. -/
theorem modulo_unnoticed (script : Script) (settings : Settings) (sink : Sink) (log : Log) :
    let multiplies := settings.legacy true
    let divides := settings.legacy false
    ((Heap.initial multiplies).lookup Heap.root "%" = .obj Heap.modulo ∧
      (Heap.initial divides).lookup Heap.root "%" = .obj Heap.modulo) ∧
    (∀ n,
      ((∀ k < n, ¬ (script.moment divides sink log k).InvokesModulo) ↔
        ∀ k < n, ¬ (script.moment multiplies sink log k).InvokesModulo) ∧
      ((∀ k < n, ¬ (script.moment divides sink log k).InvokesModulo) →
        script.moment multiplies sink log n =
          (script.moment divides sink log n).withModulo .mul)) ∧
    ((∀ k, ¬ (script.moment divides sink log k).InvokesModulo) →
      RunsAlike (fun report report' => report' = report.withModulo .mul)
        (script.run (.sink sink) divides log) (script.run (.sink sink) multiplies log)) := by
  intro multiplies divides
  refine ⟨⟨Heap.lookup_modulo_initial _, Heap.lookup_modulo_initial _⟩,
    fun n => ⟨unnoticed_iff, fun before => (moment_legacy before).1⟩, fun never => ?_⟩
  obtain ⟨last, origins, reached⟩ := script.exists_moment_eq_ended divides sink log
  have limit : multiplies.effectiveLimit = divides.effectiveLimit := rfl
  have same := (moment_legacy fun k (_ : k < last) => never k).1
  exact runsAlike_of_reports limit (report_of_withModulo reached same)

end Script

end ScriptTree
