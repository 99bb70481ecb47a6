import ScriptTree.Proofs.BindingHistory

/-!
# The comparisons are one order

The six comparisons of the language are functions of two makes, one for `==` and `!=` and one for
the four orderings, and each checks its operands for itself. They fit together all the same: `==`
is an equivalence on the values that programs hold, integers and strings are ordered strictly and
totally by `<` up to `==`, and the other symbols are swaps and complements of these two
(`Builtin.comparisons_consistent`).

What a comparison gives is said of the function that the root scope binds at the start, in any
state that comes later (`Builtin.Answers`): a program may bind the symbol anew, but it cannot
change the function. Each make has one lemma that says of which statement about its operands it
tells the truth (`tells_equality`, `tells_ordering`). The rest is about values and their order
(`Value.Below`).
-/

namespace ScriptTree

/-! ## Values and their order -/

namespace Value

variable {a b c : Value}

/-- A value of a kind that programs hold. The objects are records, functions and scopes. -/
def Held : Value → Prop
  | .undefined | .int _ | .str _ | .obj _ => True
  | .flag _ | .null => False

/-- Values of one kind that are the same number, the same string or the same object. -/
inductive Same : Value → Value → Prop
  | undefined : Same .undefined .undefined
  | int (n : Int) : Same (.int n) (.int n)
  | str (s : String) : Same (.str s) (.str s)
  | obj (ref : Ref) : Same (.obj ref) (.obj ref)

/-- Values that stand in an order: two integers or two strings. -/
inductive Comparable : Value → Value → Prop
  | int (m n : Int) : Comparable (.int m) (.int n)
  | str (s t : String) : Comparable (.str s) (.str t)

/-- The order of integers by size, and the lexicographic order of strings by their code points. -/
inductive Below : Value → Value → Prop
  | int {m n : Int} (less : m < n) : Below (.int m) (.int n)
  | str {s t : String}
      (less : List.Lex (· < ·) (s.toList.map Char.toNat) (t.toList.map Char.toNat)) :
    Below (.str s) (.str t)

theorem same_iff_eq (held : a.Held) : a.Same b ↔ a = b := by
  constructor
  · rintro (_ | _ | _ | _) <;> rfl
  · rintro rfl
    cases a with
    | undefined => exact .undefined
    | int n => exact .int n
    | str s => exact .str s
    | obj ref => exact .obj ref
    | flag | null => exact held.elim

theorem Comparable.symm (comparable : a.Comparable b) : b.Comparable a := by
  cases comparable with
  | int => exact .int _ _
  | str => exact .str _ _

theorem Below.comparable (below : a.Below b) : a.Comparable b := by
  cases below with
  | int => exact .int _ _
  | str => exact .str _ _

/-- The order of characters is that of their code points. -/
theorem lex_toNat_iff {s t : List Char} :
    List.Lex (· < ·) (s.map Char.toNat) (t.map Char.toNat) ↔ s < t := by
  change s.map Char.toNat < t.map Char.toNat ↔ s < t
  induction s generalizing t with
  | nil => cases t <;> simp
  | cons c s ih =>
      cases t with
      | nil => simp
      | cons d t =>
          rw [List.map_cons, List.map_cons, List.cons_lt_cons_iff, List.cons_lt_cons_iff, ih,
            Char.toNat_inj]
          exact Iff.rfl

theorem below_int_iff {m n : Int} : Below (.int m) (.int n) ↔ m < n :=
  ⟨fun | .int less => less, .int⟩

theorem below_str_iff {s t : String} : Below (.str s) (.str t) ↔ s < t := by
  rw [String.lt_iff, ← lex_toNat_iff]
  exact ⟨fun | .str less => less, .str⟩

theorem not_below_self : ¬ a.Below a := by
  cases a with
  | int n => exact fun below => Int.lt_irrefl n (below_int_iff.mp below)
  | str s => exact fun below => String.lt_irrefl s (below_str_iff.mp below)
  | undefined | obj | flag | null => exact nofun

theorem Below.trans (first : a.Below b) (second : b.Below c) : a.Below c := by
  cases first with
  | int less =>
      cases second with
      | int less' => exact .int (Int.lt_trans less less')
  | str less =>
      cases second with
      | str less' =>
          have first := below_str_iff.mp (.str less)
          exact below_str_iff.mpr (String.lt_trans first (below_str_iff.mp (.str less')))

/-- Of two values that stand in an order one is below the other, or they are equal. -/
theorem Comparable.trichotomy (comparable : a.Comparable b) : a.Below b ∨ a = b ∨ b.Below a := by
  cases comparable with
  | int m n =>
      rw [below_int_iff, below_int_iff, int.injEq]
      exact Int.lt_trichotomy m n
  | str s t =>
      rw [below_str_iff, below_str_iff, str.injEq]
      exact Std.Trichotomous.rel_or_eq_or_rel_swap

end Value

/-- What an ordering tells of two values that stand in an order. -/
def Comparison.Means : Comparison → Value → Value → Prop
  | .lt, a, b => a.Below b
  | .le, a, b => ¬ b.Below a
  | .gt, a, b => b.Below a
  | .ge, a, b => ¬ a.Below b

/-- The symbol of an ordering. -/
def Comparison.symbol : Comparison → String
  | .lt => "<"
  | .le => "<="
  | .gt => ">"
  | .ge => ">="

theorem Comparison.exists_symbol {symbol : String} (listed : symbol ∈ ["<", "<=", ">", ">="]) :
    ∃ comparison : Comparison, comparison.symbol = symbol := by
  simp only [List.mem_cons, List.not_mem_nil, or_false] at listed
  rcases listed with rfl | rfl | rfl | rfl
  exacts [⟨.lt, rfl⟩, ⟨.le, rfl⟩, ⟨.gt, rfl⟩, ⟨.ge, rfl⟩]

namespace Value

variable {a b : Value}

theorem Comparable.exists_compare? (comparable : a.Comparable b) (comparison : Comparison) :
    ∃ holds, a.compare? comparison b = some holds ∧ (holds = true ↔ comparison.Means a b) := by
  cases comparable with
  | int m n =>
      refine ⟨comparison.holds m n, rfl, ?_⟩
      cases comparison <;> simp [Comparison.holds, Comparison.Means, below_int_iff]
  | str s t =>
      refine ⟨comparison.holds s t, rfl, ?_⟩
      cases comparison <;> simp [Comparison.holds, Comparison.Means, below_str_iff]

/-- Of the values that programs hold, the others stand in no order. -/
theorem compare?_eq_none (held : a.Held) (held' : b.Held) (apart : ¬ a.Comparable b)
    (comparison : Comparison) : a.compare? comparison b = none := by
  cases a with
  | flag | null => exact held.elim
  | undefined | obj => rfl
  | int m =>
      cases b with
      | flag => exact held'.elim
      | int n => exact absurd (.int m n) apart
      | undefined | str | obj | null => rfl
  | str s =>
      cases b with
      | str t => exact absurd (.str s t) apart
      | undefined | int | obj | flag | null => rfl

end Value

/-! ## What the comparisons give -/

namespace Builtin

open ScriptTree.Action

section Statements

variable (settings : Settings) (state : State) (symbol : String)

/-- How the function that the root scope binds to the symbol at the start ends with the arguments,
whoever evaluates and whatever the receiver is. -/
def Answers (arguments : List Value) (gives : Value → State → Prop)
    (fails : Fault → State → Prop) : Prop :=
  ∃ ref, (Heap.initial settings).lookup Heap.root symbol = .obj ref ∧
    ∀ self receiver, (Eval.invoke self ref receiver arguments).Ends state gives fails

/-- The comparison gives a number and changes nothing. -/
def Gives (a b : Value) (n : Int) : Prop :=
  Answers settings state symbol [a, b] (fun value after => value = .int n ∧ after = state)
    fun _ _ => False

/-- The comparison ends in a fault and changes nothing. -/
def Fails (a b : Value) : Prop :=
  Answers settings state symbol [a, b] (fun _ _ => False) fun _ after => after = state

/-- The comparison gives 1 if the statement is true and 0 if it is not. -/
def Tells (a b : Value) (statement : Prop) : Prop :=
  (Gives settings state symbol a b 1 ↔ statement) ∧
    (Gives settings state symbol a b 0 ↔ ¬ statement)

/-- One of two comparisons gives 1 and the other one 0. -/
def Opposite (other : String) (a b : Value) : Prop :=
  (Gives settings state symbol a b 1 ∧ Gives settings state other a b 0) ∨
    (Gives settings state symbol a b 0 ∧ Gives settings state other a b 1)

end Statements

/-- The functions that compare. -/
def IsComparison : Builtin → Prop
  | .equality _ _ | .ordering _ _ => True
  | .print | .arithmetic _ _ => False

variable {settings : Settings} {state : State} {builtin : Builtin} {symbol other : String}
  {a b : Value}

/-- The root scope binds the functions of the language at the start. -/
theorem exists_ref (listed : builtin ∈ all settings) :
    ∃ ref, (Heap.initial settings).lookup Heap.root builtin.name = .obj ref ∧
      ((Heap.initial settings).get? ref).bind Object.body = some (.builtin builtin) := by
  obtain ⟨i, inside, rfl⟩ := List.mem_iff_getElem.mp listed
  refine ⟨Heap.root + 1 + i, Heap.lookup_of_own ?_, ?_⟩
  · refine Fields.get?_of_mem (Script.nodup_keys_initial settings Heap.root) ?_
    rw [Heap.fields_of_get? (Heap.get?_initial_root settings)]
    exact List.mem_cons_of_mem _ (List.mem_mapIdx.mpr ⟨i, inside, rfl⟩)
  · rw [Heap.root, Nat.zero_add, Nat.add_comm, Heap.get?_initial_succ,
      List.getElem?_eq_getElem inside]
    rfl

/-- However the objects have changed since the start, the function does what it is made for. -/
theorem answers_iff (grown : (Heap.initial settings).Grows state.heap)
    (listed : builtin ∈ all settings) {arguments : List Value} {gives : Value → State → Prop}
    {fails : Fault → State → Prop} :
    Answers settings state builtin.name arguments gives fails ↔
      (builtin.run arguments).Ends state gives fails := by
  obtain ⟨ref, bound, body⟩ := exists_ref listed
  have runs (self : Evaluator) (receiver : Value) :
      (Eval.invoke self ref receiver arguments).Ends state gives fails ↔
        (builtin.run arguments).Ends state gives fails := by
    rw [Eval.invoke, ends_bind, ends_view, grown.body body]
  constructor
  · rintro ⟨ref', bound', each⟩
    cases bound.symm.trans bound'
    exact (runs (fun _ _ => throw .tooDeep) .undefined).mp (each _ _)
  · exact fun ends => ⟨ref, bound, fun self receiver => (runs self receiver).mpr ends⟩

/-- A comparison that has a truth value for its result tells it. -/
theorem tells_of_run (grown : (Heap.initial settings).Grows state.heap)
    (listed : builtin ∈ all settings) {holds : Bool}
    (gives : builtin.run [a, b] state = .ok (.ofBool holds) state) :
    Tells settings state builtin.name a b (holds = true) := by
  rw [Tells, Gives, Gives, answers_iff grown listed, answers_iff grown listed, Ends, Ends, gives]
  cases holds <;> simp [Value.ofBool]

/-- The two equalities tell whether the operands are the same, and whether they are not. -/
theorem tells_equality (grown : (Heap.initial settings).Grows state.heap) (a b : Value) :
    Tells settings state "==" a b (a = b) ∧ Tells settings state "!=" a b (a ≠ b) := by
  have equal : .equality "==" false ∈ all settings := by simp [all]
  have unequal : .equality "!=" true ∈ all settings := by simp [all]
  have tells := tells_of_run (a := a) (b := b) grown equal rfl
  have tells' := tells_of_run (a := a) (b := b) grown unequal rfl
  simp only [Bool.bne_false, Bool.bne_true, Bool.not_eq_true', decide_eq_true_eq,
    decide_eq_false_iff_not] at tells tells'
  exact ⟨tells, tells'⟩

theorem ordering_mem_all (settings : Settings) (comparison : Comparison) :
    .ordering comparison.symbol comparison ∈ all settings := by
  cases comparison <;> simp [all, Comparison.symbol]

/-- An ordering tells what it means of operands that stand in an order. -/
theorem tells_ordering (grown : (Heap.initial settings).Grows state.heap)
    (comparable : a.Comparable b) (comparison : Comparison) :
    Tells settings state comparison.symbol a b (comparison.Means a b) := by
  obtain ⟨holds, found, means⟩ := comparable.exists_compare? comparison
  rw [← means]
  refine tells_of_run grown (ordering_mem_all settings comparison) ?_
  simp only [run, operands, pure_bind, found]
  rfl

/-- An ordering refuses operands that stand in no order. -/
theorem ends_unordered {comparison : Comparison} (unordered : a.compare? comparison b = none) :
    (run (.ordering symbol comparison) [a, b]).Ends state (fun _ _ => False)
      fun _ after => after = state := by
  simp only [run, operands, pure_bind, unordered, ends_bind]
  refine (ends_shown _).mono (fun _ after same => ?_) fun _ _ same => same.2
  subst same
  refine (ends_shown _).mono (fun _ after same => ?_) fun _ _ same => same.2
  subst same
  exact rfl

/-- Whatever its arguments are, a comparison gives 0 or 1 or ends in a fault, and it changes
nothing. -/
theorem ends_comparison (compares : builtin.IsComparison) (arguments : List Value) :
    (builtin.run arguments).Ends state
      (fun value after => (value = .int 0 ∨ value = .int 1) ∧ after = state)
      fun _ after => after = state := by
  have truth (b : Bool) : Value.ofBool b = .int 0 ∨ Value.ofBool b = .int 1 := by
    cases b
    · exact .inl rfl
    · exact .inr rfl
  cases builtin with
  | print | arithmetic => exact compares.elim
  | equality symbol negated =>
      rw [run, ends_bind]
      exact (ends_operands _ _).mono (fun _ _ same => ⟨truth _, same⟩) fun _ _ same => same
  | ordering symbol comparison =>
      obtain _ | ⟨a, _ | ⟨b, _ | ⟨c, rest⟩⟩⟩ := arguments
      case cons.cons.nil =>
        cases found : a.compare? comparison b with
        | none => exact (ends_unordered found).mono (fun _ _ no => no.elim) fun _ _ same => same
        | some holds =>
            simp only [run, operands, pure_bind, found]
            exact ⟨truth holds, rfl⟩
      all_goals exact rfl

/-- Two comparisons of which one tells the contrary of the other are opposite. -/
theorem Tells.opposite {statement contrary : Prop}
    (tells : Tells settings state symbol a b statement)
    (tells' : Tells settings state other a b contrary) (opposed : contrary ↔ ¬ statement) :
    Opposite settings state symbol other a b := by
  by_cases holds : statement
  · exact .inl ⟨tells.1.mpr holds, tells'.2.mpr fun other => opposed.mp other holds⟩
  · exact .inr ⟨tells.2.mpr holds, tells'.1.mpr (opposed.mpr holds)⟩

/-- A comparison that fails gives no number. -/
theorem Fails.not_gives (fails : Fails settings state symbol a b) (n : Int) :
    ¬ Gives settings state symbol a b n := by
  rintro ⟨ref, bound, each⟩
  obtain ⟨ref', bound', each'⟩ := fails
  cases bound.symm.trans bound'
  have ends := each (fun _ _ => throw .tooDeep) .undefined
  have ends' := each' (fun _ _ => throw .tooDeep) .undefined
  unfold Ends at ends ends'
  cases ran : Eval.invoke (fun _ _ => throw .tooDeep) ref .undefined [a, b] state with
  | ok value after =>
      rw [ran] at ends'
      exact ends'
  | error fault after =>
      rw [ran] at ends
      exact ends

/-- The orderings fail with values that stand in no order. -/
theorem fails_of_not_comparable (grown : (Heap.initial settings).Grows state.heap) (held : a.Held)
    (held' : b.Held) (apart : ¬ a.Comparable b) (comparison : Comparison) :
    Fails settings state comparison.symbol a b :=
  (answers_iff grown (ordering_mem_all settings comparison)).mpr
    (ends_unordered (Value.compare?_eq_none held held' apart comparison))

/-- Of all values that programs hold, `<` picks those of which one is below the other. -/
theorem gives_lt_iff (grown : (Heap.initial settings).Grows state.heap) (held : a.Held)
    (held' : b.Held) : Gives settings state "<" a b 1 ↔ a.Below b := by
  by_cases comparable : a.Comparable b
  · exact (tells_ordering grown comparable .lt).1
  · have fails := fails_of_not_comparable grown held held' comparable .lt
    exact ⟨fun gives => absurd gives (fails.not_gives 1),
      fun below => absurd below.comparable comparable⟩

/-- Of two values that stand in an order, exactly one of three comparisons gives 1. -/
theorem exists_gives_three (grown : (Heap.initial settings).Grows state.heap)
    (comparable : a.Comparable b) :
    ∃ less equal greater, (less, equal, greater) ∈ [(1, 0, 0), (0, 1, 0), (0, 0, 1)] ∧
      Gives settings state "<" a b less ∧ Gives settings state "==" a b equal ∧
      Gives settings state ">" a b greater := by
  have less := tells_ordering grown comparable .lt
  have greater := tells_ordering grown comparable .gt
  have equal := (tells_equality grown a b).1
  rcases comparable.trichotomy with below | same | above
  · refine ⟨1, 0, 0, by simp, less.1.mpr below, equal.2.mpr ?_, greater.2.mpr ?_⟩
    · rintro rfl
      exact Value.not_below_self below
    · exact fun above => Value.not_below_self (below.trans above)
  · subst same
    exact ⟨0, 1, 0, by simp, less.2.mpr Value.not_below_self, equal.1.mpr rfl,
      greater.2.mpr Value.not_below_self⟩
  · refine ⟨0, 0, 1, by simp, less.2.mpr ?_, equal.2.mpr ?_, greater.1.mpr above⟩
    · exact fun below => Value.not_below_self (below.trans above)
    · rintro rfl
      exact Value.not_below_self above

theorem exists_comparison (settings : Settings)
    (listed : symbol ∈ ["==", "!=", "<", "<=", ">", ">="]) :
    ∃ builtin ∈ all settings, builtin.name = symbol ∧ builtin.IsComparison := by
  simp only [List.mem_cons, List.not_mem_nil, or_false] at listed
  rcases listed with rfl | rfl | rfl | rfl | rfl | rfl
  · exact ⟨.equality "==" false, by simp [all], rfl, trivial⟩
  · exact ⟨.equality "!=" true, by simp [all], rfl, trivial⟩
  · exact ⟨_, ordering_mem_all settings .lt, rfl, trivial⟩
  · exact ⟨_, ordering_mem_all settings .le, rfl, trivial⟩
  · exact ⟨_, ordering_mem_all settings .gt, rfl, trivial⟩
  · exact ⟨_, ordering_mem_all settings .ge, rfl, trivial⟩

/-- Of the values that programs hold, and in any state after the start:
* `==` gives 1 for the same number, the same string and the same object, and otherwise 0, and `!=`
  gives the other one of the two; so `==` is an equivalence;
* of two integers or two strings exactly one of `<`, `==` and `>` gives 1, and `<=` and `>=` give
  what `>` and `<` do not;
* `<` gives 1 for integers by their size and for strings by their code points, and it is transitive;
* with any other two values the four orderings end in a fault, whichever of them comes first.

Whatever their arguments are, the six give nothing but 0 or 1, and they change nothing. -/
theorem comparisons_consistent (grown : (Heap.initial settings).Grows state.heap) :
    (∀ a b : Value, a.Held → b.Held → Opposite settings state "==" "!=" a b ∧
      (Gives settings state "==" a b 1 ↔ a.Same b)) ∧
    Equivalence (fun a b : {value : Value // value.Held} =>
      Gives settings state "==" a.val b.val 1) ∧
    (∀ a b : Value, a.Comparable b →
      (∃ less equal greater, (less, equal, greater) ∈ [(1, 0, 0), (0, 1, 0), (0, 0, 1)] ∧
        Gives settings state "<" a b less ∧ Gives settings state "==" a b equal ∧
        Gives settings state ">" a b greater) ∧
      Opposite settings state ">" "<=" a b ∧ Opposite settings state "<" ">=" a b) ∧
    (∀ a b : Value, a.Held → b.Held → (Gives settings state "<" a b 1 ↔ a.Below b)) ∧
    (∀ a b c : Value, a.Held → b.Held → c.Held → Gives settings state "<" a b 1 →
      Gives settings state "<" b c 1 → Gives settings state "<" a c 1) ∧
    (∀ a b : Value, a.Held → b.Held → ¬ a.Comparable b → ∀ symbol ∈ ["<", "<=", ">", ">="],
      Fails settings state symbol a b ∧ Fails settings state symbol b a) ∧
    ∀ symbol ∈ ["==", "!=", "<", "<=", ">", ">="], ∀ arguments,
      Answers settings state symbol arguments
        (fun value after => (value = .int 0 ∨ value = .int 1) ∧ after = state)
        fun _ after => after = state := by
  have equal (a b : Value) : Gives settings state "==" a b 1 ↔ a = b :=
    (tells_equality grown a b).1.1
  have tells {a b : Value} (comparable : a.Comparable b) := tells_ordering grown comparable
  refine ⟨fun a b held _ => ⟨?_, (equal a b).trans (Value.same_iff_eq held).symm⟩, ?_,
    fun a b comparable => ⟨?_, ?_, ?_⟩, fun a b => gives_lt_iff grown,
    fun a b c held held' held'' first second => ?_, fun a b held held' apart symbol listed => ?_,
    fun symbol listed arguments => ?_⟩
  · obtain ⟨tells, tells'⟩ := tells_equality grown a b
    exact tells.opposite tells' Iff.rfl
  · refine ⟨fun a => (equal a a).mpr rfl, fun same => ?_, fun first second => ?_⟩
    · exact (equal _ _).mpr ((equal _ _).mp same).symm
    · exact (equal _ _).mpr (((equal _ _).mp first).trans ((equal _ _).mp second))
  · exact exists_gives_three grown comparable
  · exact (tells comparable .gt).opposite (tells comparable .le) Iff.rfl
  · exact (tells comparable .lt).opposite (tells comparable .ge) Iff.rfl
  · have below := (gives_lt_iff grown held held').mp first
    exact (gives_lt_iff grown held held'').mpr
      (below.trans ((gives_lt_iff grown held' held'').mp second))
  · have apart' : ¬ b.Comparable a := fun comparable => apart comparable.symm
    obtain ⟨comparison, rfl⟩ := Comparison.exists_symbol listed
    exact ⟨fails_of_not_comparable grown held held' apart comparison,
      fails_of_not_comparable grown held' held apart' comparison⟩
  · obtain ⟨builtin, bound, rfl, compares⟩ := exists_comparison settings listed
    exact (answers_iff grown bound).mpr (ends_comparison compares arguments)

/-- A program that binds the symbol of an ordering to a record. -/
def takesSymbol : Script :=
  ⟨.mk none [.assignment none "<" (.record none []) true]⟩

/-- The function still orders a string and a longer one that begins with it, and refuses the
record. -/
theorem comparisons_consistent_takesSymbol : ∃ state,
    state = (takesSymbol.moment .standard .empty {} 6).state ∧
    state.heap.lookup Heap.root "<" = .obj 13 ∧ (Heap.initial .standard).Grows state.heap ∧
    Gives .standard state "<" (.str "ab") (.str "abc") 1 ∧
    Fails .standard state "<" (.obj 13) (.int 1) ∧
    Fails .standard state "<" (.int 1) (.obj 13) := by
  have grown : (Heap.initial .standard).Grows
      (takesSymbol.moment .standard .empty {} 6).state.heap :=
    takesSymbol.heap_moment_grows .standard .empty {} (Nat.zero_le 6)
  obtain ⟨-, -, -, below, -, refused, -⟩ := comparisons_consistent grown
  refine ⟨_, rfl, rfl, grown, (below (.str "ab") (.str "abc") trivial trivial).mpr ?_, ?_⟩
  · exact .str (.cons (.cons .nil))
  · exact refused (.obj 13) (.int 1) trivial trivial nofun "<" List.mem_cons_self

end Builtin

end ScriptTree
