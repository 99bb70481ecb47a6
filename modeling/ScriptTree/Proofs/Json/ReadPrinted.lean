import ScriptTree.Json.Printer
import ScriptTree.Json.Reader

/-!
# Reading what was printed

The reader gives a printed document back, whatever follows it in the text, and refuses it exactly
when it is nested too deep: `scanValue_print` for a value inside a text and `read?_print` for a
whole one. It is stated for the documents that programs are written in (`Json.Plain`), in which
every number is an integer that is short enough to be shown.

A number is the only value whose end is not marked, so what follows a value must not go on with it
(`EndsNumber`). Strings are read one character at a time: the scanner is between two characters
again after the escape of a character, whatever escape it was (`scanStringFrom_escape`).
-/

namespace ScriptTree

/-! ## Digits -/

namespace Decimal

/-- The digits that an integer is written with, after its sign. -/
theorem toList_text (n : Int) :
    (text n).toList = (if n < 0 then ['-'] else []) ++ Nat.toDigits 10 n.natAbs := by
  cases n with
  | ofNat n => simp [text]
  | negSucc n => simp [text]

theorem ofDigits_toDigits (n : Nat) : ofDigits (Nat.toDigits 10 n) = n :=
  Nat.ofDigitChars_ten_toDigits

/-- An integer can be shown when it has no more digits than it may. -/
theorem fits_iff (n : Int) : fits n = true ↔ (Nat.toDigits 10 n.natAbs).length ≤ maxDigits := by
  have positive : 0 < maxDigits := by decide
  unfold fits
  -- the power itself is not computed
  generalize maxDigits = digits at positive ⊢
  rw [Nat.length_toDigits_le_iff (by omega) positive, decide_eq_true_eq]
  exact Iff.rfl

/-- An integer begins with a digit or a minus sign. -/
theorem exists_toList_text (n : Int) :
    ∃ c more, (text n).toList = c :: more ∧ (c.isDigit = true ∨ c = '-') := by
  rw [toList_text]
  split
  · exact ⟨'-', _, rfl, .inr rfl⟩
  · cases digits : Nat.toDigits 10 n.natAbs with
    | nil => exact absurd digits Nat.toDigits_ne_nil
    | cons c more =>
        have listed : c ∈ Nat.toDigits 10 n.natAbs := digits ▸ List.mem_cons_self
        exact ⟨c, more, rfl, .inl (Nat.isDigit_of_mem_toDigits (by omega) (by omega) listed)⟩

/-- Only zero is written with a zero at its front. -/
theorem toDigits_ne_zero_cons (n : Nat) (c : Char) (rest : List Char) :
    Nat.toDigits 10 n ≠ '0' :: c :: rest := by
  have front : ∀ n, 0 < n → (Nat.toDigits 10 n).head? ≠ some '0' := by
    intro n
    induction n using Nat.strongRecOn with
    | ind n ih =>
        intro positive
        rw [Nat.toDigits_eq_if (by omega)]
        split
        · simp
          omega
        · have shorter := ih (n / 10) (by omega) (by omega)
          rw [List.head?_append]
          cases digits : (Nat.toDigits 10 (n / 10)).head? with
          | none => exact absurd (List.head?_eq_none_iff.mp digits) Nat.toDigits_ne_nil
          | some digit =>
              rw [digits] at shorter
              exact shorter
  intro written
  rcases Nat.eq_zero_or_pos n with rfl | positive
  · simp at written
  · exact front n positive (by rw [written]; rfl)

end Decimal

namespace Json

/-! ## Documents that programs are written in -/

/-- A document without decimals, in which every integer is short enough to be shown. -/
inductive Plain : Json → Prop
  | null : Plain .null
  | bool {value : Bool} : Plain (.bool value)
  | int {value : Int} (fits : Decimal.fits value = true) : Plain (.int value)
  | string {value : String} : Plain (.string value)
  | array {items : List Json} (all : ∀ item ∈ items, item.Plain) : Plain (.array items)
  | object {members : List (String × Json)} (all : ∀ member ∈ members, member.2.Plain) :
    Plain (.object members)

mutual

/-- How deep arrays and objects that are not empty are nested. -/
def depth : Json → Nat
  | .array items => itemsDepth items
  | .object members => membersDepth members
  | _ => 0

/-- How deep an array of these items is nested. -/
def itemsDepth : List Json → Nat
  | [] => 0
  | item :: rest => max (item.depth + 1) (itemsDepth rest)

/-- How deep an object of these members is nested. -/
def membersDepth : List (String × Json) → Nat
  | [] => 0
  | (_, value) :: rest => max (value.depth + 1) (membersDepth rest)

end

@[simp] theorem depth_null : depth .null = 0 := rfl

@[simp] theorem depth_bool (value : Bool) : depth (.bool value) = 0 := rfl

@[simp] theorem depth_int (value : Int) : depth (.int value) = 0 := rfl

@[simp] theorem depth_string (value : String) : depth (.string value) = 0 := rfl

@[simp] theorem depth_array_le {items : List Json} {bound : Nat} :
    (Json.array items).depth ≤ bound ↔ ∀ item ∈ items, item.depth < bound := by
  rw [depth]
  induction items with
  | nil => simp [itemsDepth]
  | cons item rest ih =>
      rw [itemsDepth, Nat.max_le, ih, List.forall_mem_cons, Nat.add_one_le_iff]

@[simp] theorem depth_object_le {members : List (String × Json)} {bound : Nat} :
    (Json.object members).depth ≤ bound ↔ ∀ member ∈ members, member.2.depth < bound := by
  rw [depth]
  induction members with
  | nil => simp [membersDepth]
  | cons member rest ih =>
      obtain ⟨name, value⟩ := member
      rw [membersDepth, Nat.max_le, ih, List.forall_mem_cons, Nat.add_one_le_iff]

/-! ## What stands at the front of a text -/

/-- The text does not go on with a number that ends before it. -/
def EndsNumber (text : List Char) : Prop :=
  ∀ c ∈ text.head?, c.isDigit = false ∧ c ≠ '.' ∧ c ≠ 'e' ∧ c ≠ 'E'

theorem endsNumber_nil : EndsNumber [] :=
  nofun

/-- The rest of an array, printed, ends a number before it. -/
theorem endsNumber_printItems (items : List Json) (rest : List Char) :
    EndsNumber (printItems escape items ++ rest) := by
  cases items <;> simp [EndsNumber, printItems]

theorem endsNumber_printMembers (members : List (String × Json)) (rest : List Char) :
    EndsNumber (printMembers escape members ++ rest) := by
  rcases members with _ | ⟨⟨name, value⟩, others⟩ <;> simp [EndsNumber, printMembers]

/-- A digit is no blank and ends no container. -/
theorem not_mark_of_isDigit {c : Char} (digit : c.isDigit = true) :
    isSpace c = false ∧ c ≠ ']' ∧ c ≠ '}' := by
  refine ⟨?_, ?_, ?_⟩
  · cases space : isSpace c with
    | false => rfl
    | true =>
        simp only [isSpace, Bool.or_eq_true, decide_eq_true_eq] at space
        rcases space with ((rfl | rfl) | rfl) | rfl <;> cases digit
  · rintro rfl
    cases digit
  · rintro rfl
    cases digit

/-! ## Numbers -/

section Numbers

variable {limits : Limits} {rest : List Char}

theorem scanDigits_append {digits : List Char} (all : ∀ c ∈ digits, c.isDigit = true)
    (ends : EndsNumber rest) : scanDigits (digits ++ rest) = (digits, rest) := by
  have stops : rest.takeWhile Char.isDigit = [] ∧ rest.dropWhile Char.isDigit = rest := by
    cases rest with
    | nil => exact ⟨rfl, rfl⟩
    | cons c more =>
        have other := (ends c rfl).1
        exact ⟨by simp [other], by simp [other]⟩
  rw [scanDigits, List.takeWhile_append_of_pos all, List.dropWhile_append_of_pos all, stops.1,
    stops.2, List.append_nil]

theorem scanWhole_toDigits (n : Nat) (ends : EndsNumber rest) :
    scanWhole (Nat.toDigits 10 n ++ rest) = some (Nat.toDigits 10 n, rest) := by
  have all : ∀ c ∈ Nat.toDigits 10 n, c.isDigit = true := fun c listed =>
    Nat.isDigit_of_mem_toDigits (by omega) (by omega) listed
  rw [scanWhole, scanDigits_append all ends]
  split
  · rename_i none
    exact absurd (Prod.mk.inj none).1 Nat.toDigits_ne_nil
  · rename_i zero
    exact absurd (Prod.mk.inj zero).1 (Decimal.toDigits_ne_zero_cons n _ _)
  · rfl

theorem scanFraction_none (ends : EndsNumber rest) : scanFraction rest = some ([], rest) := by
  unfold scanFraction
  split
  · exact absurd rfl (ends '.' rfl).2.1
  · rfl

theorem scanExponent_none (ends : EndsNumber rest) : scanExponent rest = some (none, rest) := by
  unfold scanExponent
  split
  all_goals first
    | exact absurd rfl (ends 'e' rfl).2.2.1
    | exact absurd rfl (ends 'E' rfl).2.2.2
    | rfl

theorem scanUnsigned_toDigits (negative : Bool) {n : Nat}
    (short : (Nat.toDigits 10 n).length ≤ limits.digits) (ends : EndsNumber rest) :
    scanUnsigned limits negative (Nat.toDigits 10 n ++ rest) =
      some (.int (if negative then -(n : Int) else n), rest) := by
  simp only [scanUnsigned, scanWhole_toDigits n ends, Option.bind_eq_bind, Option.bind_some,
    scanFraction_none ends, scanExponent_none ends, Nat.not_lt.mpr short, if_false, gt_iff_lt,
    Decimal.ofDigits_toDigits]

/-- A text that begins with a digit or a minus sign is a number. -/
theorem scanValueWith_number (inner : Scanner Json) {c : Char} {text : List Char}
    (number : c.isDigit = true ∨ c = '-') :
    scanValueWith limits inner (c :: text) = scanNumber limits (c :: text) := by
  unfold scanValueWith
  split
  case h_9 => rfl
  all_goals
    rename_i mark
    obtain ⟨rfl, rfl⟩ := List.cons.inj mark
    rcases number with digit | minus
    · cases digit
    · cases minus

/-- An integer is read back. -/
theorem scanValueWith_int (inner : Scanner Json) {n : Int} (fits : Decimal.fits n = true)
    (enough : Decimal.maxDigits ≤ limits.digits) (ends : EndsNumber rest) :
    scanValueWith limits inner ((Decimal.text n).toList ++ rest) = some (.int n, rest) := by
  have short : (Nat.toDigits 10 n.natAbs).length ≤ limits.digits :=
    Nat.le_trans ((Decimal.fits_iff n).mp fits) enough
  have digit : ∀ c ∈ Nat.toDigits 10 n.natAbs, c.isDigit = true := fun c listed =>
    Nat.isDigit_of_mem_toDigits (by omega) (by omega) listed
  have unsigned := fun negative => scanUnsigned_toDigits negative short ends
  rw [Decimal.toList_text]
  cases digits : Nat.toDigits 10 n.natAbs with
  | nil => exact absurd digits Nat.toDigits_ne_nil
  | cons first others =>
      rw [digits] at unsigned digit
      have leading := digit first List.mem_cons_self
      by_cases negative : n < 0
      · rw [if_pos negative, List.append_assoc]
        refine (scanValueWith_number inner (.inr rfl)).trans ?_
        have signed : scanNumber limits ('-' :: (first :: others ++ rest)) =
            scanUnsigned limits true (first :: others ++ rest) := by
          unfold scanNumber
          split
          · rename_i infinity
            cases (List.cons.inj (List.cons.inj infinity).2).1
            cases leading
          · rename_i minus
            rw [(List.cons.inj minus).2]
          · rename_i other
            exact absurd rfl (other _)
        refine signed.trans ((unsigned true).trans ?_)
        rw [if_pos rfl, Int.ofNat_natAbs_of_nonpos (Int.le_of_lt negative), Int.neg_neg]
      · rw [if_neg negative, List.nil_append]
        refine (scanValueWith_number inner (.inl leading)).trans ?_
        have signed : scanNumber limits (first :: others ++ rest) =
            scanUnsigned limits false (first :: others ++ rest) := by
          unfold scanNumber
          split
          · rename_i infinity
            cases (List.cons.inj infinity).1
            cases leading
          · rename_i minus
            cases (List.cons.inj minus).1
            cases leading
          · rfl
        refine signed.trans ((unsigned false).trans ?_)
        rw [if_neg Bool.false_ne_true, Int.natAbs_of_nonneg (Int.not_lt.mp negative)]

end Numbers

/-! ## Strings -/

section Strings

variable {rest : List Char}

/-- A character of a string, other than the quotation mark that ends it, is one step. -/
theorem scanStringFrom_step {place next : StringPlace} {found found' : List Char} {c : Char}
    (inside : place = .between → c ≠ '"') (steps : stringStep place found c = some (next, found')) :
    scanStringFrom place found (c :: rest) = scanStringFrom next found' rest := by
  rw [scanStringFrom.eq_def]
  split
  · rename_i quote
    exact absurd (List.cons.inj quote).1 (inside rfl)
  · rename_i same
    obtain ⟨rfl, rfl⟩ := List.cons.inj same
    rw [steps]
    rfl
  · contradiction

/-- A backslash begins an escape. -/
theorem scanStringFrom_backslash (found : List Char) :
    scanStringFrom .between found ('\\' :: rest) = scanStringFrom (.escape none) found rest :=
  scanStringFrom_step (fun _ => by decide) rfl

/-- The character that a letter after a backslash stands for. -/
theorem scanStringFrom_letter {found : List Char} {letter c : Char} (noUnit : letter ≠ 'u')
    (stands : letterEscape? letter = some c) :
    scanStringFrom .between found ('\\' :: letter :: rest) =
      scanStringFrom .between (c :: found) rest := by
  have letterStep : stringStep (.escape none) found letter = some (.between, c :: found) := by
    simp [stringStep, noUnit, stands]
  exact (scanStringFrom_backslash found).trans (scanStringFrom_step nofun letterStep)

/-- A hexadecimal digit of a unit, other than the last one. -/
theorem scanStringFrom_digit {found : List Char} (n digits value : Nat) :
    scanStringFrom (.unit none (digits + 1) value) found (Nat.digitChar (n % 16) :: rest) =
      scanStringFrom (.unit none digits (16 * value + n % 16)) found rest := by
  have below : n % 16 < 16 := Nat.mod_lt n (by omega)
  refine scanStringFrom_step nofun ?_
  simp [stringStep, Text.hexValue?_digitChar below]

/-- The last hexadecimal digit of a unit that is no half of a pair. -/
theorem scanStringFrom_lastDigit {found : List Char} {n value unit : Nat}
    (total : 16 * value + n % 16 = unit) (noHalf : unit < 0xd800) :
    scanStringFrom (.unit none 0 value) found (Nat.digitChar (n % 16) :: rest) =
      scanStringFrom .between (Char.ofNat unit :: found) rest := by
  have below : n % 16 < 16 := Nat.mod_lt n (by omega)
  have noHigh : ¬ (0xd800 ≤ unit ∧ unit < 0xdc00) := by omega
  have noLow : ¬ (0xdc00 ≤ unit ∧ unit < 0xe000) := by omega
  refine scanStringFrom_step nofun ?_
  simp only [stringStep, Text.hexValue?_digitChar below, Option.bind_eq_bind, Option.bind_some,
    total, afterUnit, if_neg noHigh, if_neg noLow]

/-- A unit below the space, in four hexadecimal digits. -/
theorem scanStringFrom_unitEscape {found : List Char} {unit : Nat} (below : unit < 0x20) :
    scanStringFrom .between found (unitEscape unit ++ rest) =
      scanStringFrom .between (Char.ofNat unit :: found) rest := by
  simp only [unitEscape, Text.hexDigits, List.nil_append, List.cons_append]
  calc
    _ = _ := scanStringFrom_backslash found
    _ = scanStringFrom (.unit none 3 0) found _ := scanStringFrom_step nofun rfl
    _ = _ := scanStringFrom_digit (unit / 16 / 16 / 16) 2 0
    _ = _ := scanStringFrom_digit (unit / 16 / 16) 1 _
    _ = _ := scanStringFrom_digit (unit / 16) 0 _
    _ = _ := scanStringFrom_lastDigit (by omega) (by omega)

/-- Reading the escape of a character gives the character. -/
theorem scanStringFrom_escape (c : Char) (found : List Char) :
    scanStringFrom .between found (escape c ++ rest) =
      scanStringFrom .between (c :: found) rest := by
  -- a character that is told by its number
  have numbered {n : Nat} (same : c.toNat = n) : Char.ofNat n = c := same ▸ Char.ofNat_toNat c
  unfold escape
  split
  case isTrue quote => exact scanStringFrom_letter (by decide) (by rw [quote]; rfl)
  split
  case isTrue backslash => exact scanStringFrom_letter (by decide) (by rw [backslash]; rfl)
  split
  case isTrue backspace =>
    exact scanStringFrom_letter (by decide) (by rw [← numbered backspace]; rfl)
  split
  case isTrue formFeed => exact scanStringFrom_letter (by decide) (by rw [← numbered formFeed]; rfl)
  split
  case isTrue lineFeed => exact scanStringFrom_letter (by decide) (by rw [lineFeed]; rfl)
  split
  case isTrue carriageReturn =>
    exact scanStringFrom_letter (by decide) (by rw [carriageReturn]; rfl)
  split
  case isTrue tab => exact scanStringFrom_letter (by decide) (by rw [tab]; rfl)
  rename_i noQuote noBackslash _ _ _ _ _
  split
  case isTrue control =>
    rw [scanStringFrom_unitEscape control, Char.ofNat_toNat]
  case isFalse other =>
    have plainStep : stringStep .between found c = some (.between, c :: found) := by
      simp [stringStep, noBackslash, other]
    exact scanStringFrom_step (fun _ => noQuote) plainStep

/-- A string is read back. -/
theorem scanString_printString (value : String) (rest : List Char) :
    scanString (printString escape value ++ rest) = some (value, rest) := by
  have characters (chars found : List Char) :
      scanStringFrom .between found (chars.flatMap escape ++ '"' :: rest) =
        some (String.ofList (found.reverse ++ chars), rest) := by
    induction chars generalizing found with
    | nil => simp [scanStringFrom]
    | cons c chars ih =>
        rw [List.flatMap_cons, List.append_assoc, scanStringFrom_escape, ih]
        simp
  have all := characters value.toList []
  rw [List.reverse_nil, List.nil_append, String.ofList_toList] at all
  rw [printString, List.append_assoc, List.cons_append, scanString]
  exact all

end Strings

/-! ## Arrays and objects -/

section Containers

variable {limits : Limits} {rest : List Char}

/-- What a printed document begins with: neither a blank nor the end of a container. -/
def BeginsValue (text : List Char) : Prop :=
  ∃ c more, text = c :: more ∧ isSpace c = false ∧ c ≠ ']' ∧ c ≠ '}'

theorem BeginsValue.skipSpace {text : List Char} (begins : BeginsValue text) :
    skipSpace text = text := by
  obtain ⟨c, more, rfl, noSpace, -, -⟩ := begins
  simp [Json.skipSpace, noSpace]

theorem beginsValue_print {json : Json} (plain : json.Plain) (rest : List Char) :
    BeginsValue (json.print escape ++ rest) := by
  cases plain with
  | null => exact ⟨'n', _, rfl, rfl, by decide, by decide⟩
  | @bool value => cases value <;> exact ⟨_, _, rfl, rfl, by decide, by decide⟩
  | @int value fits =>
      obtain ⟨c, more, begins, front⟩ := Decimal.exists_toList_text value
      refine ⟨c, more ++ rest, by rw [print, begins]; rfl, ?_⟩
      rcases front with digit | rfl
      · exact not_mark_of_isDigit digit
      · decide
  | string => exact ⟨'"', _, rfl, rfl, by decide, by decide⟩
  | @array items all => cases items <;> exact ⟨'[', _, rfl, rfl, by decide, by decide⟩
  | @object members all =>
      rcases members with _ | ⟨⟨name, value⟩, others⟩ <;>
        exact ⟨'{', _, rfl, rfl, by decide, by decide⟩

/-- A scanner reads a printed document back when it is nested less deep than a bound, and refuses
it otherwise. -/
def ReadsBack (scan : Scanner Json) (bound : Nat) (json : Json) : Prop :=
  ∀ rest, EndsNumber rest →
    scan (json.print escape ++ rest) = if json.depth < bound then some (json, rest) else none

variable {scan : Scanner Json} {bound : Nat}

/-- An item after a comma. -/
theorem scanItems_comma (room : Nat) (found : List Json) {text : List Char}
    (begins : BeginsValue text) :
    scanItems scan (room + 1) found (',' :: text) =
      (scan text).bind fun next => scanItems scan room (next.1 :: found) next.2 := by
  have here : scanItems scan (room + 1) found (',' :: text) =
      (scan (skipSpace text)).bind fun next => scanItems scan room (next.1 :: found) next.2 := rfl
  rw [here, begins.skipSpace]

/-- The rest of an array is read back when none of its items is nested too deep. -/
theorem scanItems_printItems {items : List Json} (plain : ∀ item ∈ items, item.Plain)
    (reads : ∀ item ∈ items, ReadsBack scan bound item) (rest : List Char) (room : Nat)
    (found : List Json) (enough : items.length < room) :
    scanItems scan room found (printItems escape items ++ rest) =
      if ∀ item ∈ items, item.depth < bound then some (.array (found.reverse ++ items), rest)
      else none := by
  induction items generalizing room found with
  | nil =>
      obtain ⟨room, rfl⟩ := Nat.exists_eq_succ_of_ne_zero (Nat.ne_zero_of_lt enough)
      simp only [printItems, List.not_mem_nil, false_implies, implies_true, if_true,
        List.append_nil]
      rfl
  | cons item items ih =>
      obtain ⟨room, rfl⟩ := Nat.exists_eq_succ_of_ne_zero (Nat.ne_zero_of_lt enough)
      obtain ⟨plainItem, plain⟩ := List.forall_mem_cons.mp plain
      obtain ⟨readsItem, reads⟩ := List.forall_mem_cons.mp reads
      have later := ih plain reads room (item :: found) (Nat.lt_of_succ_lt_succ enough)
      simp only [printItems, List.cons_append, List.append_assoc]
      rw [scanItems_comma room found (beginsValue_print plainItem _),
        readsItem _ (endsNumber_printItems items rest)]
      by_cases shallow : item.depth < bound
      · simp only [shallow, if_true, Option.bind_some, later, List.forall_mem_cons, true_and,
          List.reverse_cons, List.append_assoc, List.cons_append, List.nil_append]
      · simp only [shallow, if_false, Option.bind_none, List.forall_mem_cons, false_and]

/-- Printed items take a comma each, and more. -/
theorem length_lt_printItems (items : List Json) :
    items.length < (printItems escape items).length := by
  induction items with
  | nil => exact Nat.zero_lt_one
  | cons item items ih =>
      rw [printItems, List.length_append, List.length_cons, List.length_cons]
      omega

theorem scanArray_of_begins {text : List Char} (begins : BeginsValue text) :
    scanArray scan text =
      (scan text).bind fun next => scanItems scan (next.2.length + 1) [next.1] next.2 := by
  unfold scanArray
  rw [begins.skipSpace]
  obtain ⟨c, more, rfl, -, noEnd, -⟩ := begins
  split
  · rename_i ended
    exact absurd (List.cons.inj ended).1 noEnd
  · rfl

/-- An array is read back when none of its items is nested too deep. -/
theorem scanArray_print {items : List Json} (plain : ∀ item ∈ items, item.Plain)
    (reads : ∀ item ∈ items, ReadsBack scan bound item) :
    scanValueWith limits scan ((Json.array items).print escape ++ rest) =
      if ∀ item ∈ items, item.depth < bound then some (.array items, rest) else none := by
  cases items with
  | nil =>
      simp only [List.not_mem_nil, false_implies, implies_true, if_true]
      rfl
  | cons item items =>
      obtain ⟨plainItem, plain⟩ := List.forall_mem_cons.mp plain
      obtain ⟨readsItem, reads⟩ := List.forall_mem_cons.mp reads
      have enough : items.length < (printItems escape items ++ rest).length + 1 := by
        have := length_lt_printItems items
        rw [List.length_append]
        omega
      have later := scanItems_printItems plain reads rest _ [item] enough
      simp only [print, List.cons_append, List.append_assoc]
      refine (scanArray_of_begins (beginsValue_print plainItem _)).trans ?_
      rw [readsItem _ (endsNumber_printItems items rest)]
      by_cases shallow : item.depth < bound
      · simp only [shallow, if_true, Option.bind_some, later, List.forall_mem_cons, true_and,
          List.reverse_cons, List.reverse_nil, List.cons_append, List.nil_append]
      · simp only [shallow, if_false, Option.bind_none, List.forall_mem_cons, false_and]

/-- A member is read back when its value is not nested too deep. -/
theorem scanMember_print (name : String) {value : Json} (plain : value.Plain)
    (reads : ReadsBack scan bound value) (ends : EndsNumber rest) :
    scanMember scan (printString escape name ++ ':' :: (value.print escape ++ rest)) =
      if value.depth < bound then some ((name, value), rest) else none := by
  have colon (text : List Char) : skipSpace (':' :: text) = ':' :: text := rfl
  simp only [scanMember, scanString_printString, Option.bind_eq_bind, Option.bind_some, colon,
    (beginsValue_print plain rest).skipSpace, reads rest ends]
  split <;> rfl

/-- A member after a comma. -/
theorem scanMembers_comma (room : Nat) (found : List (String × Json)) (name : String)
    (text : List Char) :
    scanMembers scan (room + 1) found (',' :: (printString escape name ++ text)) =
      (scanMember scan (printString escape name ++ text)).bind fun next =>
        scanMembers scan room (next.1 :: found) next.2 :=
  rfl

/-- The rest of an object is read back when none of its values is nested too deep. -/
theorem scanMembers_printMembers {members : List (String × Json)}
    (plain : ∀ member ∈ members, member.2.Plain)
    (reads : ∀ member ∈ members, ReadsBack scan bound member.2) (rest : List Char) (room : Nat)
    (found : List (String × Json)) (enough : members.length < room) :
    scanMembers scan room found (printMembers escape members ++ rest) =
      if ∀ member ∈ members, member.2.depth < bound then
        some (.object (found.reverse ++ members), rest)
      else none := by
  induction members generalizing room found with
  | nil =>
      obtain ⟨room, rfl⟩ := Nat.exists_eq_succ_of_ne_zero (Nat.ne_zero_of_lt enough)
      simp only [printMembers, List.not_mem_nil, false_implies, implies_true, if_true,
        List.append_nil]
      rfl
  | cons member members ih =>
      obtain ⟨name, value⟩ := member
      obtain ⟨room, rfl⟩ := Nat.exists_eq_succ_of_ne_zero (Nat.ne_zero_of_lt enough)
      obtain ⟨plainValue, plain⟩ := List.forall_mem_cons.mp plain
      obtain ⟨readsValue, reads⟩ := List.forall_mem_cons.mp reads
      have later := ih plain reads room ((name, value) :: found) (Nat.lt_of_succ_lt_succ enough)
      simp only [printMembers, List.cons_append, List.append_assoc]
      rw [scanMembers_comma,
        scanMember_print name plainValue readsValue (endsNumber_printMembers members rest)]
      by_cases shallow : value.depth < bound
      · simp only [shallow, if_true, Option.bind_some, later, List.forall_mem_cons, true_and,
          List.reverse_cons, List.append_assoc, List.cons_append, List.nil_append]
      · simp only [shallow, if_false, Option.bind_none, List.forall_mem_cons, false_and]

/-- Printed members take a comma each, and more. -/
theorem length_lt_printMembers (members : List (String × Json)) :
    members.length < (printMembers escape members).length := by
  induction members with
  | nil => exact Nat.zero_lt_one
  | cons member members ih =>
      rw [printMembers, List.length_append, List.cons_append, List.length_cons, List.length_cons]
      omega

theorem scanObject_of_name (name : String) (text : List Char) :
    scanObject scan (printString escape name ++ text) =
      (scanMember scan (printString escape name ++ text)).bind fun next =>
        scanMembers scan (next.2.length + 1) [next.1] next.2 :=
  rfl

/-- An object is read back when none of its values is nested too deep. -/
theorem scanObject_print {members : List (String × Json)}
    (plain : ∀ member ∈ members, member.2.Plain)
    (reads : ∀ member ∈ members, ReadsBack scan bound member.2) :
    scanValueWith limits scan ((Json.object members).print escape ++ rest) =
      if ∀ member ∈ members, member.2.depth < bound then some (.object members, rest)
      else none := by
  rcases members with _ | ⟨⟨name, value⟩, members⟩
  · simp only [List.not_mem_nil, false_implies, implies_true, if_true]
    rfl
  · obtain ⟨plainValue, plain⟩ := List.forall_mem_cons.mp plain
    obtain ⟨readsValue, reads⟩ := List.forall_mem_cons.mp reads
    have enough : members.length < (printMembers escape members ++ rest).length + 1 := by
      have := length_lt_printMembers members
      rw [List.length_append]
      omega
    have later := scanMembers_printMembers plain reads rest _ [(name, value)] enough
    simp only [print, List.cons_append, List.append_assoc]
    refine (scanObject_of_name name _).trans ?_
    rw [scanMember_print name plainValue readsValue (endsNumber_printMembers members rest)]
    by_cases shallow : value.depth < bound
    · simp only [shallow, if_true, Option.bind_some, later, List.forall_mem_cons, true_and,
        List.reverse_cons, List.reverse_nil, List.cons_append, List.nil_append]
    · simp only [shallow, if_false, Option.bind_none, List.forall_mem_cons, false_and]

end Containers

/-! ## Whole documents -/

section Documents

variable {limits : Limits}

/-- A printed document is read back, given a scanner that reads what is inside it back. -/
theorem scanValueWith_print (enough : Decimal.maxDigits ≤ limits.digits) {inner : Scanner Json}
    {bound : Nat} (reads : ∀ {json : Json}, json.Plain → ReadsBack inner bound json) {json : Json}
    (plain : json.Plain) : ReadsBack (scanValueWith limits inner) (bound + 1) json := by
  intro rest ends
  simp only [Nat.lt_succ_iff]
  cases plain with
  | null => exact (if_pos (Nat.zero_le bound)).symm
  | @bool value => cases value <;> exact (if_pos (Nat.zero_le bound)).symm
  | int fits =>
      exact (scanValueWith_int inner fits enough ends).trans (if_pos (Nat.zero_le bound)).symm
  | @string value =>
      have read := scanString_printString value rest
      have scanned : scanValueWith limits inner (printString escape value ++ rest) =
          (scanString (printString escape value ++ rest)).map fun scanned =>
            (.string scanned.1, scanned.2) := rfl
      rw [print, scanned, read]
      exact (if_pos (Nat.zero_le bound)).symm
  | array all =>
      simp only [depth_array_le]
      exact scanArray_print all fun item listed => reads (all item listed)
  | object all =>
      simp only [depth_object_le]
      exact scanObject_print all fun member listed => reads (all member listed)

/-- A printed document is read back, whatever follows it, unless it is nested too deep. -/
theorem scanValue_print (enough : Decimal.maxDigits ≤ limits.digits) (depth : Nat) {json : Json}
    (plain : json.Plain) : ReadsBack (scanValue limits depth) (depth + 1) json := by
  induction depth generalizing json with
  | zero => exact scanValueWith_print enough (fun _ _ _ => (if_neg (Nat.not_lt_zero _)).symm) plain
  | succ depth ih => exact scanValueWith_print enough ih plain

/-- The text of a document holds that document, unless it is nested too deep. -/
theorem read?_print (enough : Decimal.maxDigits ≤ limits.digits) {json : Json}
    (plain : json.Plain) :
    read? limits (json.print escape) = if json.depth ≤ limits.depth then some json else none := by
  have begins := (beginsValue_print plain []).skipSpace
  have scanned := scanValue_print enough limits.depth plain [] endsNumber_nil
  rw [List.append_nil] at begins scanned
  rw [read?, begins, scanned]
  simp only [Nat.lt_succ_iff]
  split <;> rfl

end Documents

end Json

end ScriptTree
