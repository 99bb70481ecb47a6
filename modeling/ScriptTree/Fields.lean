/-!
Fields: a finite map from names to values that remembers in which order its names were first
bound. Objects keep their bindings in one, and so do the objects of a document.

Binding a name again keeps its place and replaces its value (`keys_put_of_mem`), a new name comes
last (`keys_put_of_not_mem`); so no name is ever listed twice (`nodup_keys_put`) and a name reads
back the value it was given last (`get?_put_self`, `get?_put_of_ne`).
-/

namespace ScriptTree

/-- Bindings, in the order in which their names were first bound. -/
abbrev Fields (α : Type) := List (String × α)

namespace Fields

variable {α : Type}

/-- The value bound to `key`, if there is one. -/
def get? : Fields α → String → Option α
  | [], _ => none
  | (k, v) :: rest, key => if k = key then some v else get? rest key

/-- Binds `key` to `value`: a bound name keeps its place, a new one comes last. -/
def put : Fields α → String → α → Fields α
  | [], key, value => [(key, value)]
  | (k, v) :: rest, key, value =>
      if k = key then (k, value) :: rest else (k, v) :: put rest key value

/-- The bound names, in the order of their first binding. -/
def keys (fields : Fields α) : List String :=
  fields.map Prod.fst

/-- Binds each pair after the one before it, onto bindings that are already there. -/
def putAll (fields : Fields α) (pairs : List (String × α)) : Fields α :=
  pairs.foldl (fun acc pair => acc.put pair.1 pair.2) fields

/-- The bindings that binding each pair in turn leaves. -/
def ofList (pairs : List (String × α)) : Fields α :=
  putAll [] pairs

/-! ## Reading back -/

@[simp] theorem get?_nil (key : String) : get? ([] : Fields α) key = none := rfl

theorem get?_cons (k : String) (v : α) (rest : Fields α) (key : String) :
    get? ((k, v) :: rest) key = if k = key then some v else get? rest key := rfl

/-- A name reads back the value bound to it last. -/
@[simp] theorem get?_put_self (fields : Fields α) (key : String) (value : α) :
    (fields.put key value).get? key = some value := by
  induction fields with
  | nil => simp [put, get?]
  | cons pair rest ih =>
      by_cases same : pair.1 = key
      · simp [put, get?, same]
      · simpa [put, get?, same] using ih

/-- Binding one name leaves what the others read. -/
theorem get?_put_of_ne (fields : Fields α) {key other : String} (value : α)
    (differs : other ≠ key) : (fields.put key value).get? other = fields.get? other := by
  induction fields with
  | nil => simp [put, get?, differs.symm]
  | cons pair rest ih =>
      by_cases same : pair.1 = key
      · subst same
        simp [put, get?, differs.symm]
      · by_cases hit : pair.1 = other
        · simp [put, get?, hit, differs]
        · simpa [put, get?, same, hit] using ih

/-- Binding others in turn leaves what a name reads. -/
theorem get?_putAll_of_not_mem (fields : Fields α) {pairs : List (String × α)} {key : String}
    (absent : key ∉ pairs.map Prod.fst) : (fields.putAll pairs).get? key = fields.get? key := by
  induction pairs generalizing fields with
  | nil => rfl
  | cons pair rest ih =>
      rw [List.map_cons, List.mem_cons, not_or] at absent
      exact (ih (fields.put pair.1 pair.2) absent.2).trans (get?_put_of_ne fields _ absent.1)

/-- Of the bindings made in turn, a name reads back the last that is its own. -/
theorem get?_putAll_of_last (fields : Fields α) (before : List (String × α))
    {after : List (String × α)} {key : String} (value : α) (last : key ∉ after.map Prod.fst) :
    (fields.putAll (before ++ (key, value) :: after)).get? key = some value := by
  have split : fields.putAll (before ++ (key, value) :: after) =
      ((fields.putAll before).put key value).putAll after := List.foldl_append
  rw [split, get?_putAll_of_not_mem _ last, get?_put_self]

/-- A name is bound exactly when it is listed. -/
theorem get?_isSome_iff (fields : Fields α) (key : String) :
    (fields.get? key).isSome ↔ key ∈ fields.keys := by
  induction fields with
  | nil => simp [keys]
  | cons pair rest ih =>
      by_cases same : pair.1 = key
      · simp [get?, keys, same]
      · have swapped : ¬ key = pair.1 := fun h => same h.symm
        simpa [get?, keys, same, swapped] using ih

/-! ## The order of the names -/

/-- Binding a name that is listed keeps the list of names. -/
theorem keys_put_of_mem (fields : Fields α) {key : String} (value : α)
    (bound : key ∈ fields.keys) : (fields.put key value).keys = fields.keys := by
  induction fields with
  | nil => simp [keys] at bound
  | cons pair rest ih =>
      by_cases same : pair.1 = key
      · simp [put, keys, same]
      · have later : key ∈ keys rest := by
          rcases List.mem_cons.mp bound with here | later
          · exact absurd here.symm same
          · exact later
        simpa [put, keys, same] using ih later

/-- Binding a new name lists it last. -/
theorem keys_put_of_not_mem (fields : Fields α) {key : String} (value : α)
    (fresh : key ∉ fields.keys) : (fields.put key value).keys = fields.keys ++ [key] := by
  induction fields with
  | nil => simp [put, keys]
  | cons pair rest ih =>
      have differs : ¬ pair.1 = key := fun h => fresh (by simp [keys, h])
      have later : key ∉ keys rest := fun h => fresh (List.mem_cons_of_mem _ h)
      simpa [put, keys, differs] using ih later

/-- No binding is lost: the names listed before stay, in their order, at the front. -/
theorem keys_prefix_keys_put (fields : Fields α) (key : String) (value : α) :
    fields.keys <+: (fields.put key value).keys := by
  by_cases bound : key ∈ fields.keys
  · exact (keys_put_of_mem fields value bound).symm ▸ List.prefix_refl _
  · exact (keys_put_of_not_mem fields value bound).symm ▸ List.prefix_append _ _

/-- No name is listed twice. -/
theorem nodup_keys_put (fields : Fields α) (key : String) (value : α)
    (nodup : fields.keys.Nodup) : (fields.put key value).keys.Nodup := by
  by_cases bound : key ∈ fields.keys
  · rwa [keys_put_of_mem fields value bound]
  · rw [keys_put_of_not_mem fields value bound]
    refine List.nodup_append.mpr ⟨nodup, by simp, ?_⟩
    intro a listed b last
    rw [List.mem_singleton] at last
    rintro rfl
    exact bound (last ▸ listed)

/-- Bindings made in turn list no name twice. -/
theorem nodup_keys_ofList (pairs : List (String × α)) : (ofList pairs).keys.Nodup := by
  have onto (fields : Fields α) (nodup : fields.keys.Nodup) :
      (fields.putAll pairs).keys.Nodup := by
    induction pairs generalizing fields with
    | nil => exact nodup
    | cons pair rest ih => exact ih _ (nodup_keys_put fields pair.1 pair.2 nodup)
  exact onto [] .nil

/-- Bindings made in turn list the names in the order in which they come first. -/
theorem keys_putAll (fields : Fields α) (pairs : List (String × α)) :
    (fields.putAll pairs).keys =
      fields.keys ++ ((pairs.map Prod.fst).filter (· ∉ fields.keys)).eraseDups := by
  induction pairs generalizing fields with
  | nil => simp [putAll]
  | cons pair rest ih =>
      have onto : fields.putAll (pair :: rest) = (fields.put pair.1 pair.2).putAll rest := rfl
      rw [onto, ih, List.map_cons]
      by_cases bound : pair.1 ∈ fields.keys
      · rw [keys_put_of_mem fields _ bound, List.filter_cons_of_neg (by simpa using bound)]
      · rw [keys_put_of_not_mem fields _ bound, List.filter_cons_of_pos (by simpa using bound),
          List.eraseDups_cons, List.filter_filter, List.append_assoc, List.singleton_append]
        congr 4
        funext name
        rw [Bool.eq_iff_iff]
        simp [and_comm]

theorem keys_ofList (pairs : List (String × α)) :
    (ofList pairs).keys = (pairs.map Prod.fst).eraseDups := by
  rw [ofList, keys_putAll]
  exact congrArg List.eraseDups (List.filter_eq_self.mpr fun _ _ => rfl)

/-- A new name is bound after all others. -/
theorem put_of_not_mem (fields : Fields α) {key : String} (value : α)
    (fresh : key ∉ fields.keys) : fields.put key value = fields ++ [(key, value)] := by
  induction fields with
  | nil => rfl
  | cons pair rest ih =>
      have differs : ¬ pair.1 = key := fun same => fresh (same ▸ List.mem_cons_self)
      have later : key ∉ keys rest := fun listed => fresh (List.mem_cons_of_mem _ listed)
      rw [put, if_neg differs, ih later, List.cons_append]

/-- Bindings of names that are all different stay as they stand, after those before them. -/
theorem putAll_of_nodup {fields : Fields α} {pairs : List (String × α)}
    (nodup : (keys (fields ++ pairs)).Nodup) : fields.putAll pairs = fields ++ pairs := by
  induction pairs generalizing fields with
  | nil => exact (List.append_nil fields).symm
  | cons pair rest ih =>
      have fresh : pair.1 ∉ fields.keys := by
        rw [keys, List.map_append] at nodup
        exact fun listed =>
          (List.nodup_append.mp nodup).2.2 pair.1 listed pair.1 List.mem_cons_self rfl
      have moved : fields ++ pair :: rest = fields ++ [pair] ++ rest := by simp
      have step : fields.putAll (pair :: rest) = (fields ++ [pair]).putAll rest := by
        rw [← put_of_not_mem fields pair.2 fresh]
        rfl
      rw [moved] at nodup ⊢
      rw [step, ih nodup]

theorem ofList_of_nodup {pairs : List (String × α)} (nodup : (keys pairs).Nodup) :
    ofList pairs = pairs :=
  putAll_of_nodup nodup

/-! ## The values that are bound -/

section Values

variable {P : α → Prop}

/-- What holds of the values that are bound, and of a new one, holds after it is bound. -/
theorem forall_put {fields : Fields α} {key : String} {value : α}
    (all : ∀ binding ∈ fields, P binding.2) (new : P value) :
    ∀ binding ∈ fields.put key value, P binding.2 := by
  induction fields with
  | nil =>
      intro binding bound
      rw [put, List.mem_singleton] at bound
      exact bound ▸ new
  | cons first rest ih =>
      intro binding bound
      rw [put] at bound
      split at bound
      · rcases List.mem_cons.mp bound with rfl | later
        · exact new
        · exact all binding (List.mem_cons_of_mem _ later)
      · rcases List.mem_cons.mp bound with rfl | later
        · exact all _ List.mem_cons_self
        · exact ih (fun b listed => all b (List.mem_cons_of_mem _ listed)) binding later

theorem forall_putAll {fields : Fields α} {pairs : List (String × α)}
    (all : ∀ binding ∈ fields, P binding.2) (new : ∀ pair ∈ pairs, P pair.2) :
    ∀ binding ∈ fields.putAll pairs, P binding.2 := by
  induction pairs generalizing fields with
  | nil => exact all
  | cons pair rest ih =>
      exact ih (forall_put all (new pair List.mem_cons_self))
        fun p listed => new p (List.mem_cons_of_mem _ listed)

theorem forall_ofList {pairs : List (String × α)} (new : ∀ pair ∈ pairs, P pair.2) :
    ∀ binding ∈ ofList pairs, P binding.2 :=
  forall_putAll (fun _ bound => absurd bound List.not_mem_nil) new

end Values

end Fields

end ScriptTree
