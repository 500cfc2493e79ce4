import Mathlib.Data.List.Induction
import RecordFilter.Proofs.Dictionaries
import RecordFilter.Proofs.Folding
import RecordFilter.Schema
/-!
# What a schema holds

A schema is made by registering columns one after another.  Some registrations add a column and the
others change nothing (`register_step`), so that the two indexes of the schema can be read off the
list of those that did (`Registered`, `registered_registerAll`).
-/

namespace RecordFilter

structure Registration where
  space : String
  short : String
  type : ColumnType
deriving DecidableEq, Repr

namespace Registration

def name (r : Registration) : String :=
  Schema.qualify (Text.trimmed r.space) (Text.trimmed r.short)

def column (r : Registration) : Column := ⟨r.name, r.type⟩

def key (r : Registration) : String := Text.fold r.name

def shortKey (r : Registration) : String := Text.fold r.short

@[simp] theorem column_name (r : Registration) : r.column.name = r.name := by
  rw [column]

theorem fold_column_name (r : Registration) : Text.fold r.column.name = r.key := by
  rw [column_name, key]

theorem key_eq_of_column_eq {r r' : Registration} (h : r.column = r'.column) : r.key = r'.key := by
  simp only [column, Column.mk.injEq] at h
  rw [key, key, h.1]

end Registration

namespace Schema

variable {s : Schema} {rs : List Registration} {r c : Registration} {key : String}

def registerAll (s : Schema) (rs : List Registration) : Schema :=
  rs.foldl (fun s r => (s.register r.space r.short r.type).1) s

theorem registerAll_cons (s : Schema) (r : Registration) (rest : List Registration) :
    s.registerAll (r :: rest) = (s.register r.space r.short r.type).1.registerAll rest := by
  rw [registerAll, List.foldl_cons, ← registerAll]

/-- What every registration preserves holds after any number of them. -/
theorem registerAll_induction {P : Schema → Prop}
    (hstep : ∀ (s : Schema) (r : Registration), P s → P (s.register r.space r.short r.type).1)
    {s : Schema} (h : P s) (rs : List Registration) : P (s.registerAll rs) := by
  induction rs generalizing s with
  | nil => exact h
  | cons r rest ih =>
    rw [registerAll_cons]
    exact ih (hstep s r h)

/-- The registrations that add a column, of those made one after another. -/
def added (s : Schema) : List Registration → List Registration
  | [] => []
  | r :: rest =>
    let next := (s.register r.space r.short r.type).1
    if (s.register r.space r.short r.type).2 then r :: added next rest else added next rest

/-- A registration is refused for a blank short name or a key that is taken, and otherwise
changes both indexes. -/
theorem register_eq (s : Schema) (r : Registration) :
    s.register r.space r.short r.type =
      if Text.trimmed r.short = "" ∨ s.columns.contains r.key = true then (s, false)
      else
        (⟨s.columns.insert r.key r.column, s.owners.insert r.shortKey
          (insertName (Text.trimmed r.space) ((s.owners.find? r.shortKey).getD []))⟩, true) := by
  simp only [register, Bool.or_eq_true, String.isEmpty_iff, Text.fold_trimmed]
  rfl

/-! ### The owners of a short name -/

/-- The namespaces that own a short name, in ascending order. -/
def ownersOf (rs : List Registration) (key : String) : List String :=
  ((rs.filter fun r => r.shortKey == key).map fun r => Text.trimmed r.space).foldl
    (fun owners space => insertName space owners) []

theorem insertName_ne_nil (name : String) (names : List String) : insertName name names ≠ [] := by
  cases names with
  | nil => simp [insertName]
  | cons n rest =>
    rw [insertName]
    split <;> simp

theorem foldl_insertName_ne_nil (spaces : List String) {owners : List String} (h : owners ≠ []) :
    spaces.foldl (fun owners space => insertName space owners) owners ≠ [] := by
  induction spaces generalizing owners with
  | nil => exact h
  | cons space rest ih => exact ih (insertName_ne_nil space owners)

theorem ownersOf_ne_nil_iff : ownersOf rs key ≠ [] ↔ ∃ r ∈ rs, r.shortKey = key := by
  rw [ownersOf]
  cases hfilter : rs.filter fun r => r.shortKey == key with
  | nil =>
    have hnone : ∀ r ∈ rs, r.shortKey ≠ key := by simpa using List.filter_eq_nil_iff.mp hfilter
    simpa using hnone
  | cons r rest =>
    have hr : r ∈ rs.filter fun r => r.shortKey == key := by
      rw [hfilter]
      exact List.mem_cons_self ..
    obtain ⟨hmem, hkey⟩ := List.mem_filter.mp hr
    constructor
    · intro _
      exact ⟨r, hmem, beq_iff_eq.mp hkey⟩
    · intro _
      rw [List.map_cons, List.foldl_cons]
      exact foldl_insertName_ne_nil _ (insertName_ne_nil _ [])

theorem mem_insertName {n name : String} {names : List String} :
    n ∈ insertName name names ↔ n = name ∨ n ∈ names := by
  induction names with
  | nil => simp [insertName]
  | cons m rest ih =>
    rw [insertName]
    split
    · rw [List.mem_cons]
    · rw [List.mem_cons, List.mem_cons, ih, or_left_comm]

theorem ownersOf_concat (rs : List Registration) (r : Registration) (key : String) :
    ownersOf (rs ++ [r]) key =
      if key = r.shortKey then insertName (Text.trimmed r.space) (ownersOf rs key)
      else ownersOf rs key := by
  by_cases h : key = r.shortKey
  · simp [ownersOf, h]
  · simp [ownersOf, h, Ne.symm h]

/-- The owners of a short name are the namespaces of columns of that name. -/
theorem exists_of_mem_ownersOf {space : String} (h : space ∈ ownersOf rs key) :
    ∃ r ∈ rs, r.shortKey = key ∧ Text.trimmed r.space = space := by
  -- The owners are collected from the first registration on, so the last one is split off.
  induction rs using List.reverseRecOn with
  | nil => simp [ownersOf] at h
  | append_singleton rs r ih =>
    have hbefore : space ∈ ownersOf rs key →
        ∃ d ∈ rs ++ [r], d.shortKey = key ∧ Text.trimmed d.space = space := by
      intro hmem
      obtain ⟨d, hd, hnames⟩ := ih hmem
      exact ⟨d, List.mem_append_left _ hd, hnames⟩
    rw [ownersOf_concat] at h
    split at h
    next hkey =>
      rcases mem_insertName.mp h with rfl | h
      · exact ⟨r, by simp, hkey.symm, rfl⟩
      · exact hbefore h
    next => exact hbefore h

/-- A short name with one owner. -/
theorem ownersOf_eq_singleton (hkeys : (rs.map Registration.key).Nodup) (hc : c ∈ rs)
    (honly : ∀ d ∈ rs, d ≠ c → d.shortKey ≠ c.shortKey) :
    ownersOf rs c.shortKey = [Text.trimmed c.space] := by
  have hnodup : rs.Nodup := List.Nodup.of_map Registration.key hkeys
  have hone : (rs.filter fun r => r.shortKey == c.shortKey) = [c] := by
    rw [← List.perm_singleton,
      List.perm_ext_iff_of_nodup (hnodup.filter _) (List.nodup_singleton c)]
    intro d
    rw [List.mem_filter, List.mem_singleton, beq_iff_eq]
    constructor
    · rintro ⟨hd, hshort⟩
      by_contra hne
      exact honly d hd hne hshort
    · rintro rfl
      exact ⟨hc, rfl⟩
  rw [ownersOf, hone]
  rfl

/-! ### The two indexes -/

/-- The schema holds the columns of these registrations, and no others. -/
structure Registered (s : Schema) (rs : List Registration) : Prop where
  columns : ∀ key column, s.columns.find? key = some column ↔
    ∃ r ∈ rs, r.key = key ∧ r.column = column
  owners : ∀ key owners, s.owners.find? key = some owners ↔
    owners = ownersOf rs key ∧ owners ≠ []
  distinct : (rs.map Registration.key).Nodup
  shown : ∀ r ∈ rs, Text.trimmed r.short ≠ ""

theorem registered_empty : Registered empty [] where
  columns key column := by simp [empty]
  owners key owners := by simp [empty, ownersOf]
  distinct := .nil
  shown := by simp

theorem Registered.contains_iff (h : Registered s rs) :
    s.columns.contains key = true ↔ ∃ r ∈ rs, r.key = key := by
  rw [Dictionary.contains_iff]
  constructor
  · rintro ⟨column, hcolumn⟩
    obtain ⟨r, hr, hkey, -⟩ := (h.columns key column).mp hcolumn
    exact ⟨r, hr, hkey⟩
  · rintro ⟨r, hr, hkey⟩
    exact ⟨r.column, (h.columns key r.column).mpr ⟨r, hr, hkey, rfl⟩⟩

theorem Registered.getD_owners (h : Registered s rs) (key : String) :
    (s.owners.find? key).getD [] = ownersOf rs key := by
  cases hfind : s.owners.find? key with
  | some owners => exact ((h.owners key owners).mp hfind).1
  | none =>
    by_contra hne
    rw [(h.owners key (ownersOf rs key)).mpr ⟨rfl, Ne.symm hne⟩] at hfind
    cases hfind

/-- A registration adds its column to those that the schema holds, or changes nothing. -/
theorem register_step (h : Registered s rs) (r : Registration) :
    ((s.register r.space r.short r.type).2 = true ∧
        Registered (s.register r.space r.short r.type).1 (rs ++ [r])) ∨
      s.register r.space r.short r.type = (s, false) := by
  rw [register_eq]
  by_cases hknown : Text.trimmed r.short = "" ∨ s.columns.contains r.key = true
  · rw [if_pos hknown]
    exact .inr rfl
  · rw [if_neg hknown]
    -- What is new has a key that no registration had, so the old entries stay.
    rw [not_or, h.contains_iff] at hknown
    obtain ⟨hshown, hnew⟩ := hknown
    refine .inl ⟨rfl, ⟨?_, ?_, ?_, ?_⟩⟩
    · -- Under the key stands the new column, and the others stay where they were.
      intro key column
      rw [Dictionary.find?_insert]
      by_cases hkey : key = r.key
      · subst hkey
        rw [if_pos rfl, Option.some.injEq]
        constructor
        · rintro rfl
          exact ⟨r, by simp, rfl, rfl⟩
        · rintro ⟨d, hd, hdkey, rfl⟩
          rcases List.mem_append.mp hd with hd | hd
          · exact absurd ⟨d, hd, hdkey⟩ hnew
          · rw [List.mem_singleton.mp hd]
      · rw [if_neg hkey, h.columns]
        simp [or_and_right, exists_or, Ne.symm hkey]
    · -- The namespace joins the owners of the short name, and no other owners change.
      intro key owners
      rw [Dictionary.find?_insert, ownersOf_concat, h.getD_owners]
      by_cases hkey : key = r.shortKey
      · subst hkey
        rw [if_pos rfl, if_pos rfl, Option.some.injEq]
        constructor
        · rintro rfl
          exact ⟨rfl, insertName_ne_nil _ _⟩
        · rintro ⟨rfl, -⟩
          rfl
      · rw [if_neg hkey, if_neg hkey, h.owners]
    · rw [List.map_append, List.map_singleton, ← List.concat_eq_append, List.nodup_concat]
      refine ⟨fun hmem => hnew ?_, h.distinct⟩
      simpa using hmem
    · intro d hd
      rcases List.mem_append.mp hd with hd | hd
      · exact h.shown d hd
      · rw [List.mem_singleton.mp hd]
        exact hshown

/-- A run of registrations leaves the schema described by those that took effect. -/
theorem registered_registerAll (rs : List Registration) {before : List Registration}
    (h : Registered s before) : Registered (s.registerAll rs) (before ++ s.added rs) := by
  induction rs generalizing s before with
  | nil => simpa [registerAll, added] using h
  | cons r rest ih =>
    rw [registerAll_cons, added]
    rcases register_step h r with ⟨hnew, hnext⟩ | hsame
    · rw [if_pos hnew, List.append_cons]
      exact ih hnext
    · rw [hsame]
      exact ih h

/-- A schema made from nothing holds the columns that were added to it. -/
theorem registered_added (rs : List Registration) :
    Registered (empty.registerAll rs) (empty.added rs) :=
  registered_registerAll rs registered_empty

theorem mem_of_mem_added (h : r ∈ s.added rs) : r ∈ rs := by
  induction rs generalizing s with
  | nil => cases h
  | cons first rest ih =>
    rw [added] at h
    split at h
    next =>
      rcases List.mem_cons.mp h with rfl | h
      · exact List.mem_cons_self ..
      · exact List.mem_cons_of_mem first (ih h)
    next => exact List.mem_cons_of_mem first (ih h)

theorem contains_register (s : Schema) (r : Registration) (key : String) :
    (s.register r.space r.short r.type).1.columns.contains key = true ↔
      s.columns.contains key = true ∨ Text.trimmed r.short ≠ "" ∧ r.key = key := by
  rw [register_eq]
  by_cases hknown : Text.trimmed r.short = "" ∨ s.columns.contains r.key = true
  · rw [if_pos hknown]
    constructor
    · exact .inl
    · rintro (h | ⟨hshown, rfl⟩)
      · exact h
      · exact hknown.resolve_left hshown
  · rw [if_neg hknown]
    rw [not_or] at hknown
    by_cases hkey : key = r.key
    · simp [Dictionary.contains, hkey, hknown.1]
    · simp [Dictionary.contains, hkey, Ne.symm hkey]

/-- The names of all registrations with a short name are known in the end, added or not. -/
theorem contains_registerAll (s : Schema) (rs : List Registration) (key : String) :
    (s.registerAll rs).columns.contains key = true ↔
      s.columns.contains key = true ∨ ∃ r ∈ rs, Text.trimmed r.short ≠ "" ∧ r.key = key := by
  induction rs generalizing s with
  | nil => simp [registerAll]
  | cons r rest ih =>
    rw [registerAll_cons, ih, contains_register, or_assoc]
    simp

theorem Registered.mem_values_iff {column : Column} (h : Registered s rs) :
    column ∈ s.columns.values ↔ ∃ r ∈ rs, r.column = column := by
  simp [Dictionary.mem_values_iff, h.columns]

theorem Registered.contains_name {column : Column} (h : Registered s rs)
    (hcolumn : column ∈ s.columns.values) : s.contains column.name = true := by
  obtain ⟨r, hr, rfl⟩ := h.mem_values_iff.mp hcolumn
  rw [contains, h.contains_iff]
  exact ⟨r, hr, r.fold_column_name.symm⟩

/-- No two columns have the same qualified name. -/
theorem Registered.eq_of_name_eq {column other : Column} (h : Registered s rs)
    (hcolumn : column ∈ s.columns.values) (hother : other ∈ s.columns.values)
    (hname : column.name = other.name) : column = other := by
  obtain ⟨r, hr, rfl⟩ := h.mem_values_iff.mp hcolumn
  obtain ⟨r', hr', rfl⟩ := h.mem_values_iff.mp hother
  rw [Registration.column_name, Registration.column_name] at hname
  have hkey : r.key = r'.key := by rw [Registration.key, Registration.key, hname]
  rw [List.inj_on_of_nodup_map h.distinct hr hr' hkey]

end Schema

def fileColumns : List Registration := [⟨"", "length", .integer⟩, ⟨"", "hidden", .boolean⟩]

end RecordFilter
