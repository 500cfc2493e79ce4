import Mathlib.Data.List.Sort
import Mathlib.Data.String.Basic
import RecordFilter.Proofs.Lookup
/-!
# The indexes of a schema stay in step

However a schema has been made, its two indexes tell the same story: which columns were added, each
under its own folded name, and which namespaces own a short name (`registerAll_indexes`).  What is in
them stays there: later registrations neither change nor remove a column, so its qualified name finds
it ever after.

The owners of a short name are counted once for every column.  One namespace can own a short name
twice, since two qualified names can differ where the short names do not.
-/

namespace RecordFilter.Schema

variable {s : Schema} {rs : List Registration} {r : Registration} {column : Column}
  {key short : String} {owners : List String}

/-! ### The columns -/

/-- Every column stands under its own name, folded. -/
theorem Registered.find_column_iff_name (h : Registered s rs) :
    s.columns.find? key = some column ↔
      (∃ r ∈ rs, r.column = column) ∧ key = Text.fold column.name := by
  rw [h.columns]
  constructor
  · rintro ⟨r, hr, rfl, rfl⟩
    exact ⟨⟨r, hr, rfl⟩, r.fold_column_name.symm⟩
  · rintro ⟨⟨r, hr, rfl⟩, rfl⟩
    exact ⟨r, hr, r.fold_column_name.symm, rfl⟩

/-! ### One registration -/

/-- A registration succeeds exactly when it has a short name and its qualified name is new. -/
theorem register_eq_true_iff (s : Schema) (r : Registration) :
    (s.register r.space r.short r.type).2 = true ↔
      Text.trimmed r.short ≠ "" ∧ s.contains r.name = false := by
  have hcontains : s.contains r.name = s.columns.contains r.key := by
    rw [contains, Registration.key]
  rw [register_eq, hcontains, ← Bool.not_eq_true, ← not_or]
  by_cases hknown : Text.trimmed r.short = "" ∨ s.columns.contains r.key = true
  · simp [hknown]
  · simp [hknown]

theorem register_of_eq_false (h : (s.register r.space r.short r.type).2 = false) :
    (s.register r.space r.short r.type).1 = s := by
  rw [register_eq] at h ⊢
  split
  next hknown => rfl
  next hknown =>
    rw [if_neg hknown] at h
    cases h

/-- A registration leaves the columns that are there alone. -/
theorem find_column_register (h : s.columns.find? key = some column) (r : Registration) :
    (s.register r.space r.short r.type).1.columns.find? key = some column := by
  rw [register_eq]
  split
  next => exact h
  next hknown =>
    rw [not_or] at hknown
    have hother : key ≠ r.key := by
      rintro rfl
      exact hknown.2 (Dictionary.contains_iff.mpr ⟨column, h⟩)
    rw [Dictionary.find?_insert, if_neg hother]
    exact h

theorem find_column_registerAll (h : s.columns.find? key = some column)
    (more : List Registration) : (s.registerAll more).columns.find? key = some column :=
  registerAll_induction (P := fun s => s.columns.find? key = some column)
    (fun _ r h => find_column_register h r) h more

/-! ### The owners of a short name -/

/-- The namespaces of all columns of a short name, in the order in which these were added. -/
def spacesOf (rs : List Registration) (key : String) : List String :=
  (rs.filter fun r => r.shortKey == key).map fun r => Text.trimmed r.space

theorem insertName_eq_orderedInsert (name : String) (names : List String) :
    insertName name names = names.orderedInsert (· ≤ ·) name := by
  induction names with
  | nil => rfl
  | cons n rest ih => rw [insertName, List.orderedInsert_cons, ih]

theorem perm_insertName (name : String) (names : List String) :
    (insertName name names).Perm (name :: names) := by
  rw [insertName_eq_orderedInsert]
  exact List.perm_orderedInsert _ name names

theorem ascending_insertName (name : String) {names : List String}
    (h : names.Pairwise (· ≤ ·)) : (insertName name names).Pairwise (· ≤ ·) := by
  rw [insertName_eq_orderedInsert]
  exact h.orderedInsert name names

/-- The list of owners is the list of the namespaces, sorted. -/
theorem ownersOf_sorted (rs : List Registration) (key : String) :
    (ownersOf rs key).Pairwise (· ≤ ·) ∧ (ownersOf rs key).Perm (spacesOf rs key) := by
  rw [ownersOf, ← spacesOf]
  induction spacesOf rs key using List.reverseRecOn with
  | nil => exact ⟨.nil, .nil⟩
  | append_singleton spaces space ih =>
    rw [List.foldl_append, List.foldl_cons, List.foldl_nil]
    have hinsert := perm_insertName space
      (spaces.foldl (fun owners space => insertName space owners) [])
    have hconcat := (List.perm_append_singleton space spaces).symm
    exact ⟨ascending_insertName space ih.1, hinsert.trans ((ih.2.cons space).trans hconcat)⟩

/-- The owners of a short name are the namespaces registered with it, as often as they were, in
order. -/
theorem Registered.owners_iff (h : Registered s rs) :
    s.owners.find? key = some owners ↔
      owners ≠ [] ∧ owners.Pairwise (· ≤ ·) ∧ owners.Perm (spacesOf rs key) := by
  obtain ⟨hsorted, hperm⟩ := ownersOf_sorted rs key
  rw [h.owners]
  constructor
  · rintro ⟨rfl, hne⟩
    exact ⟨hne, hsorted, hperm⟩
  · rintro ⟨hne, hascending, hspaces⟩
    exact ⟨(hspaces.trans hperm.symm).eq_of_pairwise' hascending hsorted, hne⟩

/-! ### As many owners as columns -/

theorem register_counted (h : (s.owners.values.map List.length).sum = s.columns.size)
    (r : Registration) :
    ((s.register r.space r.short r.type).1.owners.values.map List.length).sum =
      (s.register r.space r.short r.type).1.columns.size := by
  rw [register_eq]
  split
  next => exact h
  next hknown =>
    rw [not_or, Bool.not_eq_true, Dictionary.contains, Option.isSome_eq_false_iff,
      Option.isNone_iff_eq_none] at hknown
    have howners := Dictionary.sum_insert s.owners List.length r.shortKey
      (insertName (Text.trimmed r.space) ((s.owners.find? r.shortKey).getD []))
    have hlength := (perm_insertName (Text.trimmed r.space)
      ((s.owners.find? r.shortKey).getD [])).length_eq
    -- One more owner under the short name goes with one more column.
    have hbefore : ((s.owners.find? r.shortKey).map List.length).getD 0 =
        ((s.owners.find? r.shortKey).getD []).length := by
      cases s.owners.find? r.shortKey <;> rfl
    rw [List.length_cons] at hlength
    dsimp only
    rw [Dictionary.size_insert r.column hknown.2]
    omega

theorem registerAll_counted (rs : List Registration) :
    ((empty.registerAll rs).owners.values.map List.length).sum =
      (empty.registerAll rs).columns.size :=
  registerAll_induction (P := fun s => (s.owners.values.map List.length).sum = s.columns.size)
    (fun _ r h => register_counted h r) rfl rs

/-! ### Ambiguous short names -/

theorem eq_ambiguous_of_resolveShort {namespaces : List String} {error : SchemaError}
    (h : s.resolveShort short namespaces = .error error) : error = .ambiguous short namespaces := by
  unfold resolveShort at h
  split at h
  · cases h
  · cases h
    rfl

/-- The short name that is reported as ambiguous is one of the schema, with these owners. -/
theorem find_owners_of_ambiguous {name : String}
    (h : s.lookup name = .error (.ambiguous short owners)) :
    s.owners.find? short = some owners := by
  unfold lookup at h
  generalize Text.fold name = key at h
  dsimp only at h
  split at h
  · cases h
  · split at h
    · cases h
    · split at h
      next namespaces hnamespaces =>
        cases eq_ambiguous_of_resolveShort h
        exact hnamespaces
      next =>
        split at h
        next =>
          unfold lookupQualifiedStart at h
          split at h
          · cases h
          · cases h
          · cases h
        next start namespaces hone =>
          cases eq_ambiguous_of_resolveShort h
          have hentry : (short, owners) ∈ s.owners.startingWith key := by
            rw [hone]
            exact List.mem_singleton_self _
          exact (Dictionary.mem_startingWith.mp hentry).1
        next => cases h

/-! ### Any run of registrations -/

/-- **The indexes stay in step.**  After any registrations, a column stands under a key exactly when
    it has been added and the key is its own name, folded.  A registration succeeds when it has a
    short name and its name is new, and changes nothing otherwise.  The owners of a short name are
    the namespaces of all columns of that short name that were added, sorted, so that there are as
    many owners as columns.  A column stays as it is, and is found under its name in any letter case,
    whatever is registered later.  Only columns that were added are found, and a short name that is
    reported as ambiguous is reported with all its owners. -/
theorem registerAll_indexes (rs : List Registration) :
    (∀ key column, (empty.registerAll rs).columns.find? key = some column ↔
      (∃ r ∈ empty.added rs, r.column = column) ∧ key = Text.fold column.name) ∧
    (∀ r : Registration,
      (((empty.registerAll rs).register r.space r.short r.type).2 = true ↔
        Text.trimmed r.short ≠ "" ∧ (empty.registerAll rs).contains r.name = false) ∧
      (((empty.registerAll rs).register r.space r.short r.type).2 = false →
        ((empty.registerAll rs).register r.space r.short r.type).1 = empty.registerAll rs)) ∧
    (∀ key owners, (empty.registerAll rs).owners.find? key = some owners ↔
      owners ≠ [] ∧ owners.Pairwise (· ≤ ·) ∧ owners.Perm (spacesOf (empty.added rs) key)) ∧
    ((empty.registerAll rs).owners.values.map List.length).sum =
      (empty.registerAll rs).columns.size ∧
    (∀ key column (more : List Registration),
      (empty.registerAll rs).columns.find? key = some column →
        ((empty.registerAll rs).registerAll more).columns.find? key = some column ∧
        ∀ name, Text.fold name = Text.fold column.name →
          ((empty.registerAll rs).registerAll more).lookup name = .ok (some column)) ∧
    (∀ name column, (empty.registerAll rs).lookup name = .ok (some column) →
      ∃ r ∈ empty.added rs, r.column = column) ∧
    ∀ name short owners,
      (empty.registerAll rs).lookup name = .error (.ambiguous short owners) →
        owners.Pairwise (· ≤ ·) ∧ owners.Perm (spacesOf (empty.added rs) short) := by
  have h := registered_added rs
  refine ⟨fun key column => h.find_column_iff_name, fun r => ⟨register_eq_true_iff _ r,
    register_of_eq_false⟩, fun key owners => h.owners_iff, registerAll_counted rs,
    fun key column more hcolumn => ⟨find_column_registerAll hcolumn more, ?_⟩,
    fun name column hlookup => h.exists_of_lookup hlookup, ?_⟩
  · -- A qualified name is looked up first, so later registrations cannot get in between.
    intro name hname
    obtain ⟨r, hr, -, rfl⟩ := (h.columns key column).mp hcolumn
    rw [r.fold_column_name] at hname
    exact (registered_registerAll more h).lookup_of_key (List.mem_append_left _ hr) hname
  · intro name short owners hlookup
    exact (h.owners_iff.mp (find_owners_of_ambiguous hlookup)).2

/-- Two columns of one namespace whose names differ in their sigmas own the same short name. -/
example : (empty.registerAll [⟨"a", "Σ", .integer⟩, ⟨"a", "σ", .text⟩]).lookup "σ" =
    .error (.ambiguous "σ" ["a", "a"]) := by
  decide +kernel

end RecordFilter.Schema
