import Mathlib.Data.List.Dedup
import Mathlib.Data.List.Sort
import RecordFilter.Proofs.Registry
/-!
# Looking up is searching all columns

A name is looked up in two sorted indexes, and of these only the part is read that begins with the
name.  What comes out is nevertheless what a search through all columns gives (`lookup_eq_search`).

The search knows of no index.  It is a function of the list of registrations: of each qualified name
the first one counts (`firstOfEach`), and of these it picks out those with a fitting name, puts the
names in ascending order, and looks how many there are.
-/

namespace RecordFilter.Schema

variable {s : Schema} {rs : List Registration} {r : Registration} {key short : String}

/-! ### The search -/

def columnUnder (rs : List Registration) (key : String) : Option Column :=
  (rs.find? fun r => r.key == key).map Registration.column

/-- What a short name stands for: the column that its only owner and the short name make the name
    of, or the owners if there are several. -/
def resolution (rs : List Registration) (short : String) : Except SchemaError (Option Column) :=
  match (spacesOf rs short).mergeSort with
  | [space] => .ok (columnUnder rs (Text.fold (qualify space short)))
  | owners => .error (.ambiguous short owners)

/-- The folded short names that begin with the key, each once, in ascending order. -/
def shortKeysFrom (rs : List Registration) (key : String) : List String :=
  ((rs.map Registration.shortKey).dedup.filter fun short => Text.startsWith short key).mergeSort

/-- The columns whose folded qualified names begin with the key, in ascending order of these. -/
def registrationsFrom (rs : List Registration) (key : String) : List Registration :=
  (rs.filter fun r => Text.startsWith r.key key).mergeSort fun r r' => r.key ≤ r'.key

/-- The column for a name, searched for among all columns: by its qualified name, by its short
    name, by the beginning of its short name, and by the beginning of its qualified name. -/
def search (rs : List Registration) (name : String) : Except SchemaError (Option Column) :=
  let key := Text.fold name
  if key = "" then .ok none
  else
    match columnUnder rs key with
    | some column => .ok (some column)
    | none =>
      if key ∈ rs.map Registration.shortKey then resolution rs key
      else
        match shortKeysFrom rs key with
        | [short] => resolution rs short
        | [] =>
          match (registrationsFrom rs key).map Registration.column with
          | [] => .ok none
          | [column] => .ok (some column)
          | columns => .error (.ambiguousStart key ((columns.take maxCandidates).map Column.name))
        | shorts => .error (.ambiguousStart key (shorts.take maxCandidates))

/-- The first registration of each folded qualified name; those without a short name do not
    count. -/
def firstOfEach : List Registration → List Registration
  | [] => []
  | r :: rest =>
    if Text.trimmed r.short = "" then firstOfEach rest
    else r :: (firstOfEach rest).filter fun later => later.key != r.key

/-! ### The indexes give what the search finds -/

/-- A registration adds a column if it is the first one of a name that is not known yet. -/
theorem added_eq_filter (s : Schema) (rs : List Registration) :
    s.added rs = (firstOfEach rs).filter fun r => !s.columns.contains r.key := by
  induction rs generalizing s with
  | nil => rfl
  | cons r rest ih =>
    rw [added, ih, firstOfEach]
    by_cases hblank : Text.trimmed r.short = ""
    · have hdropped : Text.trimmed r.short = "" ∨ s.columns.contains r.key = true := .inl hblank
      rw [register_eq, if_pos hdropped, if_pos hblank]
      rfl
    · -- What the first registration added is known to all the others.
      have hkept : ((firstOfEach rest).filter fun d =>
            !(s.register r.space r.short r.type).1.columns.contains d.key) =
          ((firstOfEach rest).filter fun d => d.key != r.key).filter fun d =>
            !s.columns.contains d.key := by
        rw [List.filter_filter]
        refine List.filter_congr fun d _ => ?_
        rw [Bool.eq_iff_iff, Bool.not_eq_true', ← Bool.not_eq_true, contains_register, not_or,
          not_and, imp_iff_right hblank, Bool.and_eq_true, Bool.not_eq_true', bne_iff_ne,
          Bool.not_eq_true, ne_comm]
      rw [if_neg hblank, List.filter_cons, hkept, register_eq]
      cases s.columns.contains r.key <;> simp [hblank]

/-- The index of columns answers as a search through all registrations does. -/
theorem Registered.find_column_eq (h : Registered s rs) (key : String) :
    s.columns.find? key = columnUnder rs key := by
  rw [columnUnder]
  cases hfound : rs.find? fun r => r.key == key with
  | none =>
    refine h.find_column_eq_none fun d hd => ?_
    simpa using List.find?_eq_none.mp hfound d hd
  | some r =>
    have hkey : r.key = key := by simpa using List.find?_some hfound
    exact (h.columns key r.column).mpr ⟨r, List.mem_of_find?_eq_some hfound, hkey, rfl⟩

theorem ownersOf_eq_mergeSort (rs : List Registration) (short : String) :
    ownersOf rs short = (spacesOf rs short).mergeSort := by
  obtain ⟨hsorted, hperm⟩ := ownersOf_sorted rs short
  exact (hperm.trans (List.mergeSort_perm _ _).symm).eq_of_pairwise' hsorted
    (List.pairwise_mergeSort' (· ≤ ·) _)

theorem Registered.find_owners_eq (h : Registered s rs) (short : String) :
    s.owners.find? short =
      if short ∈ rs.map Registration.shortKey then some (ownersOf rs short) else none := by
  split
  next hmem =>
    rw [h.owners]
    exact ⟨rfl, ownersOf_ne_nil_iff.mpr (List.mem_map.mp hmem)⟩
  next hmem =>
    refine h.find_owners_eq_none fun d hd heq => hmem ?_
    exact List.mem_map.mpr ⟨d, hd, heq⟩

theorem Registered.resolveShort_eq (h : Registered s rs) (short : String) :
    s.resolveShort short (ownersOf rs short) = resolution rs short := by
  rw [resolution, ← ownersOf_eq_mergeSort]
  cases ownersOf rs short with
  | nil => rfl
  | cons space rest =>
    cases rest with
    | nil => rw [resolveShort, h.find_column_eq]
    | cons _ _ => rfl

@[simp] theorem mem_shortKeysFrom :
    short ∈ shortKeysFrom rs key ↔
      short ∈ rs.map Registration.shortKey ∧ Text.startsWith short key = true := by
  rw [shortKeysFrom, List.mem_mergeSort, List.mem_filter, List.mem_dedup]

theorem ascending_shortKeysFrom (rs : List Registration) (key : String) :
    (shortKeysFrom rs key).Pairwise (· < ·) := by
  have hsorted : (shortKeysFrom rs key).Pairwise (· ≤ ·) := List.pairwise_mergeSort' (· ≤ ·) _
  have hnodup : (shortKeysFrom rs key).Nodup :=
    (List.mergeSort_perm _ _).nodup_iff.mpr ((List.nodup_dedup _).filter _)
  exact (hsorted.and hnodup).imp fun ⟨hle, hne⟩ => Std.lt_of_le_of_ne hle hne

/-- The part of the index of owners that is read holds the short names that the search picks out. -/
theorem Registered.owners_startingWith_eq (h : Registered s rs) (key : String) :
    s.owners.startingWith key =
      (shortKeysFrom rs key).map fun short => (short, ownersOf rs short) := by
  refine Dictionary.eq_of_mem_iff (Dictionary.ascending_startingWith _ _) ?_ ?_
  · rw [List.map_map, Function.comp_def, List.map_id']
    exact ascending_shortKeysFrom rs key
  · rintro ⟨short, owners⟩
    simp only [Dictionary.mem_startingWith, h.find_owners_eq, Option.ite_none_right_eq_some,
      Option.some.injEq, List.mem_map, Prod.mk.injEq, mem_shortKeysFrom]
    constructor
    · rintro ⟨⟨hshort, howners⟩, hstart⟩
      exact ⟨short, ⟨hshort, hstart⟩, rfl, howners⟩
    · rintro ⟨_, ⟨hshort, hstart⟩, rfl, howners⟩
      exact ⟨⟨hshort, howners⟩, hstart⟩

@[simp] theorem mem_registrationsFrom :
    r ∈ registrationsFrom rs key ↔ r ∈ rs ∧ Text.startsWith r.key key = true := by
  rw [registrationsFrom, List.mem_mergeSort, List.mem_filter]

theorem ascending_registrationsFrom (hdistinct : (rs.map Registration.key).Nodup) (key : String) :
    ((registrationsFrom rs key).map Registration.key).Pairwise (· < ·) := by
  have htotal : Std.Total fun r r' : Registration => r.key ≤ r'.key :=
    ⟨fun r r' => String.le_total r.key r'.key⟩
  have htrans : IsTrans Registration fun r r' => r.key ≤ r'.key :=
    ⟨fun _ _ _ => String.le_trans⟩
  have hsorted : (registrationsFrom rs key).Pairwise fun r r' => r.key ≤ r'.key :=
    List.pairwise_mergeSort' (fun r r' : Registration => r.key ≤ r'.key) _
  have hnodup : ((registrationsFrom rs key).map Registration.key).Nodup :=
    ((List.mergeSort_perm _ _).map _).nodup_iff.mpr
      (hdistinct.sublist (List.filter_sublist.map Registration.key))
  rw [List.pairwise_map]
  exact (hsorted.and (List.pairwise_map.mp hnodup)).imp fun ⟨hle, hne⟩ =>
    Std.lt_of_le_of_ne hle hne

/-- The part of the index of columns that is read holds the columns that the search picks out. -/
theorem Registered.columns_startingWith_eq (h : Registered s rs) (key : String) :
    s.columns.startingWith key =
      (registrationsFrom rs key).map fun r => (r.key, r.column) := by
  refine Dictionary.eq_of_mem_iff (Dictionary.ascending_startingWith _ _) ?_ ?_
  · rw [List.map_map]
    exact ascending_registrationsFrom h.distinct key
  · rintro ⟨k, column⟩
    simp only [Dictionary.mem_startingWith, h.columns, List.mem_map, Prod.mk.injEq,
      mem_registrationsFrom]
    constructor
    · rintro ⟨⟨r, hr, rfl, hcolumn⟩, hstart⟩
      exact ⟨r, ⟨hr, hstart⟩, rfl, hcolumn⟩
    · rintro ⟨r, ⟨hr, hstart⟩, rfl, hcolumn⟩
      exact ⟨⟨r, hr, rfl, hcolumn⟩, hstart⟩

/-! ### What is looked up is what is searched for -/

/-- The lookup in the two indexes is the search through all registrations. -/
theorem Registered.lookup_eq (h : Registered s rs) (name : String) :
    s.lookup name = search rs name := by
  unfold lookup search
  generalize Text.fold name = key
  simp only [String.isEmpty_iff, h.find_column_eq, h.find_owners_eq, h.owners_startingWith_eq]
  by_cases hkey : key = ""
  · rw [if_pos hkey, if_pos hkey]
  rw [if_neg hkey, if_neg hkey]
  -- Both go through the same four steps, each of which asks an index or the list.
  cases columnUnder rs key with
  | some column => rfl
  | none =>
    by_cases hshort : key ∈ rs.map Registration.shortKey
    · simp only [if_pos hshort]
      exact h.resolveShort_eq key
    · simp only [if_neg hshort]
      cases shortKeysFrom rs key with
      | nil =>
        -- No short name begins so, which leaves the qualified names.
        rw [List.map_nil, lookupQualifiedStart, h.columns_startingWith_eq, List.map_map]
        rfl
      | cons first rest =>
        cases rest with
        | nil => exact h.resolveShort_eq first
        | cons second rest => simp [List.map_take, Function.comp_def]

/-- **Looking up is searching all columns.**  After any registrations, a name is looked up as if the
    first ones of each qualified name were gone through one by one: nothing is found for a blank
    name; else the column with that qualified name; else what the owners of that short name make of
    it; else, of all short names that begin with it, what the owners of the only one make of it, or
    the first five if there are more; else, of all columns with qualified names that begin with it,
    the only one, or the names of the first five, or nothing. -/
theorem lookup_eq_search (rs : List Registration) (name : String) :
    (empty.registerAll rs).lookup name = search (firstOfEach rs) name := by
  have hadded : empty.added rs = firstOfEach rs := by
    rw [added_eq_filter, List.filter_eq_self]
    exact fun _ _ => rfl
  rw [← hadded]
  exact (registered_added rs).lookup_eq name

end RecordFilter.Schema
