import Mathlib.Data.Finset.Max
import RecordFilter.Proofs.PlainNames
/-!
# What an inferred schema says of the records

A schema is made of the first value under each folded name (`find?_samples`), and it is meant to
describe the records: every property is a column, and a column has the type of the first record with
a value for it (`Describes`).  The column for a property is registered under the name that the
property has once it is split and put together again.  Hence the schema describes the records exactly
if all names are plain (`infer_describes_iff`).

That it must be so is seen from the longest name that is not plain.  Its property can be known only
under the column for another name, which is then longer and not plain either.
-/

namespace RecordFilter

/-! ### Records and their properties -/

theorem Value.isNull_eq (value : Value) : value.isNull = value.type?.isNone := by
  cases value <;> rfl

/-- A record that has been given its properties one after another. -/
inductive Record.IsBuilt : Record → Prop where
  | ofId (id : String) (parent : Option String) : IsBuilt (.ofId id parent)
  | insert {r : Record} (h : IsBuilt r) (name : String) (value : Value) :
      IsBuilt (r.insert name value)

namespace Record

variable {r : Record} {key name : String} {value : Value} {type : ColumnType}

/-- Properties are kept under the folded names they are shown by, and these names are trimmed. -/
theorem IsBuilt.of_find? (h : r.IsBuilt) (hfind : r.properties.find? key = some (name, value)) :
    key = Text.fold name ∧ Text.trimmed name = name := by
  induction h with
  | ofId => cases hfind
  | insert _ name' value' ih =>
    rw [Record.insert, Dictionary.find?_insert] at hfind
    split at hfind
    next hkey =>
      cases hfind
      exact ⟨by rw [hkey, Text.fold_trimmed], Text.trimmed_trimmed name'⟩
    next => exact ih hfind

theorem IsBuilt.bare_name (h : r.IsBuilt) (hmem : (name, value) ∈ r.shownProperties) :
    Text.Bare name.toList := by
  obtain ⟨key, hfind⟩ := Dictionary.mem_values_iff.mp hmem
  rw [← (h.of_find? hfind).2]
  exact Text.bare_trimmed name

end Record

namespace Schema

open Text

variable {records : List Record} {r : Record} {key name : String} {type : ColumnType}

/-! ### Samples -/

def noted (key : String) (property : String × Value) : Option (String × ColumnType) :=
  if fold property.1 = key then property.2.type?.map fun type => (property.1, type) else none

theorem find?_noteProperty (samples : Dictionary (String × ColumnType))
    (property : String × Value) (key : String) :
    (noteProperty samples property).find? key = (samples.find? key).or (noted key property) := by
  obtain ⟨name, value⟩ := property
  unfold noteProperty noted
  cases value.type? with
  | none => simp
  | some type =>
    cases hfound : samples.find? (fold name) with
    | some sample =>
      by_cases hkey : fold name = key
      · subst hkey
        simp [Dictionary.contains, hfound]
      · simp [Dictionary.contains, hfound, hkey]
    | none =>
      by_cases hkey : fold name = key
      · subst hkey
        simp [Dictionary.contains, hfound]
      · simp [Dictionary.contains, hfound, hkey, Ne.symm hkey]

theorem find?_foldl_noteProperty (properties : List (String × Value))
    (samples : Dictionary (String × ColumnType)) (key : String) :
    (properties.foldl noteProperty samples).find? key =
      (samples.find? key).or (properties.findSome? (noted key)) := by
  induction properties generalizing samples with
  | nil => simp
  | cons property rest ih =>
    rw [List.foldl_cons, ih, find?_noteProperty, Option.or_assoc, List.findSome?_cons]
    cases noted key property <;> rfl

/-- The first value that a record has under the key, as it is noted. -/
def sample? (r : Record) (key : String) : Option (String × ColumnType) :=
  r.shownProperties.findSome? (noted key)

/-- The sample under a key is the first one the records hold. -/
theorem find?_samples (records : List Record) (key : String) :
    (samples records).find? key = records.findSome? fun r => sample? r key := by
  rw [samples, find?_foldl_noteProperty, Dictionary.find?_empty, Option.none_or]
  induction records with
  | nil => rfl
  | cons r rest ih =>
    rw [List.flatMap_cons, List.findSome?_append, ih, List.findSome?_cons, ← sample?]
    cases sample? r key <;> rfl

/-- A record keeps one value under a key, and it is noted if it has a type. -/
theorem sample?_eq_some_iff (h : r.IsBuilt) :
    sample? r key = some (name, type) ↔
      ∃ value, r.properties.find? key = some (name, value) ∧ value.type? = some type := by
  -- What is noted is stored under the key, where there is but one value.
  have hstored : ∀ {name type}, sample? r key = some (name, type) →
      ∃ value, r.properties.find? key = some (name, value) ∧ value.type? = some type := by
    intro name type hsample
    obtain ⟨⟨name', value⟩, hmem, hnoted⟩ := List.exists_of_findSome?_eq_some hsample
    rw [noted, Option.ite_none_right_eq_some] at hnoted
    obtain ⟨hkey, htype⟩ := hnoted
    obtain ⟨type', htype, heq⟩ := Option.map_eq_some_iff.mp htype
    cases heq
    obtain ⟨key', hfind⟩ := Dictionary.mem_values_iff.mp hmem
    obtain ⟨rfl, -⟩ := h.of_find? hfind
    exact ⟨value, hkey ▸ hfind, htype⟩
  constructor
  · exact hstored
  · rintro ⟨value, hfind, htype⟩
    have hnoted : noted key (name, value) = some (name, type) := by
      simp [noted, (h.of_find? hfind).1, htype]
    have hmem : (name, value) ∈ r.shownProperties := Dictionary.mem_values_iff.mpr ⟨key, hfind⟩
    cases hsample : sample? r key with
    | none =>
      rw [List.findSome?_eq_none_iff.mp hsample _ hmem] at hnoted
      cases hnoted
    | some sample =>
      obtain ⟨value', hfind', htype'⟩ := hstored hsample
      rw [hfind] at hfind'
      obtain ⟨rfl, rfl⟩ := Prod.mk.inj (Option.some.inj hfind')
      rw [htype] at htype'
      rw [Option.some.inj htype']

theorem sample?_eq (h : r.IsBuilt) (key : String) :
    sample? r key = (r.properties.find? key).bind fun stored =>
      stored.2.type?.map fun type => (stored.1, type) := by
  apply Option.ext
  rintro ⟨name, type⟩
  rw [sample?_eq_some_iff h, Option.bind_eq_some_iff]
  constructor
  · rintro ⟨value, hfind, htype⟩
    exact ⟨(name, value), hfind, by simp [htype]⟩
  · rintro ⟨⟨name', value⟩, hfind, hsample⟩
    obtain ⟨type', htype, heq⟩ := Option.map_eq_some_iff.mp hsample
    cases heq
    exact ⟨value, hfind, htype⟩

theorem sample?_type (h : r.IsBuilt) (name : String) :
    (sample? r (fold name)).map Prod.snd = (r.property name).type? := by
  rw [sample?_eq h, Record.property, Record.stored?]
  cases r.properties.find? (fold name) with
  | none => rfl
  | some stored => simp [Function.comp_def]

/-- The type under a key is that of the first record with a value for it. -/
theorem type_samples (h : ∀ r ∈ records, r.IsBuilt) (name : String) :
    ((samples records).find? (fold name)).map Prod.snd =
      (records.find? fun r => !(r.property name).isNull).bind fun r => (r.property name).type? := by
  rw [find?_samples]
  induction records with
  | nil => rfl
  | cons r rest ih =>
    rw [List.forall_mem_cons] at h
    have htype := sample?_type h.1 name
    rw [List.findSome?_cons, List.find?_cons, Value.isNull_eq, ← htype]
    cases hsample : sample? r (fold name) with
    | none => simpa using ih h.2
    | some sample => simpa [hsample] using htype

/-! ### What is carried -/

/-- Some record has a value, not null, for a property of that name, which is not blank. -/
def Carries (records : List Record) (name : String) : Prop :=
  ∃ r ∈ records, ∃ value, (name, value) ∈ r.shownProperties ∧ value.isNull = false ∧
    isAllBlank name.toList = false

theorem Carries.bare (h : ∀ r ∈ records, r.IsBuilt) (hcarries : Carries records name) :
    Bare name.toList := by
  obtain ⟨r, hr, value, hmem, -, -⟩ := hcarries
  exact (h r hr).bare_name hmem

theorem Carries.ne_empty (hcarries : Carries records name) : name ≠ "" := by
  rintro rfl
  obtain ⟨r, -, value, -, -, hshown⟩ := hcarries
  exact absurd hshown (by decide)

/-- A sample is noted for what is carried, perhaps in another letter case. -/
theorem Carries.exists_sample (h : ∀ r ∈ records, r.IsBuilt) (hcarries : Carries records name) :
    ∃ sample, (samples records).find? (fold name) = some sample := by
  obtain ⟨r, hr, value, hmem, hvalue, -⟩ := hcarries
  obtain ⟨key, hfind⟩ := Dictionary.mem_values_iff.mp hmem
  obtain ⟨rfl, -⟩ := (h r hr).of_find? hfind
  rw [Value.isNull_eq, Option.isNone_eq_false_iff, Option.isSome_iff_exists] at hvalue
  obtain ⟨type, htype⟩ := hvalue
  have hsample := (sample?_eq_some_iff (h r hr)).mpr ⟨value, hfind, htype⟩
  rw [find?_samples, ← Option.isSome_iff_exists, List.findSome?_isSome_iff]
  exact ⟨r, hr, by rw [hsample]; rfl⟩

/-- A sample is noted under its own name, and it is carried unless that is empty. -/
theorem carries_of_sample (h : ∀ r ∈ records, r.IsBuilt)
    (hsample : (samples records).find? key = some (name, type)) :
    key = fold name ∧ (name ≠ "" → Carries records name) := by
  rw [find?_samples] at hsample
  obtain ⟨r, hr, hsample⟩ := List.exists_of_findSome?_eq_some hsample
  obtain ⟨value, hfind, htype⟩ := (sample?_eq_some_iff (h r hr)).mp hsample
  have hmem : (name, value) ∈ r.shownProperties := Dictionary.mem_values_iff.mpr ⟨key, hfind⟩
  refine ⟨((h r hr).of_find? hfind).1, ?_⟩
  intro hne
  refine ⟨r, hr, value, hmem, by simp [Value.isNull_eq, htype], ?_⟩
  obtain ⟨c, hc, hshown⟩ := ((h r hr).bare_name hmem).startsShown (by simpa using hne)
  rw [isAllBlank, List.all_eq_false]
  exact ⟨c, List.mem_of_mem_head? hc, by simp [hshown]⟩

/-! ### What is inferred -/

theorem infer_eq (records : List Record) :
    infer records = empty.registerAll ((samples records).values.map Registration.ofSample) := by
  rw [infer, registerAll, List.foldl_map]
  rfl

theorem infer_contains_iff {name : String} :
    (infer records).contains name = true ↔
      ∃ sample ∈ (samples records).values, trimmed (Registration.ofSample sample).short ≠ "" ∧
        (Registration.ofSample sample).key = fold name := by
  have hnone : empty.columns.contains (fold name) = false := rfl
  rw [contains, infer_eq, contains_registerAll, hnone]
  simp

theorem exists_sample_of_column {column : Column}
    (hcolumn : column ∈ (infer records).columns.values) :
    ∃ sample ∈ (samples records).values, trimmed (Registration.ofSample sample).short ≠ "" ∧
      (Registration.ofSample sample).column = column := by
  rw [infer_eq] at hcolumn
  have hschema := registered_added ((samples records).values.map Registration.ofSample)
  obtain ⟨added, hadded, rfl⟩ := hschema.mem_values_iff.mp hcolumn
  obtain ⟨sample, hsample, rfl⟩ := List.mem_map.mp (mem_of_mem_added hadded)
  exact ⟨sample, hsample, hschema.shown _ hadded, rfl⟩

/-! ### When the schema describes the records -/

/-- Every property that some record carries is a column; and some record has a value for every
    column, the first of them one of the column's type. -/
structure Describes (schema : Schema) (records : List Record) : Prop where
  complete : ∀ name, Carries records name → schema.contains name = true
  exact : ∀ column ∈ schema.columns.values, ∃ r,
    records.find? (fun r => !(r.property column.name).isNull) = some r ∧
      (r.property column.name).type? = some column.type

/-- Plain names are the names of their columns. -/
theorem describes_of_plain (h : ∀ r ∈ records, r.IsBuilt)
    (hplain : ∀ name, Carries records name → IsPlainName name) :
    (infer records).Describes records where
  complete := by
    intro name hcarries
    obtain ⟨⟨name', type⟩, hsample⟩ := hcarries.exists_sample h
    obtain ⟨hfold, hcarries'⟩ := carries_of_sample h hsample
    -- The sample may be under another spelling of the name, but not under the empty one.
    have hne : name' ≠ "" := by
      rintro rfl
      have hempty : fold name = "" := hfold.trans (by decide +kernel)
      rw [fold_eq_empty_iff, trimmed, (hcarries.bare h).trim_eq, String.ofList_toList] at hempty
      exact hcarries.ne_empty hempty
    have hcarried := hcarries' hne
    obtain ⟨hname, hshown⟩ :=
      name_of_isPlainName type (hplain name' hcarried) (hcarried.bare h) hne
    rw [infer_contains_iff]
    refine ⟨(name', type), Dictionary.mem_values_iff.mpr ⟨_, hsample⟩, hshown, ?_⟩
    rw [Registration.key, hname, hfold]
  exact := by
    intro column hcolumn
    obtain ⟨⟨name, type⟩, hmem, hshown, rfl⟩ := exists_sample_of_column hcolumn
    obtain ⟨key, hsample⟩ := Dictionary.mem_values_iff.mp hmem
    obtain ⟨rfl, hcarries⟩ := carries_of_sample h hsample
    have hne := ne_empty_of_shown hshown
    have hcarried := hcarries hne
    obtain ⟨hname, -⟩ :=
      name_of_isPlainName type (hplain name hcarried) (hcarried.bare h) hne
    have htype := type_samples h name
    rw [hsample, Option.map_some, eq_comm, Option.bind_eq_some_iff] at htype
    rw [Registration.column, hname]
    exact htype

/-- The longest name that is not plain has no column. -/
theorem plain_of_complete (h : ∀ r ∈ records, r.IsBuilt)
    (hcomplete : ∀ name, Carries records name → (infer records).contains name = true)
    (hcarries : Carries records name) : IsPlainName name := by
  classical
  by_contra hnot
  -- Of the names that are not plain a longest one is taken: its column needs a longer name.
  let names := ((records.flatMap Record.shownProperties).map Prod.fst).toFinset.filter
    fun name => Carries records name ∧ ¬ IsPlainName name
  have hmem : ∀ {name}, name ∈ names ↔ Carries records name ∧ ¬ IsPlainName name := by
    intro name
    rw [Finset.mem_filter, and_iff_right_iff_imp]
    rintro ⟨⟨r, hr, value, hvalue, -⟩, -⟩
    exact List.mem_toFinset.mpr (List.mem_map.mpr
      ⟨(name, value), List.mem_flatMap.mpr ⟨r, hr, hvalue⟩, rfl⟩)
  obtain ⟨longest, hlongest, hmax⟩ := names.exists_max_image
    (fun name => (lowerEach name.toList).length) ⟨name, hmem.mpr ⟨hcarries, hnot⟩⟩
  obtain ⟨hcarriesLongest, hnotLongest⟩ := hmem.mp hlongest
  have hbareLongest := hcarriesLongest.bare h
  obtain ⟨⟨other, type⟩, hsample, hshown, hkey⟩ :=
    infer_contains_iff.mp (hcomplete longest hcarriesLongest)
  obtain ⟨key, hfind⟩ := Dictionary.mem_values_iff.mp hsample
  have hne := ne_empty_of_shown hshown
  have hcarriesOther := (carries_of_sample h hfind).2 hne
  have hbareOther := hcarriesOther.bare h
  have hbareName := Registration.bare_name hshown
  by_cases hplain : IsPlainName other
  · -- Spelled like a plain name, the longest name would be plain itself.
    rw [Registration.key, (name_of_isPlainName type hplain hbareOther hne).1] at hkey
    exact hnotLongest (hplain.of_fold_eq hbareOther hbareLongest hkey)
  · -- The other name is longer than its column, which is as long as the longest name.
    obtain ⟨hsublist, hshorter⟩ := shorter_of_not_isPlainName hplain hshown
    have hlength : (lowerEach (Registration.ofSample (other, type)).name.toList).length =
        (lowerEach longest.toList).length := by
      rw [← length_fold hbareName, ← length_fold hbareLongest, ← hkey, Registration.key]
    have hmore := length_lowerEach_of_sublist hsublist
    have hlt : (Registration.ofSample (other, type)).name.toList.length < other.toList.length :=
      Nat.lt_of_le_of_ne hsublist.length_le fun heq => hshorter (hsublist.eq_of_length heq)
    have hle := hmax other (hmem.mpr ⟨hcarriesOther, hplain⟩)
    omega

/-- **When a schema describes the records it is inferred from.**  Every property with a value is a
    column, and every column is a property with the type of its first value, exactly if in every
    name the first dot, should there be one, stands between two characters that show something. -/
theorem infer_describes_iff (h : ∀ r ∈ records, r.IsBuilt) :
    (infer records).Describes records ↔ ∀ name, Carries records name → IsPlainName name := by
  constructor
  · intro hdescribes name hcarries
    exact plain_of_complete h hdescribes.complete hcarries
  · exact describes_of_plain h

def photos : List Record :=
  [(Record.ofId "first" none).insert "Exif.ISO" (.integer 100),
    ((Record.ofId "second" none).insert "exif.iso" (.text "fast")).insert "length" (.integer 9)]

theorem infer_describes_photos :
    (∀ r ∈ photos, r.IsBuilt) ∧ (∀ name, Carries photos name → IsPlainName name) ∧
      (infer photos).Describes photos := by
  have hbuilt : ∀ r ∈ photos, r.IsBuilt := by
    simp only [photos, List.forall_mem_cons, List.not_mem_nil, false_implies, implies_true,
      and_true]
    exact ⟨.insert (.ofId _ _) _ _, .insert (.insert (.ofId _ _) _ _) _ _⟩
  have hplain : ∀ name, Carries photos name → IsPlainName name := by
    rintro name ⟨r, hr, value, hmem, -, -⟩
    have hnames : (photos.flatMap Record.shownProperties).map Prod.fst =
        ["Exif.ISO", "exif.iso", "length"] := by decide +kernel
    have hname : name ∈ (photos.flatMap Record.shownProperties).map Prod.fst :=
      List.mem_map_of_mem (f := Prod.fst) (List.mem_flatMap.mpr ⟨r, hr, hmem⟩)
    rw [hnames] at hname
    rcases List.mem_cons.mp hname with rfl | hname
    · have hsplit : "Exif.ISO".toList = "Exif".toList ++ '.' :: "ISO".toList := by decide
      exact isPlainName_of_split hsplit (by decide) ⟨'f', by decide, by decide⟩
        ⟨'I', by decide, by decide⟩
    · rcases List.mem_cons.mp hname with rfl | hname
      · have hsplit : "exif.iso".toList = "exif".toList ++ '.' :: "iso".toList := by decide
        exact isPlainName_of_split hsplit (by decide) ⟨'f', by decide, by decide⟩
          ⟨'i', by decide, by decide⟩
      · rw [List.mem_singleton.mp hname]
        exact isPlainName_of_not_mem (by decide)
  exact ⟨hbuilt, hplain, (infer_describes_iff hbuilt).mpr hplain⟩

/-- A record with two properties whose names are split into the same parts. -/
def spacedDot : Record :=
  ((Record.ofId "r" none).insert "a.b" (.integer 1)).insert "a . b" (.text "x")

/-- The name with white space comes first and makes the column, under the name of the other. -/
theorem infer_spacedDot :
    spacedDot.IsBuilt ∧ Carries [spacedDot] "a . b" ∧
      (infer [spacedDot]).contains "a . b" = false ∧
      ⟨"a.b", .text⟩ ∈ (infer [spacedDot]).columns.values ∧
      spacedDot.property "a.b" = .integer 1 ∧ ¬ (infer [spacedDot]).Describes [spacedDot] := by
  have hcarries : Carries [spacedDot] "a . b" :=
    ⟨spacedDot, List.mem_singleton_self _, .text "x", by decide +kernel, rfl, by decide⟩
  have hmissing : (infer [spacedDot]).contains "a . b" = false := by decide +kernel
  refine ⟨.insert (.insert (.ofId _ _) _ _) _ _, hcarries, hmissing, by decide +kernel,
    by decide +kernel, ?_⟩
  intro hdescribes
  rw [hdescribes.complete "a . b" hcarries] at hmissing
  cases hmissing

end Schema

end RecordFilter
