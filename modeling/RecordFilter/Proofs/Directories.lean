import RecordFilter.Proofs.Checks
/-!
# Contents in the place of directories

A check lists the records that pass all filters.  When each of them is a directory, that is, when
each is named as a parent, it lists in their place what names them.  Ids need not be unique, a record
can name itself, and parents need not be among the records; still nothing gets lost (`IsListing`).
The listing is empty only if nothing passes, since a directory is one only because some record names
it, and this record is listed.
-/

namespace RecordFilter.Check

open RecordFilter.Filter

/-- The record is named as a parent. -/
def IsDirectory (records : List Record) (r : Record) : Prop :=
  ∃ child ∈ records, child.parent = some r.id

/-- The record names one of the directories as its parent. -/
def liesIn (directories : List Record) (r : Record) : Bool :=
  directories.any fun directory => r.parent == some directory.id

/-- The records that pass every filter of a check, each taken on its own. -/
def passing (check : Check) (records : List Record) : List Record :=
  records.filter fun r => check.filters.all (textAccepts (Schema.infer records) r.property)

/-- What is listed when some of the records match. -/
structure IsListing (records matched listed : List Record) : Prop where
  inOrder : listed.Sublist records
  empty_iff : listed = [] ↔ matched = []
  origin : ∀ r ∈ listed, r ∈ matched ∨ ∃ directory ∈ matched, r.parent = some directory.id
  ofFile : (∃ r ∈ matched, ¬ IsDirectory records r) → listed = matched
  ofDirectories : matched ≠ [] → (∀ r ∈ matched, IsDirectory records r) →
    listed = records.filter (liesIn matched)

variable {records matched listed : List Record} {r : Record}

theorem contains_parents_iff :
    (records.filterMap Record.parent).contains r.id = true ↔ IsDirectory records r := by
  rw [List.contains_iff_mem, List.mem_filterMap, IsDirectory]

theorem liesIn_iff :
    liesIn matched r = true ↔ ∃ directory ∈ matched, r.parent = some directory.id := by
  simp [liesIn]

/-- One match that is no directory keeps the matches. -/
theorem contentsOfDirectories_of_file (h : ∃ r ∈ matched, ¬ IsDirectory records r) :
    contentsOfDirectories records matched = matched := by
  obtain ⟨r, hr, hfile⟩ := h
  have hnot : (matched.all fun r => (records.filterMap Record.parent).contains r.id) = false := by
    rw [List.all_eq_false]
    refine ⟨r, hr, ?_⟩
    rw [contains_parents_iff]
    exact hfile
  rw [contentsOfDirectories, hnot]
  simp

/-- Directories give way to the records that name them. -/
theorem contentsOfDirectories_of_directories (hne : matched ≠ [])
    (h : ∀ r ∈ matched, IsDirectory records r) :
    contentsOfDirectories records matched = records.filter (liesIn matched) := by
  have hall : (matched.all fun r => (records.filterMap Record.parent).contains r.id) = true := by
    rw [List.all_eq_true]
    intro r hr
    exact contains_parents_iff.mpr (h r hr)
  have hempty : matched.isEmpty = false := by simpa using hne
  rw [contentsOfDirectories, hall, hempty]
  apply List.filter_congr
  intro r _
  rw [Bool.eq_iff_iff, liesIn_iff]
  cases r.parent with
  | none => simp
  | some parent => simp [eq_comm]

/-- A directory that matches has contents to list. -/
theorem exists_liesIn (hr : r ∈ matched) (h : IsDirectory records r) :
    ∃ child ∈ records, liesIn matched child = true := by
  obtain ⟨child, hchild, hparent⟩ := h
  exact ⟨child, hchild, liesIn_iff.mpr ⟨r, hr, hparent⟩⟩

theorem isListing_of_file (hmatched : matched.Sublist records)
    (h : ∃ r ∈ matched, ¬ IsDirectory records r) : IsListing records matched matched where
  inOrder := hmatched
  empty_iff := Iff.rfl
  origin := fun _ hr => .inl hr
  ofFile := fun _ => rfl
  ofDirectories := by
    intro _ hall
    obtain ⟨r, hr, hfile⟩ := h
    exact absurd (hall r hr) hfile

theorem isListing_of_directories (hne : matched ≠ []) (h : ∀ r ∈ matched, IsDirectory records r) :
    IsListing records matched (records.filter (liesIn matched)) where
  inOrder := List.filter_sublist
  empty_iff := by
    -- A directory has contents, so the listing is empty only when there was no match.
    refine iff_of_false ?_ hne
    intro hempty
    obtain ⟨r, hr⟩ := List.exists_mem_of_ne_nil matched hne
    obtain ⟨child, hchild, hlies⟩ := exists_liesIn hr (h r hr)
    exact List.filter_eq_nil_iff.mp hempty child hchild hlies
  origin := by
    intro r hr
    exact .inr (liesIn_iff.mp (List.mem_filter.mp hr).2)
  ofFile := by
    rintro ⟨r, hr, hfile⟩
    exact absurd (h r hr) hfile
  ofDirectories := fun _ _ => rfl

theorem isListing_nil (records : List Record) : IsListing records [] [] where
  inOrder := List.nil_sublist records
  empty_iff := Iff.rfl
  origin := by simp
  ofFile := by simp
  ofDirectories := fun hne => absurd rfl hne

/-- In each of the three cases the listing is the one described. -/
theorem isListing_contentsOfDirectories (hmatched : matched.Sublist records) :
    IsListing records matched (contentsOfDirectories records matched) := by
  by_cases hne : matched = []
  · subst hne
    exact isListing_nil records
  · by_cases hfile : ∃ r ∈ matched, ¬ IsDirectory records r
    · rw [contentsOfDirectories_of_file hfile]
      exact isListing_of_file hmatched hfile
    · have hall : ∀ r ∈ matched, IsDirectory records r := by
        intro r hr
        by_contra hnot
        exact hfile ⟨r, hr, hnot⟩
      rw [contentsOfDirectories_of_directories hne hall]
      exact isListing_of_directories hne hall

/-- A check that lists records does not stop when its filters are compiled. -/
theorem compileOnly_of_run {check : Check} {shown : String}
    (h : check.run = .ok (.matches shown listed)) : check.compileOnly = false := by
  cases hcompile : check.compileOnly with
  | false => rfl
  | true =>
    rw [run] at h
    cases hinput : check.input with
    | none => simp [hinput] at h
    | some text =>
      cases hload : Record.load text with
      | error error => simp [hinput, hload] at h
      | ok records =>
        cases hadd : addAll (Schema.infer records) check.filters with
        | error error => simp [hinput, hload, runOn, hadd] at h
        | ok session => simp [hinput, hload, runOn, hadd, hcompile] at h

/-- **No match is lost to its contents.**  The records that a check lists are in the order of the
    input, and there are some exactly if some record passes all filters.  They are the records that
    pass, if one of these is no directory, and all contents of these directories otherwise. -/
theorem run_isListing {check : Check} {shown : String}
    (h : check.run = .ok (.matches shown listed)) :
    ∃ text records, check.input = some text ∧ Record.load text = .ok records ∧
      (∀ filter ∈ check.filters, ∃ f, Filter.ofText (Schema.infer records) filter none = .ok f) ∧
      IsListing records (check.passing records) listed := by
  have hcompile := compileOnly_of_run h
  obtain ⟨filters, input, compileOnly, explain⟩ := check
  subst hcompile
  obtain ⟨text, records, session, hinput, hload, hsession, hresult⟩ := run_eq_ok_iff.mp h
  obtain ⟨-, rfl⟩ := CheckResult.matches.inj hresult
  refine ⟨text, records, hinput, hload, exists_addAll_iff.mp ⟨session, hsession⟩, ?_⟩
  rw [select_addAll hsession]
  exact isListing_contentsOfDirectories List.filter_sublist

/-- A hidden folder that names itself as its parent, and a file in it. -/
def loopText : String :=
  "[\x7b\"id\":\"d\",\"parent\":\"d\",\"hidden\":true\x7d,\x7b\"id\":\"f\",\"parent\":\"d\"\x7d]"

/-- The folder passes alone.  It is listed again, as a part of its own contents. -/
theorem run_loop_isListing :
    run ⟨["hidden"], some loopText, false, false⟩ =
        .ok (.matches "\"hidden\"" [(Record.ofId "d" (some "d")).insert "hidden" (.boolean true),
          Record.ofId "f" (some "d")]) ∧
      ∃ records, Record.load loopText = .ok records ∧
        IsListing records (passing ⟨["hidden"], some loopText, false, false⟩ records)
          [(Record.ofId "d" (some "d")).insert "hidden" (.boolean true),
            Record.ofId "f" (some "d")] := by
  have hrun : run ⟨["hidden"], some loopText, false, false⟩ =
      .ok (.matches "\"hidden\"" [(Record.ofId "d" (some "d")).insert "hidden" (.boolean true),
        Record.ofId "f" (some "d")]) := by
    decide +kernel
  obtain ⟨text, records, hinput, hload, -, hlisting⟩ := run_isListing hrun
  obtain rfl := Option.some.inj hinput
  exact ⟨hrun, records, hload, hlisting⟩

end RecordFilter.Check
