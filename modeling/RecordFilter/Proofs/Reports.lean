import RecordFilter.Check.Report
import RecordFilter.Proofs.Lists
/-!
# What a report says

A report is built up one record at a time, and sorted when all groups are there.  What comes out can
be said without either: first the records that have no parent, and then, for every parent in the
order in which they come first, the records under it (`report_lines`).  The invariant that carries
the loop is that the groups are those of the distinct parents so far, each with its records in order
(`groupByParent_eq`).
-/

namespace RecordFilter

namespace Check

/-! ### The lines of a report -/

/-- The records that have this parent; those without one have the parent `none`. -/
def under (records : List Record) (parent : Option String) : List Record :=
  records.filter (·.parent == parent)

/-- The parents of records, each at the place where it comes first. -/
def parents (records : List Record) : List String := (records.filterMap Record.parent).eraseDups

inductive Line where
  | heading (parent : String)
  | entry (r : Record)

namespace Line

def text : Line → String
  | heading parent => parent ++ ":\n"
  | entry r => if r.parent.isSome then "  " ++ r.id ++ "\n" else r.id ++ "\n"

def heading? : Line → Option String
  | heading parent => some parent
  | entry _ => none

def entry? : Line → Option Record
  | heading _ => none
  | entry r => some r

end Line

/-- The lines of a report: the records without a parent, and then every parent with the records
    under it. -/
def lines (records : List Record) : List Line :=
  (under records none).map .entry ++ (parents records).flatMap fun parent =>
    .heading parent :: (under records (some parent)).map .entry

variable {records : List Record} {r : Record}

theorem mem_parents {parent : String} :
    parent ∈ parents records ↔ ∃ r ∈ records, r.parent = some parent := by
  rw [parents, List.mem_eraseDups, List.mem_filterMap]

theorem nodup_parents (records : List Record) : (parents records).Nodup := nodup_eraseDups _

@[simp] theorem under_append_singleton (records : List Record) (r : Record)
    (parent : Option String) :
    under (records ++ [r]) parent =
      under records parent ++ if r.parent = parent then [r] else [] := by
  rw [under, under, List.filter_append, List.filter_singleton]
  simp

theorem under_eq_nil_iff {parent : Option String} :
    under records parent = [] ↔ parent ∉ records.map Record.parent := by
  simp [under, List.filter_eq_nil_iff]

/-! ### Groups -/

def groupOf (records : List Record) (parent : Option String) : Group :=
  ⟨parent, (under records parent).map Record.id⟩

theorem groupOf_append_singleton_of_ne {parent : Option String} (h : r.parent ≠ parent) :
    groupOf (records ++ [r]) parent = groupOf records parent := by
  simp [groupOf, h]

theorem groupOf_append_singleton_self :
    groupOf (records ++ [r]) r.parent =
      ⟨r.parent, (groupOf records r.parent).ids ++ [r.id]⟩ := by
  simp [groupOf]

theorem map_groupOf_of_not_mem {keys : List (Option String)} (h : r.parent ∉ keys) :
    keys.map (groupOf (records ++ [r])) = keys.map (groupOf records) := by
  refine List.map_congr_left fun parent hparent => groupOf_append_singleton_of_ne ?_
  rintro rfl
  exact h hparent

/-- A record of a new parent is a group of its own, at the end. -/
theorem addToGroups_of_not_mem {keys : List (Option String)} (h : r.parent ∉ keys) :
    addToGroups r (keys.map (groupOf records)) =
      keys.map (groupOf records) ++ [⟨r.parent, [r.id]⟩] := by
  induction keys with
  | nil => rfl
  | cons parent keys ih =>
    obtain ⟨hne, hrest⟩ := not_or.mp (mt List.mem_cons.mpr h)
    have hother : (groupOf records parent).parent ≠ r.parent := fun heq => hne heq.symm
    rw [List.map_cons, addToGroups, if_neg hother, ih hrest, List.cons_append]

/-- A record of a parent that is there goes to the end of its group, and no other group changes. -/
theorem addToGroups_of_mem {keys : List (Option String)} (hnodup : keys.Nodup)
    (h : r.parent ∈ keys) :
    addToGroups r (keys.map (groupOf records)) = keys.map (groupOf (records ++ [r])) := by
  induction keys with
  | nil => cases h
  | cons parent keys ih =>
    obtain ⟨hparent, hnodup⟩ := List.nodup_cons.mp hnodup
    rw [List.map_cons, List.map_cons, addToGroups]
    by_cases heq : r.parent = parent
    · subst heq
      have hsame : (groupOf records r.parent).parent = r.parent := rfl
      rw [if_pos hsame, groupOf_append_singleton_self, map_groupOf_of_not_mem hparent, hsame]
    · have hother : (groupOf records parent).parent ≠ r.parent := fun hsame => heq hsame.symm
      rw [if_neg hother, groupOf_append_singleton_of_ne heq,
        ih hnodup ((List.mem_cons.mp h).resolve_left heq)]

/-- The groups are those of the distinct parents, in the order in which these come first. -/
theorem groupByParent_eq (records : List Record) :
    groupByParent records = (records.map Record.parent).eraseDups.map (groupOf records) := by
  -- A record joins the group of its parent, or opens one behind all the others.
  induction records using List.reverseRecOn with
  | nil => rfl
  | append_singleton records r ih =>
    have hstep : groupByParent (records ++ [r]) = addToGroups r (groupByParent records) := by
      rw [groupByParent, List.foldl_append]
      rfl
    rw [hstep, ih, List.map_append, List.map_singleton, eraseDups_append_singleton]
    by_cases h : r.parent ∈ records.map Record.parent
    · rw [if_pos h]
      exact addToGroups_of_mem (nodup_eraseDups _) (List.mem_eraseDups.mpr h)
    · have hkeys : r.parent ∉ (records.map Record.parent).eraseDups := mt List.mem_eraseDups.mp h
      have hlast : groupOf (records ++ [r]) r.parent = ⟨r.parent, [r.id]⟩ := by
        rw [groupOf_append_singleton_self, groupOf, under_eq_nil_iff.mpr h]
        rfl
      rw [if_neg h, addToGroups_of_not_mem hkeys, List.map_append, map_groupOf_of_not_mem hkeys,
        List.map_singleton, hlast]

/-- The sort brings the group without a parent to the front, if there is one. -/
theorem mergeSort_groupByParent (records : List Record) :
    (groupByParent records).mergeSort Group.le =
      ((if none ∈ records.map Record.parent then [none] else []) ++
        (parents records).map some).map (groupOf records) := by
  have hle : Group.le = fun a b => decide (a.parent.isSome ≤ b.parent.isSome) := rfl
  have hnone : ((fun group : Group => !group.parent.isSome) ∘ groupOf records) =
      fun parent => !parent.isSome := rfl
  have hsome : ((fun group : Group => group.parent.isSome) ∘ groupOf records) =
      Option.isSome := rfl
  have hparents : ((records.map Record.parent).filterMap id).eraseDups = parents records := by
    rw [List.filterMap_map]
    rfl
  rw [hle, mergeSort_eq_filter_append_filter, groupByParent_eq, List.filter_map, List.filter_map,
    hnone, hsome, filter_isNone_eraseDups, filter_isSome_eraseDups, hparents, List.map_append]

/-! ### The report -/

def linesUnder (records : List Record) (parent : Option String) : List Line :=
  parent.toList.map .heading ++ (under records parent).map .entry

theorem lines_eq (records : List Record) :
    lines records = (none :: (parents records).map some).flatMap (linesUnder records) := by
  rw [List.flatMap_cons, List.flatMap_map]
  rfl

theorem text_entries (records : List Record) (parent : Option String) :
    ((under records parent).map Line.entry).map Line.text =
      ((under records parent).map Record.id).map fun id =>
        if parent.isSome then "  " ++ id ++ "\n" else id ++ "\n" := by
  rw [List.map_map, List.map_map]
  refine List.map_congr_left fun r hr => ?_
  have hparent : r.parent = parent := by simpa [under] using (List.mem_filter.mp hr).2
  rw [Function.comp_apply, Line.text, hparent]
  rfl

theorem text_groupOf (records : List Record) (parent : Option String) :
    (groupOf records parent).text = String.join ((linesUnder records parent).map Line.text) := by
  rw [linesUnder, List.map_append, text_entries]
  cases parent with
  | none => rfl
  | some parent =>
    rw [Option.toList_some, List.map_singleton, List.map_singleton, List.singleton_append,
      String.join_cons]
    rfl

theorem report_eq (records : List Record) :
    report records = String.join ((lines records).map Line.text) := by
  -- Without a record outside all directories there is no first group, and nothing to print.
  have hnone : String.join (((if none ∈ records.map Record.parent then [none] else []).map
      (groupOf records)).map Group.text) = (groupOf records none).text := by
    split
    next => simp [String.join_cons]
    next hnone =>
      rw [groupOf, under_eq_nil_iff.mpr hnone]
      rfl
  have htext : Group.text ∘ groupOf records =
      fun parent => String.join ((linesUnder records parent).map Line.text) :=
    funext (text_groupOf records)
  calc report records
      = (groupOf records none).text ++
          String.join (((parents records).map some).map (Group.text ∘ groupOf records)) := by
        rw [report, mergeSort_groupByParent, List.map_append, List.map_append, String.join_append,
          hnone, List.map_map]
    _ = String.join ((none :: (parents records).map some).map (Group.text ∘ groupOf records)) := by
        rw [List.map_cons, String.join_cons]
        rfl
    _ = String.join ((lines records).map Line.text) := by
        rw [htext, lines_eq, List.map_flatMap, join_flatMap]

/-- A parent keeps the place where it came first, whatever came in between. -/
example : report [.ofId "b" (some "p"), .ofId "n" none, .ofId "c" (some "q"), .ofId "a" (some "p")] =
    "n\np:\n  b\n  a\nq:\n  c\n" := by
  rw [report_eq]
  decide +kernel

theorem filterMap_heading?_lines (records : List Record) :
    (lines records).filterMap Line.heading? = parents records := by
  have hunder : ∀ parent, (linesUnder records parent).filterMap Line.heading? = parent.toList := by
    intro parent
    have hentries : ((under records parent).map Line.entry).filterMap Line.heading? = [] := by
      simp [Line.heading?]
    rw [linesUnder, List.filterMap_append, hentries, List.append_nil, List.filterMap_map]
    exact List.filterMap_some
  rw [lines_eq, List.filterMap_flatMap]
  simp [hunder, List.flatMap_map]

/-- Every record has its line. -/
theorem filterMap_entry?_lines_perm (records : List Record) :
    ((lines records).filterMap Line.entry?).Perm records := by
  have hunder : ∀ parent,
      (linesUnder records parent).filterMap Line.entry? = under records parent := by
    intro parent
    have hheading : (parent.toList.map Line.heading).filterMap Line.entry? = [] := by
      simp [Line.entry?]
    rw [linesUnder, List.filterMap_append, hheading, List.nil_append, List.filterMap_map]
    exact List.filterMap_some
  have hnodup : (none :: (parents records).map some).Nodup := by
    rw [List.nodup_cons]
    exact ⟨by simp, (nodup_parents records).map (Option.some_injective String)⟩
  -- Every record is under one parent: its own, or none.
  have hcover : ∀ r ∈ records, r.parent ∈ none :: (parents records).map some := by
    intro r hr
    cases hparent : r.parent with
    | none => exact List.mem_cons_self ..
    | some parent =>
      exact List.mem_cons_of_mem _ (List.mem_map_of_mem (mem_parents.mpr ⟨r, hr, hparent⟩))
  rw [lines_eq, List.filterMap_flatMap]
  simp only [hunder]
  exact flatMap_filter_perm Record.parent hnodup hcover

/-- **A report groups the records without loss.**  It is the text of its `lines`; every record has
    one line, and every parent that some record names has one heading, in the order in which the
    parents come first. -/
theorem report_lines (records : List Record) :
    report records = String.join ((lines records).map Line.text) ∧
      ((lines records).filterMap Line.entry?).Perm records ∧
      (lines records).filterMap Line.heading? = parents records ∧
      (parents records).Nodup ∧
      ∀ parent, parent ∈ parents records ↔ ∃ r ∈ records, r.parent = some parent :=
  ⟨report_eq records, filterMap_entry?_lines_perm records, filterMap_heading?_lines records,
    nodup_parents records, fun _ => mem_parents⟩

end Check

end RecordFilter
