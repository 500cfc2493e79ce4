import Mathlib.Algebra.Ring.Nat
import Mathlib.Data.List.Sort
import RecordFilter.Dictionary
import RecordFilter.Proofs.Lists
/-!
# What a dictionary holds

A dictionary is determined by what is found in it (`ext_find?`), and an insertion changes what is
found under one key (`find?_insert`).  The keys that begin with one string stand together, so the
part of the entries that `startingWith` cuts out is all of them (`startingWith_eq_filter`).
-/

namespace RecordFilter.Dictionary

variable {α : Type} {d : Dictionary α} {key k : String} {value v : α}

/-! ### What is found -/

theorem lookup_cons_eq (k k' : String) (v : α) (rest : List (String × α)) :
    ((k', v) :: rest).lookup k = if k = k' then some v else rest.lookup k := by
  by_cases h : k = k'
  · simp [h]
  · simp [List.lookup_cons, h, beq_false_of_ne h]

@[simp] theorem lookup_insertEntry (key k : String) (value : α) (entries : List (String × α)) :
    (insertEntry key value entries).lookup k =
      if k = key then some value else entries.lookup k := by
  -- The cases are those of `insertEntry`: the key is there, belongs here, or comes later.
  induction entries with
  | nil => simp [insertEntry, lookup_cons_eq]
  | cons entry rest ih =>
    obtain ⟨k', v⟩ := entry
    rw [insertEntry]
    by_cases heq : key = k'
    · subst heq
      rw [if_pos rfl, lookup_cons_eq, lookup_cons_eq]
      by_cases hk : k = key
      · simp [hk]
      · simp [hk]
    · rw [if_neg heq]
      by_cases hlt : key < k'
      · rw [if_pos hlt, lookup_cons_eq]
      · rw [if_neg hlt, lookup_cons_eq, lookup_cons_eq, ih]
        by_cases hk : k = key
        · subst hk
          simp [heq]
        · simp [hk]

@[simp] theorem find?_insert (d : Dictionary α) (key k : String) (value : α) :
    (d.insert key value).find? k = if k = key then some value else d.find? k :=
  lookup_insertEntry key k value d.entries

/-- Of several entries with one key the last one inserted counts. -/
theorem lookup_foldl_insertEntry (added entries : List (String × α)) (k : String) :
    (added.foldl (fun sorted entry => insertEntry entry.1 entry.2 sorted) entries).lookup k =
      (added.reverse.lookup k).or (entries.lookup k) := by
  induction added generalizing entries with
  | nil => rfl
  | cons entry added ih =>
    obtain ⟨key, value⟩ := entry
    rw [List.foldl_cons, ih, lookup_insertEntry, List.reverse_cons, List.lookup_append,
      Option.or_assoc, lookup_cons_eq, List.lookup_nil]
    by_cases hk : k = key
    · simp [hk]
    · simp [hk]

theorem ascending_foldl_insertEntry (added : List (String × α)) {entries : List (String × α)}
    (h : (entries.map Prod.fst).Pairwise (· < ·)) :
    ((added.foldl (fun sorted entry => insertEntry entry.1 entry.2 sorted) entries).map
      Prod.fst).Pairwise (· < ·) := by
  induction added generalizing entries with
  | nil => exact h
  | cons entry added ih => exact ih (ascending_insertEntry entry.1 entry.2 h)

/-- Of the entries inserted one after the other the last one under a key is found. -/
theorem find?_foldl_insert (added : List (String × α)) (d : Dictionary α) (k : String) :
    (added.foldl (fun d entry => d.insert entry.1 entry.2) d).find? k =
      (added.reverse.lookup k).or (d.find? k) := by
  have hentries : (added.foldl (fun d entry => d.insert entry.1 entry.2) d).entries =
      added.foldl (fun sorted entry => insertEntry entry.1 entry.2 sorted) d.entries := by
    induction added generalizing d with
    | nil => rfl
    | cons entry added ih => exact ih (d.insert entry.1 entry.2)
  rw [find?, hentries, lookup_foldl_insertEntry, find?]

@[simp] theorem find?_empty (k : String) : (empty : Dictionary α).find? k = none := rfl

theorem contains_iff : d.contains key = true ↔ ∃ value, d.find? key = some value := by
  rw [contains, Option.isSome_iff_exists]

/-! ### What the entries are -/

theorem mem_of_lookup_eq_some {entries : List (String × α)}
    (h : entries.lookup key = some value) : (key, value) ∈ entries := by
  obtain ⟨before, after, rfl, -⟩ := List.lookup_eq_some_iff.mp h
  exact List.mem_append_right before (List.mem_cons_self ..)

theorem lookup_eq_some_iff_mem_of_nodup {entries : List (String × α)}
    (h : (entries.map Prod.fst).Nodup) :
    entries.lookup key = some value ↔ (key, value) ∈ entries := by
  induction entries with
  | nil => simp
  | cons entry rest ih =>
    obtain ⟨k, v⟩ := entry
    rw [List.map_cons, List.nodup_cons] at h
    rw [lookup_cons_eq, List.mem_cons]
    by_cases hk : key = k
    · subst hk
      have hnot : (key, value) ∉ rest := by
        intro hmem
        have hkey := List.mem_map_of_mem (f := Prod.fst) hmem
        exact h.1 hkey
      simp [hnot, eq_comm]
    · simp [hk, ih h.2]

theorem nodup_of_ascending {keys : List String} (h : keys.Pairwise (· < ·)) : keys.Nodup := by
  refine h.imp ?_
  rintro key _ hlt rfl
  exact String.lt_irrefl key hlt

theorem lookup_eq_some_iff_mem {entries : List (String × α)}
    (h : (entries.map Prod.fst).Pairwise (· < ·)) :
    entries.lookup key = some value ↔ (key, value) ∈ entries :=
  lookup_eq_some_iff_mem_of_nodup (nodup_of_ascending h)

theorem find?_eq_some_iff_mem : d.find? key = some value ↔ (key, value) ∈ d.entries :=
  lookup_eq_some_iff_mem d.ascending

theorem mem_values_iff : value ∈ d.values ↔ ∃ key, d.find? key = some value := by
  simp [values, find?_eq_some_iff_mem]

theorem lookup_eq_none_of_lt {entries : List (String × α)}
    (h : ∀ k ∈ entries.map Prod.fst, key < k) :
    entries.lookup key = none := by
  cases hfound : entries.lookup key with
  | none => rfl
  | some value =>
    have hmem := List.mem_map_of_mem (f := Prod.fst) (mem_of_lookup_eq_some hfound)
    exact absurd (h key hmem) (String.lt_irrefl key)

/-- A total over all values changes by what an insertion puts in the place of what was there. -/
theorem sum_insertEntry (f : α → Nat) {entries : List (String × α)}
    (h : (entries.map Prod.fst).Pairwise (· < ·)) :
    ((insertEntry key value entries).map fun entry => f entry.2).sum +
        ((entries.lookup key).map f).getD 0 =
      (entries.map fun entry => f entry.2).sum + f value := by
  induction entries with
  | nil => simp [insertEntry]
  | cons entry rest ih =>
    obtain ⟨k, v⟩ := entry
    rw [List.map_cons, List.pairwise_cons] at h
    rw [insertEntry, lookup_cons_eq]
    by_cases heq : key = k
    · simp [heq, Nat.add_comm, Nat.add_left_comm]
    · rw [if_neg heq, if_neg heq]
      by_cases hlt : key < k
      · -- Where the new key is put nothing was found before, as the keys behind it are greater.
        have hbefore : ∀ k' ∈ rest.map Prod.fst, key < k' := fun k' hk' =>
          String.lt_trans hlt (h.1 k' hk')
        simp [hlt, lookup_eq_none_of_lt hbefore, Nat.add_comm]
      · have hrest := ih h.2
        simp only [hlt, if_false, List.map_cons, List.sum_cons]
        omega

theorem sum_insert (d : Dictionary α) (f : α → Nat) (key : String) (value : α) :
    ((d.insert key value).values.map f).sum + ((d.find? key).map f).getD 0 =
      (d.values.map f).sum + f value := by
  simpa [values, insert, find?, Function.comp_def] using sum_insertEntry f d.ascending

theorem size_insert (value : α) (h : d.find? key = none) :
    (d.insert key value).size = d.size + 1 := by
  simpa [size, values, h, Function.comp_def] using sum_insert d (fun _ => 1) key value

/-- Entries in ascending order of their keys are determined by which entries they are. -/
theorem eq_of_mem_iff {first second : List (String × α)}
    (hfirst : (first.map Prod.fst).Pairwise (· < ·))
    (hsecond : (second.map Prod.fst).Pairwise (· < ·))
    (h : ∀ entry, entry ∈ first ↔ entry ∈ second) : first = second := by
  have hirrefl : Std.Irrefl fun a b : String × α => a.1 < b.1 := ⟨fun _ => String.lt_irrefl _⟩
  have hantisymm : Std.Antisymm fun a b : String × α => a.1 < b.1 :=
    ⟨fun _ _ hab hba => absurd (String.lt_trans hab hba) (String.lt_irrefl _)⟩
  exact (List.pairwise_map.mp hfirst).eq_of_mem_iff (List.pairwise_map.mp hsecond) h

/-- A dictionary is what is found in it. -/
theorem ext_find? {first second : Dictionary α} (h : ∀ key, first.find? key = second.find? key) :
    first = second := by
  obtain ⟨entries, hentries⟩ := first
  obtain ⟨others, hothers⟩ := second
  have heq : entries = others := by
    refine eq_of_mem_iff hentries hothers fun entry => ?_
    rw [← lookup_eq_some_iff_mem hentries, ← lookup_eq_some_iff_mem hothers]
    exact iff_of_eq (congrArg (· = some entry.2) (h entry.1))
  subst heq
  rfl

/-! ### Keys that begin alike -/

theorem startsWith_iff {s pattern : String} :
    Text.startsWith s pattern = true ↔ pattern.toList <+: s.toList :=
  List.isPrefixOf_iff_prefix

theorem not_lt_of_startsWith {s pattern : String} (h : Text.startsWith s pattern = true) :
    ¬ s < pattern := by
  rw [String.lt_iff, List.not_lt]
  exact (startsWith_iff.mp h).le

/-- Of the strings from a stem on, those before one that begins with the stem begin with it. -/
theorem prefix_of_lt {stem first second : List Char} (hstem : ¬ first < stem)
    (hlt : first < second) (h : stem <+: second) : stem <+: first := by
  induction stem generalizing first second with
  | nil => exact List.nil_prefix
  | cons c stem ih =>
    cases second with
    | nil => simp at h
    | cons b second =>
      obtain ⟨rfl, hsecond⟩ := List.cons_prefix_cons.mp h
      cases first with
      | nil => exact absurd (List.nil_lt_cons c stem) hstem
      | cons a first =>
        rw [List.cons_lt_cons_iff] at hstem hlt
        rcases hlt with hlt | ⟨rfl, hlt⟩
        · exact absurd (.inl hlt) hstem
        · exact List.cons_prefix_cons.mpr ⟨rfl, ih (fun h => hstem (.inr ⟨rfl, h⟩)) hlt hsecond⟩

/-- The entries from a stem on, as long as their keys start with it, are all entries whose keys
do. -/
theorem startingWith_eq_filter (d : Dictionary α) (stem : String) :
    d.startingWith stem = d.entries.filter fun entry => Text.startsWith entry.1 stem := by
  have hascending := List.pairwise_map.mp d.ascending
  -- Keys below the stem come first, and among the others those that start with it.
  have hbelow : d.entries.Pairwise fun a b =>
      decide (b.1 < stem) = true → decide (a.1 < stem) = true := by
    refine hascending.imp fun hab hb => ?_
    simp only [decide_eq_true_eq] at hb ⊢
    exact String.lt_trans hab hb
  have hfrom : (d.entries.filter fun entry => !decide (entry.1 < stem)).Pairwise fun a b =>
      Text.startsWith b.1 stem = true → Text.startsWith a.1 stem = true := by
    refine List.Pairwise.imp_of_mem ?_ (hascending.filter _)
    intro a b ha _ hab hb
    have hstem : ¬ a.1 < stem := by simpa using (List.mem_filter.mp ha).2
    rw [String.lt_iff] at hstem hab
    exact startsWith_iff.mpr (prefix_of_lt hstem hab (startsWith_iff.mp hb))
  rw [startingWith, (takeWhile_eq_filter hbelow).2, (takeWhile_eq_filter hfrom).1,
    List.filter_filter]
  refine List.filter_congr fun entry _ => ?_
  cases hstart : Text.startsWith entry.1 stem with
  | false => rfl
  | true => simpa using not_lt_of_startsWith hstart

@[simp] theorem mem_startingWith {stem : String} :
    (key, value) ∈ d.startingWith stem ↔
      d.find? key = some value ∧ Text.startsWith key stem = true := by
  rw [startingWith_eq_filter, List.mem_filter, find?_eq_some_iff_mem]

theorem ascending_startingWith (d : Dictionary α) (stem : String) :
    ((d.startingWith stem).map Prod.fst).Pairwise (· < ·) := by
  rw [startingWith_eq_filter, List.pairwise_map]
  exact (List.pairwise_map.mp d.ascending).filter _

theorem startingWith_eq_nil {stem : String}
    (h : ∀ key value, d.find? key = some value → ¬ Text.startsWith key stem = true) :
    d.startingWith stem = [] := by
  rw [List.eq_nil_iff_forall_not_mem]
  rintro ⟨key, value⟩ hmem
  obtain ⟨hfind, hstart⟩ := mem_startingWith.mp hmem
  exact h key value hfind hstart

theorem startingWith_eq_singleton {stem : String} (hfind : d.find? key = some value)
    (hstart : Text.startsWith key stem = true)
    (honly : ∀ k v, d.find? k = some v → Text.startsWith k stem = true → k = key) :
    d.startingWith stem = [(key, value)] := by
  refine eq_of_mem_iff (ascending_startingWith d stem) (List.pairwise_singleton _ _) ?_
  rintro ⟨k, v⟩
  rw [mem_startingWith, List.mem_singleton, Prod.mk.injEq]
  constructor
  · rintro ⟨hk, hstartk⟩
    obtain rfl := honly k v hk hstartk
    rw [hfind] at hk
    exact ⟨rfl, (Option.some.inj hk).symm⟩
  · rintro ⟨rfl, rfl⟩
    exact ⟨hfind, hstart⟩

end RecordFilter.Dictionary
