import Mathlib.Data.List.Induction
import Mathlib.Data.List.Nodup
import Mathlib.Data.Option.Basic
import Mathlib.Order.BooleanAlgebra.Basic
/-!
# Lists: distinct elements, stable sorting, elements by key

Distinct elements are taken at the place where each comes first, so a list that grows at its end
adds at most one to them.  A stable sort leaves the elements of a class in their order
(`filter_mergeSort`); sorted by a condition, a list is what does not meet the condition and then
what does.  Elements that are put together by key are all the elements, each once
(`flatMap_filter_perm`).
-/

namespace RecordFilter

variable {α κ : Type} {l : List α}

/-! ### Distinct elements, in the order in which they come first -/

theorem eraseDups_append_singleton [BEq α] [LawfulBEq α] (l : List α) (a : α) :
    (l ++ [a]).eraseDups = if a ∈ l then l.eraseDups else l.eraseDups ++ [a] := by
  rw [List.eraseDups_append]
  by_cases h : a ∈ l <;> simp [h, List.removeAll, List.eraseDups_cons]

theorem nodup_eraseDups [BEq α] [LawfulBEq α] (l : List α) : l.eraseDups.Nodup := by
  induction l using List.reverseRecOn with
  | nil => exact List.nodup_nil
  | append_singleton l a ih =>
    rw [eraseDups_append_singleton]
    split
    next => exact ih
    next hnew =>
      rw [← List.concat_eq_append, List.nodup_concat, List.mem_eraseDups]
      exact ⟨hnew, ih⟩

/-- Without `none`, the distinct elements are the distinct values that are there. -/
theorem filter_isSome_eraseDups [BEq α] [LawfulBEq α] (l : List (Option α)) :
    l.eraseDups.filter Option.isSome = (l.filterMap id).eraseDups.map some := by
  -- The induction is from the back, where `eraseDups` keeps an element or drops it.
  induction l using List.reverseRecOn with
  | nil => rfl
  | append_singleton l a ih =>
    rw [eraseDups_append_singleton, List.filterMap_append]
    cases a with
    | none =>
      have hnone : [none].filterMap (id : Option α → Option α) = [] := rfl
      rw [hnone, List.append_nil]
      split
      next => exact ih
      next => simp [ih]
    | some a =>
      have hmem : some a ∈ l ↔ a ∈ l.filterMap id := by simp
      have hsome : [some a].filterMap id = [a] := rfl
      rw [hsome, eraseDups_append_singleton]
      by_cases h : some a ∈ l
      · rw [if_pos h, if_pos (hmem.mp h), ih]
      · rw [if_neg h, if_neg (mt hmem.mpr h), List.filter_append, ih, List.map_append]
        rfl

theorem filter_isNone_eraseDups [BEq α] [LawfulBEq α] (l : List (Option α)) :
    (l.eraseDups.filter fun a => !a.isSome) = if none ∈ l then [none] else [] := by
  induction l using List.reverseRecOn with
  | nil => rfl
  | append_singleton l a ih =>
    rw [eraseDups_append_singleton]
    by_cases h : a ∈ l
    · have hmem : none ∈ l ++ [a] ↔ none ∈ l := by
        simp only [List.mem_append, List.mem_singleton, or_iff_left_iff_imp]
        rintro rfl
        exact h
      simp only [if_pos h, ih, hmem]
    · rw [if_neg h, List.filter_append, ih]
      cases a with
      | none => simp [h]
      | some a => simp

/-! ### What stands in front -/

/-- Where what has a property stands in front, taking it and picking it out are the same. -/
theorem takeWhile_eq_filter {p : α → Bool}
    (h : l.Pairwise fun a b => p b = true → p a = true) :
    l.takeWhile p = l.filter p ∧ l.dropWhile p = l.filter fun a => !p a := by
  induction l with
  | nil => simp
  | cons a rest ih =>
    obtain ⟨hfirst, hrest⟩ := List.pairwise_cons.mp h
    obtain ⟨htake, hdrop⟩ := ih hrest
    cases ha : p a with
    | true => simp [ha, htake, hdrop]
    | false =>
      have hnone : ∀ b ∈ rest, p b = false := by
        intro b hb
        rw [← Bool.not_eq_true]
        intro hpb
        rw [hfirst b hb hpb] at ha
        cases ha
      have hempty : rest.filter p = [] := List.filter_eq_nil_iff.mpr (by simpa using hnone)
      have hall : rest.filter (fun a => !p a) = rest :=
        List.filter_eq_self.mpr (by simpa using hnone)
      simp [ha, hempty, hall]

/-! ### A stable sort on two kinds -/

variable {le : α → α → Bool}

/-- Elements that the order takes to be alike stay as they are in a stable sort. -/
theorem filter_mergeSort (htrans : ∀ a b c, le a b = true → le b c = true → le a c = true)
    (htotal : ∀ a b, (le a b || le b a) = true) (p : α → Bool)
    (hp : (l.filter p).Pairwise fun a b => le a b = true) :
    (l.mergeSort le).filter p = l.filter p := by
  have hsublist : (l.filter p).Sublist (l.mergeSort le) :=
    List.sublist_mergeSort htrans htotal hp List.filter_sublist
  have hkept : (l.filter p).Sublist ((l.mergeSort le).filter p) := by
    simpa using hsublist.filter p
  exact (hkept.eq_of_length ((List.mergeSort_perm l le).filter p).length_eq.symm).symm

/-- In the ascending order of a condition, the elements that do not meet it stand in front. -/
theorem eq_filter_append_filter {p : α → Bool} (h : l.Pairwise fun a b => p a ≤ p b) :
    l = (l.filter fun a => !p a) ++ l.filter p := by
  have hfront : l.Pairwise fun a b => (!p b) = true → (!p a) = true := by
    refine h.imp fun {a b} hab hb => ?_
    cases ha : p a with
    | false => rfl
    | true => simp [Bool.eq_true_of_true_le (ha ▸ hab)] at hb
  obtain ⟨htake, hdrop⟩ := takeWhile_eq_filter hfront
  simp only [Bool.not_not] at hdrop
  rw [← htake, ← hdrop, List.takeWhile_append_dropWhile]

theorem mergeSort_eq_filter_append_filter (p : α → Bool) (l : List α) :
    (l.mergeSort fun a b => decide (p a ≤ p b)) = (l.filter fun a => !p a) ++ l.filter p := by
  have htrans : ∀ a b c, decide (p a ≤ p b) = true → decide (p b ≤ p c) = true →
      decide (p a ≤ p c) = true := by
    simp only [decide_eq_true_eq]
    exact fun a b c => le_trans
  have htotal : ∀ a b, (decide (p a ≤ p b) || decide (p b ≤ p a)) = true := by
    simp only [Bool.or_eq_true, decide_eq_true_eq]
    exact fun a b => le_total (p a) (p b)
  have hsorted : (l.mergeSort fun a b => decide (p a ≤ p b)).Pairwise fun a b => p a ≤ p b := by
    simpa using List.pairwise_mergeSort htrans htotal l
  -- Sorted, the elements without `p` come first; each half is in order already and stays so.
  rw [eq_filter_append_filter hsorted, filter_mergeSort htrans htotal,
    filter_mergeSort htrans htotal]
  · rw [List.pairwise_filter]
    exact List.pairwise_of_forall fun a b ha hb => by simp [ha, hb]
  · rw [List.pairwise_filter]
    refine List.pairwise_of_forall fun a b ha hb => ?_
    simp only [Bool.not_eq_true'] at ha hb
    simp [ha, hb]

/-! ### All elements, key by key -/

/-- Nothing is lost or doubled when elements are put together by their keys. -/
theorem flatMap_filter_perm [BEq κ] [LawfulBEq κ] (key : α → κ) {keys : List κ}
    (hnodup : keys.Nodup) (h : ∀ a ∈ l, key a ∈ keys) :
    (keys.flatMap fun k => l.filter (key · == k)).Perm l := by
  -- The elements of the first key are taken out, and the other keys serve for what is left.
  induction keys generalizing l with
  | nil =>
    have hempty : l = [] := List.eq_nil_iff_forall_not_mem.mpr fun a ha => by simpa using h a ha
    simp [hempty]
  | cons k keys ih =>
    obtain ⟨hk, hnodup⟩ := List.nodup_cons.mp hnodup
    have hrest : (keys.flatMap fun k' => l.filter (key · == k')) =
        keys.flatMap fun k' => (l.filter fun a => !(key a == k)).filter (key · == k') := by
      refine List.flatMap_congr fun k' hk' => ?_
      rw [List.filter_filter]
      refine List.filter_congr fun a _ => ?_
      have hne : k' ≠ k := by
        rintro rfl
        exact hk hk'
      by_cases ha : key a = k' <;> simp [ha, hne]
    have hkeys : ∀ a ∈ l.filter fun a => !(key a == k), key a ∈ keys := by
      intro a ha
      obtain ⟨hmem, hne⟩ := List.mem_filter.mp ha
      exact (List.mem_cons.mp (h a hmem)).resolve_left (by simpa using hne)
    rw [List.flatMap_cons, hrest]
    exact ((ih hnodup hkeys).append_left _).trans (List.filter_append_perm (key · == k) l)

theorem join_flatMap (f : α → List String) (l : List α) :
    String.join (l.flatMap f) = String.join (l.map fun a => String.join (f a)) := by
  induction l with
  | nil => rfl
  | cons a l ih =>
    rw [List.flatMap_cons, String.join_append, List.map_cons, String.join_cons, ih]

end RecordFilter
