import Mathlib.Data.List.TakeWhile
/-!
# Longest runs

A longest run of characters of one kind ends where a character of another kind follows, and two
equal texts are cut alike at the first, or the last, character of one kind.
-/

namespace RecordFilter

variable {α : Type} {p : α → Bool} {a : α}

theorem takeWhile_append_of_head {first : List α} (hfirst : ∀ a ∈ first, p a = true)
    (rest : List α) (hrest : ∀ a ∈ rest.head?, p a = false) :
    (first ++ rest).takeWhile p = first ∧ (first ++ rest).dropWhile p = rest := by
  rw [List.takeWhile_append_of_pos hfirst, List.dropWhile_append_of_pos hfirst]
  cases rest with
  | nil => simp
  | cons a rest => simp [hrest a rfl]

theorem of_mem_head?_dropWhile {s : List α} (h : a ∈ (s.dropWhile p).head?) : p a = false := by
  have hnot := List.head?_dropWhile_not p s
  rw [h] at hnot
  exact hnot

theorem bne_of_not_mem {c : Char} {s : List Char} (h : c ∉ s) : ∀ d ∈ s, (d != c) = true := by
  intro d hd
  rw [bne_iff_ne]
  rintro rfl
  exact h hd

/-- What stands in front of an element of a list is nothing, or it begins as the list does. -/
theorem forall_split_cons {first : α} {rest : List α} {P : List α → List α → Prop} :
    (∀ before after, first :: rest = before ++ a :: after → P before after) ↔
      (first = a → P [] rest) ∧
        ∀ before after, rest = before ++ a :: after → P (first :: before) after := by
  constructor
  · intro h
    constructor
    · rintro rfl
      exact h [] rest rfl
    · rintro before after rfl
      exact h (first :: before) after rfl
  · rintro ⟨hhere, hlater⟩ before after heq
    cases before with
    | nil =>
      obtain ⟨rfl, rfl⟩ := List.cons.inj heq
      exact hhere rfl
    | cons b before =>
      obtain ⟨rfl, rfl⟩ := List.cons.inj heq
      exact hlater before after rfl

theorem forall_split_append {first rest : List α} {P : List α → List α → Prop} :
    (∀ before after, first ++ rest = before ++ a :: after → P before after) ↔
      (∀ before after, first = before ++ a :: after → P before (after ++ rest)) ∧
        ∀ before after, rest = before ++ a :: after → P (first ++ before) after := by
  induction first generalizing P with
  | nil => simp
  | cons b first ih =>
    rw [List.cons_append, forall_split_cons, forall_split_cons, ih, and_assoc]
    rfl

/-- Cut at the first `a`. -/
theorem cut_first {first first' rest rest' : List α} (h : a ∉ first) (h' : a ∉ first')
    (heq : first ++ a :: rest = first' ++ a :: rest') : first = first' ∧ rest = rest' := by
  induction first generalizing first' with
  | nil =>
    cases first' with
    | nil => exact ⟨rfl, (List.cons.inj heq).2⟩
    | cons b first' =>
      obtain ⟨rfl, -⟩ := List.cons.inj heq
      exact absurd (List.mem_cons_self ..) h'
  | cons b first ih =>
    cases first' with
    | nil =>
      obtain ⟨rfl, -⟩ := List.cons.inj heq
      exact absurd (List.mem_cons_self ..) h
    | cons b' first' =>
      obtain ⟨rfl, htail⟩ := List.cons.inj heq
      obtain ⟨rfl, hrest⟩ := ih (fun hmem => h (List.mem_cons_of_mem b hmem))
        (fun hmem => h' (List.mem_cons_of_mem b hmem)) htail
      exact ⟨rfl, hrest⟩

/-- Cut at the last `a`. -/
theorem cut_last {first first' rest rest' : List α} (h : a ∉ rest) (h' : a ∉ rest')
    (heq : first ++ a :: rest = first' ++ a :: rest') : first = first' ∧ rest = rest' := by
  have hreverse : rest.reverse ++ a :: first.reverse = rest'.reverse ++ a :: first'.reverse := by
    simpa using congrArg List.reverse heq
  obtain ⟨hrest, hfirst⟩ := cut_first (by simpa using h) (by simpa using h') hreverse
  exact ⟨List.reverse_inj.mp hfirst, List.reverse_inj.mp hrest⟩

end RecordFilter
