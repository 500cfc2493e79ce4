import Mathlib.Control.Monad.Basic
import Mathlib.Data.List.Induction
import RecordFilter.Expr.ParseError
/-!
# Results that can be errors

A computation in steps has a result exactly when every step has one, and an error when some step
has one.  When the steps go through a list, what each of them preserves holds of the result
(`foldlM_induction`), and an error is that of one step, with results before it
(`exists_of_foldlM_eq_error`).
-/

namespace RecordFilter

variable {ε α β : Type}

@[simp] theorem bind_eq_ok_iff {x : Except ε α} {f : α → Except ε β} {b : β} :
    (x >>= f) = .ok b ↔ ∃ a, x = .ok a ∧ f a = .ok b := by
  cases x <;> simp [bind, Except.bind]

@[simp] theorem bind_eq_error_iff {x : Except ε α} {f : α → Except ε β} {error : ε} :
    (x >>= f) = .error error ↔ x = .error error ∨ ∃ a, x = .ok a ∧ f a = .error error := by
  cases x <;> simp [bind, Except.bind]

@[simp] theorem pure_eq_ok_iff {a b : α} : (pure a : Except ε α) = .ok b ↔ a = b := by
  simp [pure, Except.pure]

@[simp] theorem map_eq_ok_iff {x : Except ε α} {f : α → β} {b : β} :
    f <$> x = .ok b ↔ ∃ a, x = .ok a ∧ f a = b := by
  cases x <;> simp [Functor.map, Except.map]

/-- The last step of a computation only puts its result together. -/
theorem bind_pure_eq_ok_iff {x : Except ε α} {f : α → β} {b : β} :
    (x >>= fun a => pure (f a)) = .ok b ↔ ∃ a, x = .ok a ∧ f a = b := by
  simp

/-- What holds of the state and of the elements taken so far, if every step preserves it. -/
theorem foldlM_induction {f : β → α → Except ε β} {P : List α → β → Prop} {l : List α}
    {first last : β} (hfirst : P [] first)
    (hstep : ∀ a ∈ l, ∀ taken s next, P taken s → f s a = .ok next → P (taken ++ [a]) next)
    (h : l.foldlM f first = .ok last) : P l last := by
  induction l using List.reverseRecOn generalizing last with
  | nil =>
    obtain rfl := pure_eq_ok_iff.mp h
    exact hfirst
  | append_singleton l a ih =>
    rw [List.foldlM_append, bind_eq_ok_iff] at h
    obtain ⟨s, hs, hlast⟩ := h
    rw [List.foldlM_cons, bind_eq_ok_iff] at hlast
    obtain ⟨next, hnext, hlast⟩ := hlast
    obtain rfl := pure_eq_ok_iff.mp hlast
    have htaken : P l s := ih (fun b hb => hstep b (List.mem_append_left _ hb)) hs
    exact hstep a (by simp) l s next htaken hnext

/-- A fold that fails has a first element at which it does. -/
theorem exists_of_foldlM_eq_error {f : β → α → Except ε β} {l : List α} {first : β} {error : ε}
    (h : l.foldlM f first = .error error) :
    ∃ taken a rest s, l = taken ++ a :: rest ∧ taken.foldlM f first = .ok s ∧
      f s a = .error error := by
  induction l generalizing first with
  | nil => cases h
  | cons a rest ih =>
    rw [List.foldlM_cons, bind_eq_error_iff] at h
    rcases h with herror | ⟨next, hnext, hrest⟩
    · exact ⟨[], a, rest, first, rfl, rfl, herror⟩
    · obtain ⟨taken, b, rest, s, rfl, hs, herror⟩ := ih hrest
      refine ⟨a :: taken, b, rest, s, rfl, ?_, herror⟩
      rw [List.foldlM_cons, bind_eq_ok_iff]
      exact ⟨next, hnext, hs⟩

end RecordFilter
