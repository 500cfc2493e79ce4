import RecordFilter.Text.Fold
/-!
# Dictionaries

A dictionary gives values to strings.  Its entries are kept in ascending order of the keys, each
key once, so that two dictionaries with the same content are equal, and all keys that begin with
one string stand together (`Dictionary.startingWith`).
-/

namespace RecordFilter

structure Dictionary (α : Type) where
  entries : List (String × α)
  ascending : (entries.map Prod.fst).Pairwise (· < ·)
deriving DecidableEq

namespace Dictionary

variable {α : Type}

/-! ### Insertion into a list of entries -/

def insertEntry (key : String) (value : α) : List (String × α) → List (String × α)
  | [] => [(key, value)]
  | (k, v) :: rest =>
    if key = k then (key, value) :: rest
    else if key < k then (key, value) :: (k, v) :: rest
    else (k, v) :: insertEntry key value rest

theorem mem_keys_insertEntry {key k : String} {value : α} {entries : List (String × α)}
    (h : k ∈ (insertEntry key value entries).map Prod.fst) :
    k = key ∨ k ∈ entries.map Prod.fst := by
  induction entries with
  | nil => simpa [insertEntry] using h
  | cons entry rest ih =>
    obtain ⟨k', v⟩ := entry
    rw [insertEntry] at h
    split at h
    · simp only [List.map_cons, List.mem_cons] at h ⊢
      exact h.elim .inl fun h => .inr (.inr h)
    · split at h
      · simpa using h
      · simp only [List.map_cons, List.mem_cons] at h ⊢
        rcases h with h | h
        · exact .inr (.inl h)
        · exact (ih h).elim .inl fun h => .inr (.inr h)

theorem ascending_insertEntry (key : String) (value : α) {entries : List (String × α)}
    (h : (entries.map Prod.fst).Pairwise (· < ·)) :
    ((insertEntry key value entries).map Prod.fst).Pairwise (· < ·) := by
  induction entries with
  | nil => simp [insertEntry]
  | cons entry rest ih =>
    obtain ⟨k, v⟩ := entry
    simp only [List.map_cons, List.pairwise_cons] at h
    rw [insertEntry]
    split
    next heq => simpa [heq] using h
    next hne =>
      split
      next hlt =>
        simp only [List.map_cons, List.pairwise_cons, List.mem_cons]
        refine ⟨?_, h⟩
        rintro k' (rfl | hk')
        · exact hlt
        · exact String.lt_trans hlt (h.1 k' hk')
      next hnlt =>
        simp only [List.map_cons, List.pairwise_cons]
        refine ⟨fun k' hk' => ?_, ih h.2⟩
        rcases mem_keys_insertEntry hk' with rfl | hk'
        · exact Std.lt_of_le_of_ne (Std.not_lt.mp hnlt) (Ne.symm hne)
        · exact h.1 k' hk'

/-! ### Operations -/

def empty : Dictionary α := ⟨[], .nil⟩

def insert (d : Dictionary α) (key : String) (value : α) : Dictionary α :=
  ⟨insertEntry key value d.entries, ascending_insertEntry key value d.ascending⟩

def find? (d : Dictionary α) (key : String) : Option α := d.entries.lookup key

def contains (d : Dictionary α) (key : String) : Bool := (d.find? key).isSome

def values (d : Dictionary α) : List α := d.entries.map Prod.snd

def size (d : Dictionary α) : Nat := d.entries.length

/-- The entries whose keys begin with `stem`: those from `stem` on, up to the first that does not
    begin with it. -/
def startingWith (d : Dictionary α) (stem : String) : List (String × α) :=
  (d.entries.dropWhile fun entry => decide (entry.1 < stem)).takeWhile fun entry =>
    Text.startsWith entry.1 stem

end Dictionary

end RecordFilter
