import RecordFilter.Proofs.Dictionaries
import RecordFilter.Proofs.Except
import RecordFilter.Proofs.Folding
import RecordFilter.Record.Json
/-!
# Loaded records

What holds of every record that is loaded (`isLoaded_of_load`): its properties are kept under the
folded names they are shown by, these names are trimmed, and no value is a text that could have been
read as an instant.  Every property that is stored keeps this up, so it is an invariant of loading.
-/

namespace RecordFilter

/-- The values that JSON has: no column types, and no texts that read as instants. -/
def Value.IsLoaded : Value → Prop
  | text s => Instant.readInternet? s.toList = none
  | columnType _ => False
  | _ => True

theorem Value.isLoaded_of_ofJson? {json : Json} {value : Value} (h : ofJson? json = some value) :
    value.IsLoaded := by
  cases json with
  | null =>
    cases h
    exact trivial
  | boolean b =>
    cases h
    exact trivial
  | integer n =>
    rw [ofJson?, Option.some.injEq] at h
    subst h
    split <;> exact trivial
  | float x =>
    cases h
    exact trivial
  | string s =>
    rw [ofJson?, Option.some.injEq] at h
    subst h
    split
    · exact trivial
    next hread => exact hread
  | array items => cases h
  | object members => cases h

namespace Record

variable {r : Record} {key name : String} {value : Value}

def IsLoaded (r : Record) : Prop :=
  ∀ key name value, r.properties.find? key = some (name, value) →
    key = Text.fold name ∧ Text.trimmed name = name ∧ value.IsLoaded

theorem isLoaded_ofId (id : String) (parent : Option String) : (ofId id parent).IsLoaded := by
  intro key name value h
  cases h

theorem IsLoaded.insert (h : r.IsLoaded) (name : String) (hvalue : value.IsLoaded) :
    (r.insert name value).IsLoaded := by
  intro key name' value' hfind
  rw [Record.insert, Dictionary.find?_insert] at hfind
  split at hfind
  next hkey =>
    cases hfind
    exact ⟨by rw [hkey, Text.fold_trimmed], Text.trimmed_trimmed name, hvalue⟩
  next => exact h key name' value' hfind

theorem IsLoaded.insertJson (h : r.IsLoaded) (name : String) (json : Json) :
    (r.insertJson name json).IsLoaded := by
  rw [Record.insertJson]
  split
  next hvalue => exact h.insert name (Value.isLoaded_of_ofJson? hvalue)
  next => exact h

theorem IsLoaded.insertMember (h : r.IsLoaded) (member : String × Json) :
    (r.insertMember member).IsLoaded := by
  rw [Record.insertMember]
  split
  next nested _ =>
    exact List.foldlRecOn nested _ h fun r hr _ _ => hr.insertJson _ _
  next => exact h.insertJson _ _

theorem isLoaded_ofMembers (index : Nat) (members : List (String × Json)) :
    (ofMembers index members).IsLoaded :=
  List.foldlRecOn _ _ (isLoaded_ofId _ _) fun _ hr member _ => hr.insertMember member

theorem isLoaded_of_ofItems {items : List Json} {index : Nat} {records : List Record}
    (h : ofItems index items = .ok records) : ∀ r ∈ records, r.IsLoaded := by
  induction items generalizing index records with
  | nil =>
    cases h
    simp
  | cons item rest ih =>
    cases item with
    | object members =>
      obtain ⟨others, hothers, rfl⟩ := bind_pure_eq_ok_iff.mp h
      intro r hr
      rcases List.mem_cons.mp hr with rfl | hr
      · exact isLoaded_ofMembers index members
      · exact ih hothers r hr
    | _ => cases h

theorem isLoaded_of_load {text : String} {records : List Record} (h : load text = .ok records) :
    ∀ r ∈ records, r.IsLoaded := by
  rw [load] at h
  split at h
  next json _ =>
    cases json with
    | array items => exact isLoaded_of_ofItems h
    | _ => cases h
  next => cases h

end Record

end RecordFilter
