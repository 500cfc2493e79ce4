import Mathlib.Data.List.Nodup
import RecordFilter.Proofs.Instants
import RecordFilter.Proofs.JsonTexts
import RecordFilter.Proofs.Loading
/-!
# Loading exported records

Records that were loaded, written out as an array and loaded again are the same records exactly when
each of them is portable (`load_exportText_iff`): no property is shown by a name that is the
record's own, instants have years of four digits, and the texts of floats are read exactly.

A record is compared with what is made of its members (`ofMembers_exported_iff`), which rests on
what is found in it afterwards (`find?_ofMembers`): under every name the value that the JSON of the
stored value is read as.
-/

namespace RecordFilter

/-! ### Values -/

namespace Value

/-- Whether a value of a loaded record is the same when it is written and read.

    The case of floats is the reading back itself.  The reader of numbers rounds the digits, the
    power of ten and then their product, so the shortest digits of a float may be read as its
    neighbour, and the floats for which this happens have no simpler description.  An instant comes
    back if its year has four digits, and so does every other value that can be loaded. -/
def isPortable : Value → Bool
  | float x => (Json.readNumber? (Json.floatText x).toList >>= ofJson?) == some (float x)
  | dateTime t => 0 ≤ t.date.year && t.date.year ≤ 9999
  | _ => true

/-- A loaded value comes back from its JSON form exactly when it is portable. -/
theorem reread?_toJson_iff {value : Value} (h : value.IsLoaded) :
    (value.toJson.reread? >>= ofJson?) = some value ↔ value.isPortable = true := by
  -- Null, texts and booleans always come back, numbers and dates when they are written exactly.
  cases value with
  | null => simp [toJson, Json.reread?, ofJson?, isPortable]
  | text s =>
    -- A text that was loaded is none that reads as a date.
    have hread : Instant.readInternet? s.toList = none := h
    simp [toJson, Json.reread?, ofJson?, isPortable, hread]
  | integer n =>
    have hread : Json.readNumber? (toString n.toInt).toList = some (.integer n.toInt) :=
      Json.readNumber?_toString n.le_toInt (by have := n.toInt_lt; omega)
    rw [toJson, Json.reread?, hread, Option.bind_eq_bind, Option.bind_some, ofJson?,
      Numeral.int64?_toInt]
    simp [isPortable]
  | float x =>
    rw [toJson, isPortable, beq_iff_eq]
    by_cases hx : x.isFinite = true
    · rw [if_pos hx, Json.reread?, if_pos hx]
    · -- What is not finite is written as `null`, which is no number.
      have hname : Json.readNumber? "null".toList = none := by decide
      rw [if_neg hx, Json.floatText, if_neg hx, hname]
      simp [Json.reread?, ofJson?]
  | dateTime t =>
    have hiff := t.readInternet?_internetText_iff
    rw [toJson, Json.reread?, isPortable, Bool.and_eq_true, decide_eq_true_eq, decide_eq_true_eq,
      ← hiff, Option.bind_eq_bind, Option.bind_some, ofJson?]
    cases Instant.readInternet? t.internetText.toList <;> simp
  | boolean b => simp [toJson, Json.reread?, ofJson?, isPortable]
  | columnType type => exact absurd h id

theorem depth_toJson (value : Value) : value.toJson.depth = 0 := by
  cases value with
  | float x =>
    rw [toJson]
    split <;> rfl
  | _ => rfl

theorem ofJson?_of_readNumber? {s : List Char} {json : Json} (h : Json.readNumber? s = some json) :
    ∃ value, ofJson? json = some value := by
  obtain ⟨number, -, hjson⟩ := Option.bind_eq_some_iff.mp h
  rw [Json.NumberText.toJson?] at hjson
  split at hjson
  next =>
    cases hjson
    exact ⟨_, rfl⟩
  next =>
    split at hjson
    next =>
      cases hjson
      exact ⟨_, rfl⟩
    next =>
      obtain ⟨m, -, rfl⟩ := Option.map_eq_some_iff.mp hjson
      exact ⟨_, rfl⟩

/-- What the JSON of a value is read as has a value again. -/
theorem exists_ofJson? {value : Value} {json : Json} (h : value.toJson.reread? = some json) :
    ∃ value', ofJson? json = some value' := by
  cases value with
  | integer n => exact ofJson?_of_readNumber? h
  | float x =>
    rw [toJson] at h
    split at h
    next hx =>
      rw [Json.reread?, if_pos hx] at h
      exact ofJson?_of_readNumber? h
    next =>
      cases h
      exact ⟨_, rfl⟩
  | _ =>
    cases h
    exact ⟨_, rfl⟩

end Value

/-! ### Records -/

namespace Record

variable {r : Record} {read : List (String × Json)}

/-- The names of the members that are not properties. -/
def isOwn (name : String) : Bool := name == "id" || name == "parent"

/-- Whether a loaded record is the same when it is exported and loaded again. -/
def isPortable (r : Record) : Bool :=
  r.shownProperties.all fun (name, value) => !isOwn name && value.isPortable

def ownMembers (r : Record) : List (String × Json) :=
  ("id", .string r.id) :: (r.parent.map fun parent => ("parent", Json.string parent)).toList

def shownMembers (r : Record) : List (String × Json) :=
  r.shownProperties.map fun (name, value) => (name, value.toJson)

/-- The members of the JSON of a record; a property counts more than what is the record's own. -/
def exported (r : Record) : List (String × Json) :=
  (r.ownMembers ++ r.shownMembers).foldl
    (fun sorted entry => Dictionary.insertEntry entry.1 entry.2 sorted) []

theorem toJson_eq (r : Record) : r.toJson = .object r.exported := rfl

theorem ascending_exported (r : Record) : (r.exported.map Prod.fst).Pairwise (· < ·) :=
  Dictionary.ascending_foldl_insertEntry (r.ownMembers ++ r.shownMembers) .nil

theorem mem_shownProperties_iff (h : r.IsLoaded) {name : String} {value : Value} :
    (name, value) ∈ r.shownProperties ↔
      r.properties.find? (Text.fold name) = some (name, value) := by
  rw [shownProperties, Dictionary.mem_values_iff]
  constructor
  · rintro ⟨key, hfind⟩
    rwa [(h key name value hfind).1] at hfind
  · intro hfind
    exact ⟨_, hfind⟩

theorem keys_eq_fold_shown (h : r.IsLoaded) :
    (r.shownProperties.map Prod.fst).map Text.fold = r.properties.entries.map Prod.fst := by
  rw [shownProperties, Dictionary.values, List.map_map, List.map_map]
  refine List.map_congr_left ?_
  rintro ⟨key, name, value⟩ hmem
  exact (h key name value (Dictionary.find?_eq_some_iff_mem.mpr hmem)).1.symm

theorem nodup_fold_shown (h : r.IsLoaded) :
    ((r.shownProperties.map Prod.fst).map Text.fold).Nodup := by
  rw [keys_eq_fold_shown h]
  exact Dictionary.nodup_of_ascending r.properties.ascending

theorem lookup_exported (r : Record) (name : String) : r.exported.lookup name =
    (r.shownMembers.reverse.lookup name).or (r.ownMembers.reverse.lookup name) := by
  rw [exported, Dictionary.lookup_foldl_insertEntry, List.reverse_append, List.lookup_append,
    List.lookup_nil, Option.or_none]

theorem lookup_shownMembers_iff (h : r.IsLoaded) {name : String} {json : Json} :
    r.shownMembers.reverse.lookup name = some json ↔
      ∃ value, (name, value) ∈ r.shownProperties ∧ json = value.toJson := by
  have hnodup : (r.shownMembers.reverse.map Prod.fst).Nodup := by
    rw [shownMembers, List.map_reverse, List.nodup_reverse, List.map_map]
    exact (nodup_fold_shown h).of_map
  rw [Dictionary.lookup_eq_some_iff_mem_of_nodup hnodup, List.mem_reverse, shownMembers,
    List.mem_map]
  constructor
  · rintro ⟨⟨name, value⟩, hmem, heq⟩
    cases heq
    exact ⟨value, hmem, rfl⟩
  · rintro ⟨value, hmem, rfl⟩
    exact ⟨(name, value), hmem, rfl⟩

theorem mem_ownMembers {name : String} {json : Json} (h : (name, json) ∈ r.ownMembers) :
    isOwn name = true ∧ ∃ s, json = .string s := by
  rw [ownMembers, List.mem_cons, Option.mem_toList, Option.map_eq_some_iff] at h
  rcases h with hid | ⟨parent, -, hparent⟩
  · cases hid
    exact ⟨rfl, r.id, rfl⟩
  · cases hparent
    exact ⟨rfl, parent, rfl⟩

theorem lookup_ownMembers (r : Record) :
    r.ownMembers.reverse.lookup "id" = some (.string r.id) ∧
      r.ownMembers.reverse.lookup "parent" = r.parent.map Json.string := by
  rw [ownMembers]
  cases r.parent <;> exact ⟨rfl, rfl⟩

/-- Under a name that is not the record's own stands the JSON of the value. -/
theorem lookup_exported_of_not_own (h : r.IsLoaded) {name : String} (hname : isOwn name = false)
    {json : Json} : r.exported.lookup name = some json ↔
      ∃ value, (name, value) ∈ r.shownProperties ∧ json = value.toJson := by
  have hown : r.ownMembers.reverse.lookup name = none := by
    rw [Option.eq_none_iff_forall_ne_some]
    intro own hlookup
    have hmem := Dictionary.mem_of_lookup_eq_some hlookup
    rw [(mem_ownMembers (List.mem_reverse.mp hmem)).1] at hname
    cases hname
  rw [lookup_exported, hown, Option.or_none, lookup_shownMembers_iff h]

/-- What is the record's own is there when no property is shown by the name. -/
theorem lookup_exported_of_own (h : r.IsLoaded) {name : String}
    (hname : ∀ value, (name, value) ∉ r.shownProperties) :
    r.exported.lookup name = r.ownMembers.reverse.lookup name := by
  have hnone : r.shownMembers.reverse.lookup name = none := by
    rw [Option.eq_none_iff_forall_ne_some]
    intro json hjson
    obtain ⟨value, hmem, -⟩ := (lookup_shownMembers_iff h).mp hjson
    exact hname value hmem
  rw [lookup_exported, hnone, Option.none_or]

/-- Everything that is exported is a string or the JSON of a value. -/
theorem exported_cases (h : r.IsLoaded) {member : String × Json} (hmem : member ∈ r.exported) :
    (∃ s, member.2 = .string s) ∨
      ∃ value, (member.1, value) ∈ r.shownProperties ∧ member.2 = value.toJson := by
  obtain ⟨name, json⟩ := member
  rw [← Dictionary.lookup_eq_some_iff_mem r.ascending_exported, lookup_exported,
    Option.or_eq_some_iff] at hmem
  rcases hmem with hshown | ⟨-, hown⟩
  · exact .inr ((lookup_shownMembers_iff h).mp hshown)
  · have hown := List.mem_reverse.mp (Dictionary.mem_of_lookup_eq_some hown)
    exact .inl (mem_ownMembers hown).2

/-! ### What is loaded from the members -/

def entryOf (member : String × Json) : String × (String × Value) :=
  (Text.fold member.1, (Text.trimmed member.1, (Value.ofJson? member.2).getD .null))

theorem foldl_insertMember {members : List (String × Json)}
    (h : ∀ member ∈ members, ∃ value, Value.ofJson? member.2 = some value) (r : Record) :
    members.foldl insertMember r = { r with
      properties := (members.map entryOf).foldl (fun d entry => d.insert entry.1 entry.2)
        r.properties } := by
  induction members generalizing r with
  | nil => rfl
  | cons member members ih =>
    obtain ⟨value, hvalue⟩ := h member (List.mem_cons_self ..)
    have hinsert : r.insertMember member = r.insert member.1 value := by
      obtain ⟨name, json⟩ := member
      cases json with
      | object nested => cases hvalue
      | _ =>
        unfold insertMember insertJson
        dsimp only
        rw [hvalue]
    rw [List.foldl_cons, hinsert, ih fun member hmem => h member (List.mem_cons_of_mem _ hmem),
      List.map_cons, List.foldl_cons, entryOf, hvalue]
    rfl

/-- The members that are properties are those shown by names that are not the record's own. -/
theorem mem_read_iff (h : r.IsLoaded) (hread : Json.rereadMembers? r.exported = some read)
    {name : String} {json : Json} (hname : isOwn name = false) : (name, json) ∈ read ↔
      ∃ value, (name, value) ∈ r.shownProperties ∧ value.toJson.reread? = some json := by
  have hascending : (read.map Prod.fst).Pairwise (· < ·) := by
    rw [Json.keys_of_rereadMembers? hread]
    exact r.ascending_exported
  rw [← Dictionary.lookup_eq_some_iff_mem hascending, Json.lookup_of_rereadMembers? hread,
    Option.bind_eq_bind, Option.bind_eq_some_iff]
  constructor
  · rintro ⟨written, hwritten, hjson⟩
    obtain ⟨value, hmem, rfl⟩ := (lookup_exported_of_not_own h hname).mp hwritten
    exact ⟨value, hmem, hjson⟩
  · rintro ⟨value, hmem, hjson⟩
    exact ⟨_, (lookup_exported_of_not_own h hname).mpr ⟨value, hmem, rfl⟩, hjson⟩

def properMembers (members : List (String × Json)) : List (String × Json) :=
  members.filter fun member => !isOwn member.1

theorem mem_properMembers_iff (h : r.IsLoaded)
    (hread : Json.rereadMembers? r.exported = some read) {name : String} {json : Json} :
    (name, json) ∈ properMembers read ↔ isOwn name = false ∧
      ∃ value, (name, value) ∈ r.shownProperties ∧ value.toJson.reread? = some json := by
  rw [properMembers, List.mem_filter, Bool.not_eq_true', and_comm]
  exact and_congr_right fun hname => mem_read_iff h hread hname

/-- Names that are shown differ even when they are folded. -/
theorem nodup_entries (h : r.IsLoaded) (hread : Json.rereadMembers? r.exported = some read) :
    (((properMembers read).map entryOf).map Prod.fst).Nodup := by
  have hnames : ((properMembers read).map Prod.fst).Nodup := by
    have hascending := r.ascending_exported
    rw [← Json.keys_of_rereadMembers? hread] at hascending
    exact (Dictionary.nodup_of_ascending hascending).sublist (List.filter_sublist.map Prod.fst)
  -- Names that fold alike cannot both be shown, and these names are all shown.
  have hshown : ∀ name ∈ (properMembers read).map Prod.fst,
      name ∈ r.shownProperties.map Prod.fst := by
    intro name hname
    obtain ⟨⟨name, json⟩, hmem, rfl⟩ := List.mem_map.mp hname
    obtain ⟨-, value, hvalue, -⟩ := (mem_properMembers_iff h hread).mp hmem
    exact List.mem_map_of_mem (f := Prod.fst) hvalue
  have hkeys : ((properMembers read).map entryOf).map Prod.fst =
      ((properMembers read).map Prod.fst).map Text.fold := by
    rw [List.map_map, List.map_map]
    rfl
  rw [hkeys]
  exact hnames.map_on fun name hname other hother =>
    List.inj_on_of_nodup_map (nodup_fold_shown h) (hshown name hname) (hshown other hother)

/-- A record read from an exported object takes its id and its parent from the object and its
properties from all the other members. -/
theorem ofMembers_eq (h : r.IsLoaded) (hread : Json.rereadMembers? r.exported = some read)
    (index : Nat) : ofMembers index read =
      ⟨idOf index (read.lookup "id"), parentOf (read.lookup "parent"),
        ((properMembers read).map entryOf).foldl (fun d entry => d.insert entry.1 entry.2)
          .empty⟩ := by
  have hscalar : ∀ member ∈ properMembers read,
      ∃ value, Value.ofJson? member.2 = some value := by
    rintro ⟨name, json⟩ hmember
    obtain ⟨-, stored, -, hjson⟩ := (mem_properMembers_iff h hread).mp hmember
    exact Value.exists_ofJson? hjson
  exact foldl_insertMember hscalar _

/-- What is found in a record that is loaded again: under every name that is not the record's own,
    the value that the JSON of the stored value is read as. -/
theorem find?_ofMembers (h : r.IsLoaded) (hread : Json.rereadMembers? r.exported = some read)
    (index : Nat) {key name : String} {value : Value} :
    (ofMembers index read).properties.find? key = some (name, value) ↔
      key = Text.fold name ∧ isOwn name = false ∧ ∃ stored, (name, stored) ∈ r.shownProperties ∧
        (stored.toJson.reread? >>= Value.ofJson?) = some value := by
  have hnodup : (((properMembers read).map entryOf).reverse.map Prod.fst).Nodup := by
    rw [List.map_reverse, List.nodup_reverse]
    exact nodup_entries h hread
  -- No key is inserted twice, so it does not matter which entry comes last.
  rw [ofMembers_eq h hread, Dictionary.find?_foldl_insert, Dictionary.find?_empty, Option.or_none,
    Dictionary.lookup_eq_some_iff_mem_of_nodup hnodup, List.mem_reverse, List.mem_map]
  constructor
  · rintro ⟨⟨shown, json⟩, hmember, heq⟩
    obtain ⟨hname, stored, hstored, hjson⟩ := (mem_properMembers_iff h hread).mp hmember
    obtain ⟨loaded, hloaded⟩ := Value.exists_ofJson? hjson
    have htrimmed : Text.trimmed shown = shown :=
      (h _ _ _ ((mem_shownProperties_iff h).mp hstored)).2.1
    rw [entryOf, htrimmed, hloaded, Option.getD_some, Prod.mk.injEq, Prod.mk.injEq] at heq
    obtain ⟨rfl, rfl, rfl⟩ := heq
    exact ⟨rfl, hname, stored, hstored, Option.bind_eq_some_iff.mpr ⟨json, hjson, hloaded⟩⟩
  · rintro ⟨hkey, hname, stored, hstored, hvalue⟩
    obtain ⟨json, hjson, hloaded⟩ := Option.bind_eq_some_iff.mp hvalue
    have htrimmed : Text.trimmed name = name :=
      (h _ _ _ ((mem_shownProperties_iff h).mp hstored)).2.1
    refine ⟨(name, json), (mem_properMembers_iff h hread).mpr ⟨hname, stored, hstored, hjson⟩, ?_⟩
    rw [entryOf, htrimmed, hloaded, hkey, Option.getD_some]

theorem isPortable_iff (h : r.IsLoaded) : r.isPortable = true ↔
    ∀ name value, (name, value) ∈ r.shownProperties →
      isOwn name = false ∧ (value.toJson.reread? >>= Value.ofJson?) = some value := by
  rw [isPortable, List.all_eq_true]
  constructor
  · intro hall name value hmem
    have hboth := hall (name, value) hmem
    have hvalue := (h _ _ _ ((mem_shownProperties_iff h).mp hmem)).2.2
    rw [Bool.and_eq_true, Bool.not_eq_true', ← Value.reread?_toJson_iff hvalue] at hboth
    exact hboth
  · rintro hall ⟨name, value⟩ hmem
    have hvalue := (h _ _ _ ((mem_shownProperties_iff h).mp hmem)).2.2
    rw [Bool.and_eq_true, Bool.not_eq_true', ← Value.reread?_toJson_iff hvalue]
    exact hall name value hmem

/-- When no property is shown by a name of the record's own, its id and parent are read again. -/
theorem own_of_rereadMembers? (h : r.IsLoaded) (hread : Json.rereadMembers? r.exported = some read)
    (hnames : ∀ name value, (name, value) ∈ r.shownProperties → isOwn name = false) (index : Nat) :
    idOf index (read.lookup "id") = r.id ∧ parentOf (read.lookup "parent") = r.parent := by
  have hown : ∀ name, isOwn name = true → ∀ value, (name, value) ∉ r.shownProperties := by
    intro name hname value hmem
    rw [hnames name value hmem] at hname
    cases hname
  have hid : read.lookup "id" = some (.string r.id) := by
    rw [Json.lookup_of_rereadMembers? hread, lookup_exported_of_own h (hown "id" rfl),
      r.lookup_ownMembers.1]
    rfl
  have hparent : read.lookup "parent" = r.parent.map Json.string := by
    rw [Json.lookup_of_rereadMembers? hread, lookup_exported_of_own h (hown "parent" rfl),
      r.lookup_ownMembers.2]
    cases r.parent <;> rfl
  rw [hid, hparent]
  cases r.parent <;> exact ⟨rfl, rfl⟩

/-- A loaded record comes back from its exported members exactly when it is portable. -/
theorem ofMembers_exported_iff (h : r.IsLoaded)
    (hread : Json.rereadMembers? r.exported = some read) (index : Nat) :
    ofMembers index read = r ↔ r.isPortable = true := by
  rw [isPortable_iff h]
  constructor
  · intro heq name value hmem
    -- What is found in the loaded record under the name of a property is the property itself.
    have hfind := (mem_shownProperties_iff h).mp hmem
    rw [← heq, find?_ofMembers h hread] at hfind
    obtain ⟨-, hname, stored, hstored, hvalue⟩ := hfind
    have hsame : stored = value := by
      have hfirst := (mem_shownProperties_iff h).mp hstored
      rw [(mem_shownProperties_iff h).mp hmem] at hfirst
      cases hfirst
      rfl
    rw [hsame] at hvalue
    exact ⟨hname, hvalue⟩
  · -- Then nothing that is shown replaces the id or the parent, and every value comes back.
    intro hportable
    -- Dictionaries are equal when the same is found in them under every key.
    have hproperties : (ofMembers index read).properties = r.properties := by
      apply Dictionary.ext_find?
      intro key
      apply Option.ext
      rintro ⟨name, value⟩
      rw [find?_ofMembers h hread]
      constructor
      · rintro ⟨rfl, -, stored, hstored, hvalue⟩
        rw [(hportable name stored hstored).2] at hvalue
        cases hvalue
        exact (mem_shownProperties_iff h).mp hstored
      · intro hfind
        have hkey := (h key name value hfind).1
        have hmem : (name, value) ∈ r.shownProperties := by
          rw [mem_shownProperties_iff h, ← hkey]
          exact hfind
        obtain ⟨hname, hvalue⟩ := hportable name value hmem
        exact ⟨hkey, hname, value, hmem, hvalue⟩
    obtain ⟨hid, hparent⟩ := own_of_rereadMembers? h hread
      (fun name value hmem => (hportable name value hmem).1) index
    rw [ofMembers_eq h hread] at hproperties ⊢
    dsimp only at hproperties
    rw [hid, hparent, hproperties]

/-! ### Arrays of records -/

/-- The JSON of a record is read again when the JSON of all its values is. -/
theorem exists_rereadMembers?_exported (h : r.IsLoaded) (hportable : r.isPortable = true) :
    ∃ read, Json.rereadMembers? r.exported = some read := by
  apply Json.exists_rereadMembers?
  intro member hmember
  rcases exported_cases h hmember with ⟨s, hs⟩ | ⟨value, hmem, hvalue⟩
  · exact ⟨.string s, by rw [hs]; rfl⟩
  · obtain ⟨json, hjson, -⟩ :=
      Option.bind_eq_some_iff.mp ((isPortable_iff h).mp hportable _ value hmem).2
    exact ⟨json, by rw [hvalue]; exact hjson⟩

theorem reread?_toJson_eq_some {json : Json} : r.toJson.reread? = some json ↔
    ∃ read, Json.rereadMembers? r.exported = some read ∧ json = .object read := by
  rw [toJson_eq, Json.reread?, Option.map_eq_some_iff]
  refine exists_congr fun read => and_congr_right fun hread => ?_
  have hascending : (read.map Prod.fst).Pairwise (· < ·) := by
    rw [Json.keys_of_rereadMembers? hread]
    exact r.ascending_exported
  rw [Json.ofMembers_of_ascending hascending, eq_comm]

theorem depth_toJson_le (h : r.IsLoaded) : r.toJson.depth ≤ 1 := by
  rw [toJson_eq, Json.depth]
  apply Nat.succ_le_succ
  apply Json.depthMembers_le
  intro member hmember
  rcases exported_cases h hmember with ⟨s, hs⟩ | ⟨value, -, hvalue⟩
  · rw [hs]
    exact Nat.le_refl 0
  · rw [hvalue, value.depth_toJson]

theorem ofItems_object_eq_ok_iff {index : Nat} {members : List (String × Json)} {items : List Json}
    {records : List Record} : ofItems index (.object members :: items) = .ok (r :: records) ↔
      ofMembers index members = r ∧ ofItems (index + 1) items = .ok records := by
  rw [ofItems, bind_eq_ok_iff]
  constructor
  · rintro ⟨others, hothers, heq⟩
    obtain ⟨rfl, rfl⟩ := List.cons.inj (pure_eq_ok_iff.mp heq)
    exact ⟨rfl, hothers⟩
  · rintro ⟨rfl, hothers⟩
    exact ⟨records, hothers, rfl⟩

/-- A list of loaded records comes back, each at its index, exactly when each is portable. -/
theorem ofItems_reread_iff {records : List Record} (h : ∀ r ∈ records, r.IsLoaded) (index : Nat) :
    (∃ items, Json.rereadItems? (records.map toJson) = some items ∧
        ofItems index items = .ok records) ↔ ∀ r ∈ records, r.isPortable = true := by
  -- The index counts on with the list, since a record without an id is named by it.
  induction records generalizing index with
  | nil => simp [Json.rereadItems?, ofItems]
  | cons r records ih =>
    have hfirst := h r (List.mem_cons_self ..)
    have hrest := ih (fun r hr => h r (List.mem_cons_of_mem _ hr)) (index + 1)
    rw [List.forall_mem_cons, ← hrest, List.map_cons]
    constructor
    · rintro ⟨items, hitems, hload⟩
      obtain ⟨item, items, hitem, hothers, rfl⟩ := Json.rereadItems?_cons_eq_some.mp hitems
      obtain ⟨read, hread, rfl⟩ := reread?_toJson_eq_some.mp hitem
      obtain ⟨hr, hload⟩ := ofItems_object_eq_ok_iff.mp hload
      exact ⟨(ofMembers_exported_iff hfirst hread index).mp hr, items, hothers, hload⟩
    · rintro ⟨hportable, items, hothers, hload⟩
      obtain ⟨read, hread⟩ := exists_rereadMembers?_exported hfirst hportable
      have hitem := reread?_toJson_eq_some.mpr ⟨read, hread, rfl⟩
      have hr := (ofMembers_exported_iff hfirst hread index).mpr hportable
      exact ⟨_, Json.rereadItems?_cons_eq_some.mpr ⟨_, items, hitem, hothers, rfl⟩,
        ofItems_object_eq_ok_iff.mpr ⟨hr, hload⟩⟩

def exportText (records : List Record) : String := (Json.array (records.map toJson)).compact

/-- **Loading exported records.**  Records that were loaded from some text are loaded again from
    what they are exported as, exactly when all of them are portable. -/
theorem load_exportText_iff {text : String} {records : List Record} (h : load text = .ok records) :
    load (exportText records) = .ok records ↔ ∀ r ∈ records, r.isPortable = true := by
  have hloaded := isLoaded_of_load h
  have hdepth : (Json.array (records.map toJson)).depth ≤ Json.ReadState.maxDepth := by
    have hitems : Json.depthItems (records.map toJson) ≤ 1 := by
      apply Json.depthItems_le
      intro item hitem
      obtain ⟨r, hr, rfl⟩ := List.mem_map.mp hitem
      exact depth_toJson_le (hloaded r hr)
    rw [Json.depth, Json.ReadState.maxDepth]
    omega
  -- When a float is out of range nothing is read at all, and the record with it is not portable.
  rw [← ofItems_reread_iff hloaded 0, load, exportText, Json.read?_compact hdepth, Json.reread?]
  cases Json.rereadItems? (records.map toJson) with
  | none => simp
  | some items => simp [ofJson]

/-- A photo with a date, a rating and a property of a nested object. -/
def photo : Record :=
  (((ofId "/a.jpg" (some "/")).insert "Taken"
      (.dateTime ⟨1614853800, 0, by decide, by decide, by decide, by decide⟩)).insert "exif.iso"
        (.integer 400)).insert "rating"
          (.float (.finite false ((Magnitude.ofDecimal? 45 (-1)).getD .zero)))

def photoText : String :=
  "[\x7b\"id\":\"/a.jpg\",\"parent\":\"/\",\"Taken\":\"2021-03-04T11:30:00+01:00\"," ++
    "\"exif\":\x7b\"iso\":400\x7d,\"rating\":4.5\x7d]"

theorem load_exportText_photo : load photoText = .ok [photo] ∧
    (∀ r ∈ [photo], r.isPortable = true) ∧ load (exportText [photo]) = .ok [photo] := by
  have hload : load photoText = .ok [photo] := by decide +kernel
  have hportable : ∀ r ∈ [photo], r.isPortable = true := by
    rw [List.forall_mem_singleton]
    decide +kernel
  exact ⟨hload, hportable, (load_exportText_iff hload).mpr hportable⟩

/-- A record with a property that is called id, but for a space in front. -/
def spacedId : Record := (ofId "a" none).insert " id" (.text "b")

/-- The property takes the place of the id, and is lost. -/
theorem load_exportText_spacedId :
    load "[\x7b\"id\":\"a\",\" id\":\"b\"\x7d]" = .ok [spacedId] ∧
      load (exportText [spacedId]) = .ok [ofId "b" none] ∧ ofId "b" none ≠ spacedId := by
  decide +kernel

end Record

end RecordFilter
