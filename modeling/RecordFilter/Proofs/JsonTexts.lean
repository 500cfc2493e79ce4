import RecordFilter.Proofs.Dictionaries
import RecordFilter.Proofs.JsonTokens
/-!
# Reading compact JSON texts

What is written in compact form is read again as `reread?` says (`read?_compact`): every float as
its own text is read, everything else as it was, and the members of an object put in order.  The
induction is over the value and carries the state of the reader along, with anything behind the
text; a text with too many brackets within each other is refused, so the depth is bounded.
-/

namespace RecordFilter.Json

/-! ### What is read -/

mutual

/-- The value that the compact text of a value is read as; none when a float in it is not in the
    range of what is read. -/
def reread? : Json → Option Json
  | null => some null
  | boolean b => some (boolean b)
  | integer n => readNumber? (toString n).toList
  | float x => if x.isFinite then readNumber? (floatText x).toList else some null
  | string s => some (string s)
  | array items => (rereadItems? items).map array
  | object members => (rereadMembers? members).map ofMembers

def rereadItems? : List Json → Option (List Json)
  | [] => some []
  | item :: rest => do return (← item.reread?) :: (← rereadItems? rest)

def rereadMembers? : List (String × Json) → Option (List (String × Json))
  | [] => some []
  | (key, value) :: rest => do return (key, ← value.reread?) :: (← rereadMembers? rest)

end

mutual

def depth : Json → Nat
  | null => 0
  | boolean _ => 0
  | integer _ => 0
  | float _ => 0
  | string _ => 0
  | array items => depthItems items + 1
  | object members => depthMembers members + 1

def depthItems : List Json → Nat
  | [] => 0
  | item :: rest => max item.depth (depthItems rest)

def depthMembers : List (String × Json) → Nat
  | [] => 0
  | (_, value) :: rest => max value.depth (depthMembers rest)

end

/-! ### Steps of the reader -/

namespace ReadState

variable {stack : List Container} {place : Place}

def Place.TakesValue (place : Place) : Prop := place = .value ∨ place = .firstItem

def Place.TakesKey (place : Place) : Prop := place = .key ∨ place = .firstKey

theorem step_scalar (hplace : Place.TakesValue place) (json : Json) :
    step ⟨stack, place⟩ (.scalar json) = some (give json stack) := by
  rcases hplace with rfl | rfl <;> rfl

theorem step_openArray (hplace : Place.TakesValue place) (hdepth : stack.length < maxDepth) :
    step ⟨stack, place⟩ .openArray = some ⟨.array [] :: stack, .firstItem⟩ := by
  have henter : enter stack (.array []) .firstItem = some ⟨.array [] :: stack, .firstItem⟩ :=
    if_pos hdepth
  rcases hplace with rfl | rfl <;> exact henter

theorem step_openObject (hplace : Place.TakesValue place) (hdepth : stack.length < maxDepth) :
    step ⟨stack, place⟩ .openObject = some ⟨.object [] "" :: stack, .firstKey⟩ := by
  have henter : enter stack (.object [] "") .firstKey = some ⟨.object [] "" :: stack, .firstKey⟩ :=
    if_pos hdepth
  rcases hplace with rfl | rfl <;> exact henter

theorem step_key (hplace : Place.TakesKey place) (members : List (String × Json))
    (before key : String) :
    step ⟨.object members before :: stack, place⟩ (.scalar (.string key)) =
      some ⟨.object members key :: stack, .colon⟩ := by
  rcases hplace with rfl | rfl <;> rfl

theorem after_punctuation {state : ReadState} (c : Char) (token : Token) {rest : List Char}
    (hblank : ¬ (c = ' ' ∨ c = '\t' ∨ c = '\n' ∨ c = '\r'))
    (htoken : firstToken? c rest = some (token, 0)) :
    state.after (c :: rest) = state.step token >>= fun next => next.after rest := by
  rw [after_cons hblank, htoken]
  rfl

theorem endsWord_cons {c : Char} (h : isNumberChar c = false ∧ c.isAlpha = false)
    (rest : List Char) : EndsWord (c :: rest) := by
  intro d hd
  cases hd
  exact h

theorem after_item_end (item : Json) (before : List Json) (rest : List Char) :
    (give item (.array before :: stack)).after (']' :: rest) =
      (give (.array (before.reverse ++ [item])) stack).after rest := by
  rw [give, after_punctuation ']' .closeArray (by decide) rfl]
  simp [step, afterPart, close]

theorem after_item_comma (item : Json) (before : List Json) (rest : List Char) :
    (give item (.array before :: stack)).after (',' :: rest) =
      after ⟨.array (item :: before) :: stack, .value⟩ rest := by
  rw [give, after_punctuation ',' .comma (by decide) rfl]
  rfl

theorem after_key (hplace : Place.TakesKey place) (key last : String)
    (before : List (String × Json)) (rest : List Char) :
    after ⟨.object before last :: stack, place⟩ ((quoted key).toList ++ ':' :: rest) =
      after ⟨.object before key :: stack, .value⟩ rest := by
  rw [after_quoted, step_key hplace, Option.bind_eq_bind, Option.bind_some,
    after_punctuation ':' .colon (by decide) rfl]
  rfl

theorem after_member_end (value : Json) (before : List (String × Json)) (key : String)
    (rest : List Char) :
    (give value (.object before key :: stack)).after ('\x7d' :: rest) =
      (give (ofMembers (before.reverse ++ [(key, value)])) stack).after rest := by
  rw [give, after_punctuation '\x7d' .closeObject (by decide) rfl]
  simp [step, afterPart, close]

theorem after_member_comma (value : Json) (before : List (String × Json)) (key : String)
    (rest : List Char) :
    (give value (.object before key :: stack)).after (',' :: rest) =
      after ⟨.object ((key, value) :: before) key :: stack, .key⟩ rest := by
  rw [give, after_punctuation ',' .comma (by decide) rfl]
  rfl

/-! ### Arrays and objects -/

/-- Wherever a value may stand, its compact text is read as `reread?` says. -/
def IsRead (json : Json) : Prop :=
  ∀ (stack : List Container) (place : Place) (rest : List Char), Place.TakesValue place →
    EndsWord rest → stack.length + json.depth ≤ maxDepth →
      after ⟨stack, place⟩ (json.compact.toList ++ rest) =
        json.reread? >>= fun read => (give read stack).after rest

/-- The items are collected from the last one back, and turned round at the end. -/
theorem after_items {item : Json} {items : List Json} (before : List Json)
    (hplace : Place.TakesValue place) (hread : ∀ json ∈ item :: items, IsRead json)
    (hdepth : stack.length + 1 + depthItems (item :: items) ≤ maxDepth) (rest : List Char) :
    after ⟨.array before :: stack, place⟩
        ((",".intercalate (compactItems (item :: items))).toList ++ ']' :: rest) =
      rereadItems? (item :: items) >>= fun items =>
        (give (.array (before.reverse ++ items)) stack).after rest := by
  -- The items read so far are carried along, so that the next one may stand at any place.
  induction items generalizing item before place with
  | nil =>
    rw [depthItems, depthItems] at hdepth
    have hitem := hread item (List.mem_cons_self ..) (.array before :: stack) place (']' :: rest)
      hplace (endsWord_cons (by decide) rest) (by rw [List.length_cons]; omega)
    rw [compactItems, compactItems, String.intercalate_singleton, hitem, rereadItems?, rereadItems?]
    cases item.reread? with
    | none => rfl
    | some item => exact after_item_end item before rest
  | cons next items ih =>
    -- Behind the comma the rest of the items is read like an array that goes on.
    rw [depthItems] at hdepth
    have htext : (",".intercalate (compactItems (item :: next :: items))).toList ++ ']' :: rest =
        item.compact.toList ++
          ',' :: ((",".intercalate (compactItems (next :: items))).toList ++ ']' :: rest) := by
      simp [compactItems, String.intercalate_cons_cons]
    have hitem := hread item (List.mem_cons_self ..) (.array before :: stack) place
      (',' :: ((",".intercalate (compactItems (next :: items))).toList ++ ']' :: rest)) hplace
      (endsWord_cons (by decide) _) (by rw [List.length_cons]; omega)
    rw [htext, hitem, rereadItems?]
    cases item.reread? with
    | none => rfl
    | some item =>
      have hitems := ih (item :: before) (.inl rfl)
        (fun json hjson => hread json (List.mem_cons_of_mem _ hjson)) (by omega)
      rw [Option.bind_eq_bind, Option.bind_some, after_item_comma, hitems]
      cases rereadItems? (next :: items) with
      | none => rfl
      | some items => simp

/-- The members are collected from the last one back, and turned round at the end. -/
theorem after_members {key : String} {value : Json} {members : List (String × Json)}
    (before : List (String × Json)) (last : String) (hplace : Place.TakesKey place)
    (hread : ∀ member ∈ (key, value) :: members, IsRead member.2)
    (hdepth : stack.length + 1 + depthMembers ((key, value) :: members) ≤ maxDepth)
    (rest : List Char) :
    after ⟨.object before last :: stack, place⟩
        ((",".intercalate (compactMembers ((key, value) :: members))).toList ++ '\x7d' :: rest) =
      rereadMembers? ((key, value) :: members) >>= fun members =>
        (give (ofMembers (before.reverse ++ members)) stack).after rest := by
  have hfirst : IsRead value := hread (key, value) (List.mem_cons_self ..)
  -- Again what was read is carried along, and with it the last key, which is only replaced.
  induction members generalizing key value before last place with
  | nil =>
    rw [depthMembers, depthMembers] at hdepth
    have htext : (",".intercalate (compactMembers [(key, value)])).toList ++ '\x7d' :: rest =
        (quoted key).toList ++ ':' :: (value.compact.toList ++ '\x7d' :: rest) := by
      simp [compactMembers]
    have hvalue := hfirst (.object before key :: stack) .value
      ('\x7d' :: rest) (.inl rfl) (endsWord_cons (by decide) rest)
      (by rw [List.length_cons]; omega)
    rw [htext, after_key hplace, hvalue, rereadMembers?, rereadMembers?]
    cases value.reread? with
    | none => rfl
    | some value => exact after_member_end value before key rest
  | cons member members ih =>
    obtain ⟨nextKey, next⟩ := member
    rw [depthMembers] at hdepth
    have htext : (",".intercalate
          (compactMembers ((key, value) :: (nextKey, next) :: members))).toList ++ '\x7d' :: rest =
        (quoted key).toList ++ ':' :: (value.compact.toList ++
          ',' :: ((",".intercalate (compactMembers ((nextKey, next) :: members))).toList ++
            '\x7d' :: rest)) := by
      simp [compactMembers, String.intercalate_cons_cons]
    have hvalue := hfirst (.object before key :: stack) .value
      (',' :: ((",".intercalate (compactMembers ((nextKey, next) :: members))).toList ++
        '\x7d' :: rest)) (.inl rfl) (endsWord_cons (by decide) _)
      (by rw [List.length_cons]; omega)
    rw [htext, after_key hplace, hvalue, rereadMembers?]
    cases value.reread? with
    | none => rfl
    | some value =>
      have hothers : ∀ member ∈ (nextKey, next) :: members, IsRead member.2 :=
        fun member hmember => hread member (List.mem_cons_of_mem _ hmember)
      have hmembers := ih ((key, value) :: before) key (.inl rfl) hothers (by omega)
        (hothers _ (List.mem_cons_self ..))
      rw [Option.bind_eq_bind, Option.bind_some, after_member_comma, hmembers]
      cases rereadMembers? ((nextKey, next) :: members) with
      | none => rfl
      | some members => simp

/-! ### Whole values -/

theorem isRead_null : IsRead null := by
  intro stack place rest hplace hrest _
  have hname : named? ['n', 'u', 'l', 'l'] = some null := rfl
  have hafter := after_name ⟨stack, place⟩ (by decide) hname hrest
  rw [step_scalar hplace] at hafter
  exact hafter

theorem isRead_boolean (b : Bool) : IsRead (boolean b) := by
  intro stack place rest hplace hrest _
  cases b with
  | true =>
    have hname : named? ['t', 'r', 'u', 'e'] = some (boolean true) := rfl
    have hafter := after_name ⟨stack, place⟩ (by decide) hname hrest
    rw [step_scalar hplace] at hafter
    exact hafter
  | false =>
    have hname : named? ['f', 'a', 'l', 's', 'e'] = some (boolean false) := rfl
    have hafter := after_name ⟨stack, place⟩ (by decide) hname hrest
    rw [step_scalar hplace] at hafter
    exact hafter

theorem isRead_integer (n : Int) : IsRead (integer n) := by
  intro stack place rest hplace hrest _
  rw [compact, reread?, after_number (isNumeric_toString n) hrest]
  simp [step_scalar hplace]

theorem isRead_float (x : Binary64) : IsRead (float x) := by
  intro stack place rest hplace hrest hdepth
  rw [compact, reread?]
  by_cases hx : x.isFinite = true
  · rw [if_pos hx, after_number (isNumeric_floatText hx) hrest]
    simp [step_scalar hplace]
  · rw [if_neg hx, floatText, if_neg hx]
    exact isRead_null stack place rest hplace hrest hdepth

theorem isRead_string (s : String) : IsRead (string s) := by
  intro stack place rest hplace _ _
  rw [compact, reread?, after_quoted, step_scalar hplace]
  rfl

theorem isRead_array {items : List Json} (hread : ∀ item ∈ items, IsRead item) :
    IsRead (array items) := by
  intro stack place rest hplace _ hdepth
  rw [depth] at hdepth
  -- An empty array closes where the first item would stand, so it is a case of its own.
  cases items with
  | nil =>
    have htext : (array []).compact.toList ++ rest = '[' :: ']' :: rest := by
      simp [compact, compactItems]
    rw [htext, after_punctuation '[' .openArray (by decide) rfl, step_openArray hplace (by omega),
      Option.bind_eq_bind, Option.bind_some, after_punctuation ']' .closeArray (by decide) rfl]
    rfl
  | cons item items =>
    have htext : (array (item :: items)).compact.toList ++ rest =
        '[' :: ((",".intercalate (compactItems (item :: items))).toList ++ ']' :: rest) := by
      simp [compact]
    rw [htext, after_punctuation '[' .openArray (by decide) rfl, step_openArray hplace (by omega),
      Option.bind_eq_bind, Option.bind_some,
      after_items [] (.inr rfl) hread (by omega), reread?]
    cases rereadItems? (item :: items) <;> rfl

theorem isRead_object {members : List (String × Json)}
    (hread : ∀ member ∈ members, IsRead member.2) : IsRead (object members) := by
  intro stack place rest hplace _ hdepth
  rw [depth] at hdepth
  cases members with
  | nil =>
    have htext : (object []).compact.toList ++ rest = '\x7b' :: '\x7d' :: rest := by
      simp [compact, compactMembers]
    rw [htext, after_punctuation '\x7b' .openObject (by decide) rfl,
      step_openObject hplace (by omega), Option.bind_eq_bind, Option.bind_some,
      after_punctuation '\x7d' .closeObject (by decide) rfl]
    rfl
  | cons member members =>
    obtain ⟨key, value⟩ := member
    have htext : (object ((key, value) :: members)).compact.toList ++ rest =
        '\x7b' :: ((",".intercalate (compactMembers ((key, value) :: members))).toList ++
          '\x7d' :: rest) := by
      simp [compact]
    rw [htext, after_punctuation '\x7b' .openObject (by decide) rfl,
      step_openObject hplace (by omega), Option.bind_eq_bind, Option.bind_some,
      after_members [] "" (.inr rfl) hread (by omega), reread?]
    cases rereadMembers? ((key, value) :: members) <;> rfl

/-- Every compact text is read, whatever it holds. -/
theorem isRead (json : Json) : IsRead json := by
  -- The values within an array or object are smaller, being members of its list.
  match json with
  | null => exact isRead_null
  | boolean b => exact isRead_boolean b
  | integer n => exact isRead_integer n
  | float x => exact isRead_float x
  | string s => exact isRead_string s
  | array items => exact isRead_array fun item _ => isRead item
  | object members => exact isRead_object fun member _ => isRead member.2
termination_by sizeOf json
decreasing_by
  · have hlt := List.sizeOf_lt_of_mem ‹_ ∈ _›
    simp only [array.sizeOf_spec]
    omega
  · have hlt := List.sizeOf_lt_of_mem ‹_ ∈ _›
    obtain ⟨key, value⟩ := member
    simp only [object.sizeOf_spec, Prod.mk.sizeOf_spec] at hlt ⊢
    omega

end ReadState

/-- The compact text of a value is read as the value with its floats as their texts are read. -/
theorem read?_compact {json : Json} (hdepth : json.depth ≤ ReadState.maxDepth) :
    read? json.compact = json.reread? := by
  have hread : read? json.compact =
      (ReadState.after ⟨[], .value⟩ json.compact.toList >>= ReadState.result?) := by
    rw [read?, ReadState.after, bind_assoc]
  have hafter := ReadState.isRead json [] .value [] (.inl rfl) (by simp [ReadState.EndsWord])
    (by simpa using hdepth)
  rw [List.append_nil] at hafter
  rw [hread, hafter]
  cases json.reread? with
  | none => rfl
  | some json => simp [ReadState.give, ReadState.result?]

/-! ### What is read of items and members -/

variable {members read : List (String × Json)}

theorem both_eq_some_iff {α β γ : Type} {x : Option α} {y : Option β} {f : α → β → γ} {c : γ} :
    (do return f (← x) (← y)) = some c ↔ ∃ a b, x = some a ∧ y = some b ∧ c = f a b := by
  cases x <;> cases y <;> simp [eq_comm]

theorem rereadItems?_cons_eq_some {item : Json} {items read : List Json} :
    rereadItems? (item :: items) = some read ↔ ∃ item' rest,
      item.reread? = some item' ∧ rereadItems? items = some rest ∧ read = item' :: rest := by
  rw [rereadItems?]
  exact both_eq_some_iff

theorem rereadMembers?_cons_eq_some {key : String} {value : Json} :
    rereadMembers? ((key, value) :: members) = some read ↔ ∃ value' rest,
      value.reread? = some value' ∧ rereadMembers? members = some rest ∧
        read = (key, value') :: rest := by
  rw [rereadMembers?]
  exact both_eq_some_iff

/-- Reading members again keeps their names. -/
theorem lookup_of_rereadMembers? (h : rereadMembers? members = some read) (key : String) :
    read.lookup key = (members.lookup key >>= reread?) := by
  induction members generalizing read with
  | nil =>
    cases h
    rfl
  | cons member members ih =>
    obtain ⟨k, value⟩ := member
    obtain ⟨value', rest, hvalue, hrest, rfl⟩ := rereadMembers?_cons_eq_some.mp h
    rw [Dictionary.lookup_cons_eq, Dictionary.lookup_cons_eq]
    by_cases hk : key = k
    · simp [hk, hvalue]
    · simp [hk, ih hrest]

theorem keys_of_rereadMembers? (h : rereadMembers? members = some read) :
    read.map Prod.fst = members.map Prod.fst := by
  induction members generalizing read with
  | nil =>
    cases h
    rfl
  | cons member members ih =>
    obtain ⟨k, value⟩ := member
    obtain ⟨value', rest, -, hrest, rfl⟩ := rereadMembers?_cons_eq_some.mp h
    rw [List.map_cons, List.map_cons, ih hrest]

theorem exists_rereadMembers? (h : ∀ member ∈ members, ∃ json, member.2.reread? = some json) :
    ∃ read, rereadMembers? members = some read := by
  induction members with
  | nil => exact ⟨[], rfl⟩
  | cons member members ih =>
    obtain ⟨value', hvalue⟩ := h member (List.mem_cons_self ..)
    obtain ⟨rest, hrest⟩ := ih fun member hmember => h member (List.mem_cons_of_mem _ hmember)
    exact ⟨_, rereadMembers?_cons_eq_some.mpr ⟨value', rest, hvalue, hrest, rfl⟩⟩

theorem depthMembers_le {n : Nat} (h : ∀ member ∈ members, member.2.depth ≤ n) :
    depthMembers members ≤ n := by
  induction members with
  | nil => exact Nat.zero_le n
  | cons member members ih =>
    have hvalue := h member (List.mem_cons_self ..)
    have hrest := ih fun member hmember => h member (List.mem_cons_of_mem _ hmember)
    exact Nat.max_le.mpr ⟨hvalue, hrest⟩

theorem depthItems_le {items : List Json} {n : Nat} (h : ∀ item ∈ items, item.depth ≤ n) :
    depthItems items ≤ n := by
  induction items with
  | nil => exact Nat.zero_le n
  | cons item items ih =>
    have hitem := h item (List.mem_cons_self ..)
    have hrest := ih fun item hmem => h item (List.mem_cons_of_mem _ hmem)
    exact Nat.max_le.mpr ⟨hitem, hrest⟩

theorem ofMembers_of_ascending (h : (members.map Prod.fst).Pairwise (· < ·)) :
    ofMembers members = object members := by
  have hsorted : members.foldl
      (fun sorted entry => Dictionary.insertEntry entry.1 entry.2 sorted) [] = members := by
    refine Dictionary.eq_of_mem_iff (Dictionary.ascending_foldl_insertEntry members .nil) h ?_
    rintro ⟨key, value⟩
    have hreverse : (members.reverse.map Prod.fst).Nodup := by
      rw [List.map_reverse, List.nodup_reverse]
      exact Dictionary.nodup_of_ascending h
    rw [← Dictionary.lookup_eq_some_iff_mem (Dictionary.ascending_foldl_insertEntry members .nil),
      Dictionary.lookup_foldl_insertEntry, List.lookup_nil, Option.or_none,
      Dictionary.lookup_eq_some_iff_mem_of_nodup hreverse, List.mem_reverse]
  exact congrArg object hsorted

end RecordFilter.Json
