import RecordFilter.Proofs.Registration
import RecordFilter.Schema.Lookup
/-!
# Which names find a column

A name that fits one column only is looked up in four steps, and each step finds that column or
nothing (`lookup_eq_ok_iff`).  The steps by short names build the qualified name of the column anew
from its namespace and its folded short name.  That is not always the name under which the column
is kept: a capital sigma at the beginning of the short name ends a word there only if the namespace
stands in front of it (`fold_rebuilt_iff`).
-/

namespace RecordFilter

/-! ### The rebuilt name -/

theorem bare_joined {space short : List Char} (hspace : Text.Bare space) (hshort : Text.Bare short)
    (hspace' : space ≠ []) (hshort' : short ≠ []) : Text.Bare (space ++ '.' :: short) := by
  constructor
  · rw [List.head?_append_of_ne_nil _ hspace']
    exact hspace.1
  · rw [List.append_cons, List.getLast?_append,
      Option.or_of_isSome (List.getLast?_isSome.mpr hshort')]
    exact hshort.2

theorem toList_fold_joined {space short : String} (hspace : Text.Bare space.toList)
    (hshort : Text.Bare short.toList) (hspace' : space ≠ "") (hshort' : short ≠ "") :
    (Text.fold (space ++ "." ++ short)).toList =
      Text.lower ((space.toList ++ ['.']) ++ short.toList) := by
  have hjoined := bare_joined hspace hshort (by simpa using hspace') (by simpa using hshort')
  have htoList : (space ++ "." ++ short).toList = space.toList ++ '.' :: short.toList := by
    simp
  rw [Text.toList_fold, htoList, hjoined.trim_eq]
  simp

/-- A short name may be folded before it is joined to its namespace, unless it begins, as far as
    letters go, with a capital sigma that ends a word and the namespace ends with a cased letter. -/
theorem fold_joined_iff {space short : String} (hspace : Text.Bare space.toList)
    (hshort : Text.Bare short.toList) (hspace' : space ≠ "") (hshort' : short ≠ "") :
    Text.fold (space ++ "." ++ Text.fold short) = Text.fold (space ++ "." ++ short) ↔
      ¬ (Text.startsCased space.toList.reverse = true ∧
        Text.beginsWithFinalSigma short.toList = true) := by
  have hfold : (Text.fold short).toList = Text.lower short.toList := by
    rw [Text.toList_fold, hshort.trim_eq]
  have hshown : Text.fold short ≠ "" := by
    rw [Ne, Text.fold_eq_empty_iff, Text.trimmed, hshort.trim_eq, String.ofList_toList]
    exact hshort'
  -- The point between the two parts is passed over, like the marks behind a letter.
  have hcased : Text.casedAfter false (space.toList ++ ['.']) =
      Text.startsCased space.toList.reverse := by
    have hdot : Text.isCaseIgnorable '.' = true := by decide +kernel
    rw [Text.casedAfter_false, List.reverse_append, List.reverse_singleton, List.singleton_append,
      Text.startsCased_cons, if_pos hdot]
  obtain ⟨small, hsmall⟩ :=
    Text.exists_lowerFrom_append false (space.toList ++ ['.']) short.toList
  have hstarts : Text.startsCased (Text.lower short.toList) = Text.startsCased short.toList :=
    Text.startsCased_lowerFrom false _
  have hsettled : Text.Settled (Text.lower short.toList) := Text.settled_lowerFrom false _
  have hfolded : Text.lower ((space.toList ++ ['.']) ++ Text.lower short.toList) = _ :=
    hsmall _ hstarts
  have hplain : Text.lower ((space.toList ++ ['.']) ++ short.toList) = _ := hsmall _ rfl
  rw [← String.toList_inj, toList_fold_joined hspace (Text.bare_fold short) hspace' hshown,
    toList_fold_joined hspace hshort hspace' hshort', hfold, hfolded, hplain,
    List.append_cancel_left_eq, hcased, hsettled.lowerFrom_eq, eq_comm, Text.lowerFrom_eq_lower_iff]

/-- A qualified name is longer than its short name, however both are folded. -/
theorem length_lt_fold_joined {space short : String} (hspace : Text.Bare space.toList)
    (hshort : Text.Bare short.toList) (hspace' : space ≠ "") (hshort' : short ≠ "")
    (hsettled : Text.Settled short.toList) :
    short.toList.length < (Text.fold (space ++ "." ++ short)).toList.length := by
  rw [toList_fold_joined hspace hshort hspace' hshort', Text.lower, Text.length_lowerFrom,
    Text.lowerEach, List.flatMap_append, ← Text.lowerEach, ← Text.lowerEach, hsettled.lowerEach_eq,
    List.length_append, ← Text.length_lowerFrom false]
  have hne : Text.lowerFrom false (space.toList ++ ['.']) ≠ [] := by
    obtain ⟨first, rest, hfirst⟩ := List.exists_cons_of_ne_nil
      (l := space.toList ++ ['.']) (by simp)
    rw [hfirst]
    exact Text.lowerFrom_cons_ne_nil false first rest
  have hpos := List.length_pos_of_ne_nil hne
  omega

namespace Registration

variable {c : Registration}

theorem bare_name (hshown : Text.trimmed c.short ≠ "") : Text.Bare c.name.toList := by
  rw [name]
  by_cases hspace : Text.trimmed c.space = ""
  · rw [hspace, Schema.qualify_empty]
    exact Text.bare_trimmed c.short
  · have htoList : (Schema.qualify (Text.trimmed c.space) (Text.trimmed c.short)).toList =
        (Text.trimmed c.space).toList ++ '.' :: (Text.trimmed c.short).toList := by
      rw [Schema.qualify_of_ne hspace]
      simp
    rw [htoList]
    exact bare_joined (Text.bare_trimmed _) (Text.bare_trimmed _) (by simpa using hspace)
      (by simpa using hshown)

/-- The short name alone ends in another small letter than behind the namespace: it begins, as far
    as letters go, with a capital sigma that ends a word, and the namespace ends with a cased
    letter. -/
def LosesSigma (c : Registration) : Prop :=
  Text.startsCased (Text.trimmed c.space).toList.reverse = true ∧
    Text.beginsWithFinalSigma (Text.trimmed c.short).toList = true

instance : Decidable c.LosesSigma := inferInstanceAs (Decidable (_ ∧ _))

/-- Built anew from the namespace and the folded short name, a qualified name is the one under
    which the column is kept, but for a sigma. -/
theorem fold_rebuilt_iff (hshown : Text.trimmed c.short ≠ "") :
    Text.fold (Schema.qualify (Text.trimmed c.space) c.shortKey) = c.key ↔ ¬ c.LosesSigma := by
  by_cases hspace : Text.trimmed c.space = ""
  · have hnone : ¬ c.LosesSigma := by simp [LosesSigma, hspace, Text.startsCased]
    rw [key, name, hspace, Schema.qualify_empty, Schema.qualify_empty, shortKey, Text.fold_fold,
      Text.fold_trimmed]
    exact iff_of_true rfl hnone
  · rw [key, name, Schema.qualify_of_ne hspace, Schema.qualify_of_ne hspace, shortKey,
      ← Text.fold_trimmed c.short, fold_joined_iff (Text.bare_trimmed _) (Text.bare_trimmed _)
        hspace hshown]
    rfl

/-! ### Names that fit one column -/

/-- The key begins a name of the column, and no name of any other column. -/
def IsOnlyStart (c : Registration) (rs : List Registration) (key : String) : Prop :=
  (Text.startsWith c.key key = true ∨ Text.startsWith c.shortKey key = true) ∧
    ∀ d ∈ rs, d ≠ c → ¬ Text.startsWith d.key key = true ∧ ¬ Text.startsWith d.shortKey key = true

/-- The key is the short name of the column, and no name of any other column. -/
def IsOnlyOwner (c : Registration) (rs : List Registration) (key : String) : Prop :=
  c.shortKey = key ∧ ∀ d ∈ rs, d ≠ c → d.shortKey ≠ key ∧ d.key ≠ key

instance {rs : List Registration} {key : String} : Decidable (c.IsOnlyStart rs key) :=
  inferInstanceAs (Decidable (_ ∧ _))

instance {rs : List Registration} {key : String} : Decidable (c.IsOnlyOwner rs key) :=
  inferInstanceAs (Decidable (_ ∧ _))

@[simp] theorem startsWith_self (s : String) : Text.startsWith s s = true :=
  Dictionary.startsWith_iff.mpr (List.prefix_refl s.toList)

/-- What the two have in common: the key is no name of any other column. -/
theorem not_other_of_only {rs : List Registration} {key : String}
    (h : c.IsOnlyStart rs key ∨ c.IsOnlyOwner rs key) {d : Registration} (hd : d ∈ rs)
    (hne : d ≠ c) : d.key ≠ key ∧ d.shortKey ≠ key := by
  rcases h with ⟨-, hother⟩ | ⟨-, hother⟩
  · obtain ⟨hkey, hshort⟩ := hother d hd hne
    exact ⟨fun heq => hkey (heq ▸ startsWith_self _), fun heq => hshort (heq ▸ startsWith_self _)⟩
  · exact (hother d hd hne).symm

end Registration

namespace Schema

variable {s : Schema} {rs : List Registration} {c : Registration} {key : String}

theorem Registered.find_column_iff (h : Registered s rs) (hc : c ∈ rs) :
    s.columns.find? key = some c.column ↔ key = c.key := by
  rw [h.columns]
  constructor
  · rintro ⟨d, -, hkey, hcolumn⟩
    rw [← hkey, Registration.key_eq_of_column_eq hcolumn]
  · rintro rfl
    exact ⟨c, hc, rfl, rfl⟩

theorem Registered.find_column_eq_none (h : Registered s rs) (hother : ∀ d ∈ rs, d.key ≠ key) :
    s.columns.find? key = none := by
  rw [Option.eq_none_iff_forall_ne_some]
  intro column hcolumn
  obtain ⟨d, hd, hkey, -⟩ := (h.columns key column).mp hcolumn
  exact hother d hd hkey

theorem Registered.find_owners_eq_none (h : Registered s rs)
    (hother : ∀ d ∈ rs, d.shortKey ≠ key) : s.owners.find? key = none := by
  rw [Option.eq_none_iff_forall_ne_some]
  intro owners howners
  obtain ⟨rfl, hne⟩ := (h.owners key owners).mp howners
  obtain ⟨d, hd, hkey⟩ := ownersOf_ne_nil_iff.mp hne
  exact hother d hd hkey

theorem Registered.find_owners_eq_singleton (h : Registered s rs) (hc : c ∈ rs)
    (hother : ∀ d ∈ rs, d ≠ c → d.shortKey ≠ c.shortKey) :
    s.owners.find? c.shortKey = some [Text.trimmed c.space] := by
  rw [h.owners, ownersOf_eq_singleton h.distinct hc hother]
  simp

/-- A short name with one owner resolves unless its sigma is lost on the way. -/
theorem Registered.resolveShort_iff (h : Registered s rs) (hc : c ∈ rs) :
    s.resolveShort c.shortKey [Text.trimmed c.space] = .ok (some c.column) ↔ ¬ c.LosesSigma := by
  rw [resolveShort, Except.ok.injEq, h.find_column_iff hc,
    Registration.fold_rebuilt_iff (h.shown c hc)]

/-- The step by the beginning of a short name. -/
theorem Registered.owners_startingWith (h : Registered s rs) (hc : c ∈ rs)
    (hother : ∀ d ∈ rs, d ≠ c → ¬ Text.startsWith d.shortKey key = true) :
    s.owners.startingWith key =
      if Text.startsWith c.shortKey key then [(c.shortKey, [Text.trimmed c.space])] else [] := by
  -- What is found under a short name stems from a registration, and there is only one.
  have honly : ∀ short owners, s.owners.find? short = some owners →
      Text.startsWith short key = true → short = c.shortKey := by
    intro short owners howners hstart
    obtain ⟨rfl, hne⟩ := (h.owners short owners).mp howners
    obtain ⟨d, hd, rfl⟩ := ownersOf_ne_nil_iff.mp hne
    by_cases hdc : d = c
    · rw [hdc]
    · exact absurd hstart (hother d hd hdc)
  by_cases hstart : Text.startsWith c.shortKey key = true
  · rw [if_pos hstart]
    refine Dictionary.startingWith_eq_singleton (h.find_owners_eq_singleton hc ?_) hstart honly
    intro d hd hne hshort
    rw [← hshort] at hstart
    exact hother d hd hne hstart
  · rw [if_neg hstart]
    refine Dictionary.startingWith_eq_nil fun short owners howners hshort => hstart ?_
    rwa [← honly short owners howners hshort]

/-- The step by the beginning of a qualified name. -/
theorem Registered.lookupQualifiedStart_eq (h : Registered s rs) (hc : c ∈ rs)
    (hstart : Text.startsWith c.key key = true)
    (hother : ∀ d ∈ rs, d ≠ c → ¬ Text.startsWith d.key key = true) :
    s.lookupQualifiedStart key = .ok (some c.column) := by
  have hone : s.columns.startingWith key = [(c.key, c.column)] := by
    refine Dictionary.startingWith_eq_singleton ((h.find_column_iff hc).mpr rfl) hstart ?_
    intro k column hcolumn hstartk
    obtain ⟨d, hd, rfl, -⟩ := (h.columns k column).mp hcolumn
    by_cases hdc : d = c
    · rw [hdc]
    · exact absurd hstartk (hother d hd hdc)
  rw [lookupQualifiedStart, hone]
  rfl

/-! ### What is found -/

theorem key_ne_empty (hshown : Text.trimmed c.short ≠ "") : c.key ≠ "" := by
  rw [Registration.key, Registration.name]
  by_cases hspace : Text.trimmed c.space = ""
  · rw [hspace, qualify_empty, Text.fold_trimmed, Ne, Text.fold_eq_empty_iff]
    exact hshown
  · rw [qualify_of_ne hspace, Ne, ← String.toList_inj,
      toList_fold_joined (Text.bare_trimmed _) (Text.bare_trimmed _) hspace hshown]
    obtain ⟨first, rest, hfirst⟩ := List.exists_cons_of_ne_nil
      (l := (Text.trimmed c.space).toList) (by simpa using hspace)
    rw [hfirst]
    exact Text.lowerFrom_cons_ne_nil false first _

/-- A column is found under its qualified name, in any letter case. -/
theorem Registered.lookup_of_key (h : Registered s rs) (hc : c ∈ rs) {name : String}
    (hname : Text.fold name = c.key) : s.lookup name = .ok (some c.column) := by
  have hne : c.key.isEmpty = false := by simpa using key_ne_empty (h.shown c hc)
  rw [lookup, hname, (h.find_column_iff hc).mpr rfl]
  simp only [hne, Bool.false_eq_true, if_false]

/-- What is found has been added, and what it was found by begins its qualified name, or a short
    name from which its qualified name was built anew. -/
theorem Registered.names_of_lookup (h : Registered s rs) {name : String} {column : Column}
    (hlookup : s.lookup name = .ok (some column)) :
    ∃ r ∈ rs, r.column = column ∧ (Text.startsWith r.key (Text.fold name) = true ∨
      ∃ d ∈ rs, Text.startsWith d.shortKey (Text.fold name) = true ∧
        r.key = Text.fold (qualify (Text.trimmed d.space) d.shortKey)) := by
  have hshort : ∀ short owners, s.owners.find? short = some owners →
      Text.startsWith short (Text.fold name) = true →
      s.resolveShort short owners = .ok (some column) →
      ∃ r ∈ rs, r.column = column ∧ (Text.startsWith r.key (Text.fold name) = true ∨
        ∃ d ∈ rs, Text.startsWith d.shortKey (Text.fold name) = true ∧
          r.key = Text.fold (qualify (Text.trimmed d.space) d.shortKey)) := by
    intro short owners howners hstart hresolve
    unfold resolveShort at hresolve
    split at hresolve
    next space =>
      obtain ⟨r, hr, hkey, hcolumn⟩ := (h.columns _ column).mp (Except.ok.inj hresolve)
      have hspace : space ∈ ownersOf rs short := by
        rw [← ((h.owners short [space]).mp howners).1]
        exact List.mem_singleton_self space
      obtain ⟨d, hd, rfl, rfl⟩ := exists_of_mem_ownersOf hspace
      exact ⟨r, hr, hcolumn, .inr ⟨d, hd, hstart, hkey⟩⟩
    next => cases hresolve
  -- The lookup has four ways to succeed, and two of them go through a short name.
  unfold lookup at hlookup
  generalize Text.fold name = key at hlookup hshort ⊢
  dsimp only at hlookup
  split at hlookup
  · cases hlookup
  · split at hlookup
    -- Found by its qualified name.
    next found hfind =>
      cases hlookup
      obtain ⟨r, hr, hkey, hcolumn⟩ := (h.columns key column).mp hfind
      exact ⟨r, hr, hcolumn, .inl (hkey ▸ Registration.startsWith_self r.key)⟩
    next =>
      split at hlookup
      -- Found by its short name in full.
      next owners howners =>
        exact hshort key owners howners (Registration.startsWith_self key) hlookup
      next =>
        split at hlookup
        next =>
          unfold lookupQualifiedStart at hlookup
          split at hlookup
          next => cases hlookup
          -- Found by the beginning of its qualified name.
          next found hfound =>
            cases hlookup
            have hmem : column ∈ (s.columns.startingWith key).map Prod.snd := by
              rw [hfound]
              exact List.mem_singleton_self _
            obtain ⟨⟨key', value⟩, hentry, rfl⟩ := List.mem_map.mp hmem
            obtain ⟨hfind, hstart⟩ := Dictionary.mem_startingWith.mp hentry
            obtain ⟨r, hr, rfl, hcolumn⟩ := (h.columns key' value).mp hfind
            exact ⟨r, hr, hcolumn, .inl hstart⟩
          next => cases hlookup
        -- Found by the beginning of its short name.
        next short owners hone =>
          have hentry : (short, owners) ∈ s.owners.startingWith key := by
            rw [hone]
            exact List.mem_singleton_self _
          obtain ⟨hfind, hstart⟩ := Dictionary.mem_startingWith.mp hentry
          exact hshort short owners hfind hstart hlookup
        next => cases hlookup

theorem Registered.exists_of_lookup (h : Registered s rs) {name : String} {column : Column}
    (hlookup : s.lookup name = .ok (some column)) : ∃ r ∈ rs, r.column = column := by
  obtain ⟨r, hr, hcolumn, -⟩ := h.names_of_lookup hlookup
  exact ⟨r, hr, hcolumn⟩

/-! ### Names that fit one column, looked up -/

/-- Where the name fits one registration alone, it finds its column unless the lookup goes
through a short name that loses its sigma. -/
theorem Registered.lookup_iff (h : Registered s rs) (hc : c ∈ rs) {name : String}
    (hname : Text.fold name ≠ "")
    (hfits : c.IsOnlyStart rs (Text.fold name) ∨ c.IsOnlyOwner rs (Text.fold name)) :
    s.lookup name = .ok (some c.column) ↔
      Text.fold name = c.key ∨ ¬ Text.startsWith c.shortKey (Text.fold name) = true ∨
        ¬ c.LosesSigma := by
  unfold lookup
  generalize Text.fold name = key at hname hfits ⊢
  have hother : ∀ d ∈ rs, d ≠ c → d.key ≠ key ∧ d.shortKey ≠ key := fun d hd hne =>
    Registration.not_other_of_only hfits hd hne
  simp only [String.isEmpty_iff, hname, if_false]
  -- The steps of the lookup in their order: qualified name, short name, start of either.
  by_cases hkey : key = c.key
  · rw [(h.find_column_iff hc).mpr hkey]
    exact iff_of_true rfl (.inl hkey)
  · have hnone : s.columns.find? key = none := by
      refine h.find_column_eq_none fun d hd heq => ?_
      by_cases hdc : d = c
      · exact hkey (hdc ▸ heq.symm)
      · exact (hother d hd hdc).1 heq
    rw [hnone]
    by_cases hshort : c.shortKey = key
    · subst hshort
      rw [h.find_owners_eq_singleton hc fun d hd hne => (hother d hd hne).2]
      simp [h.resolveShort_iff hc, hkey]
    · have hnone' : s.owners.find? key = none := by
        refine h.find_owners_eq_none fun d hd heq => ?_
        by_cases hdc : d = c
        · exact hshort (hdc ▸ heq)
        · exact (hother d hd hdc).2 heq
      rcases hfits with ⟨hstart, hstarts⟩ | ⟨heq, -⟩
      · rw [hnone', h.owners_startingWith hc fun d hd hne => (hstarts d hd hne).2]
        by_cases hbegins : Text.startsWith c.shortKey key = true
        · simp [hbegins, h.resolveShort_iff hc, hkey]
        · have hqualified := hstart.resolve_right hbegins
          simp [hbegins, h.lookupQualifiedStart_eq hc hqualified
            fun d hd hne => (hstarts d hd hne).1]
      · exact absurd heq hshort

/-- **Names that fit one column.**  Of the columns that some registrations add, let `c` be the only
    one with a name that begins with the folded form of `name`, or the only one that has it as a
    short name while none has it as a qualified one.  Then `name` finds `c` exactly when it is its
    qualified name, or does not begin its short name, or the short name keeps its sigma when it is
    folded without the namespace. -/
theorem lookup_eq_ok_iff {rs : List Registration} {c : Registration} {name : String}
    (hc : c ∈ empty.added rs) (hname : Text.fold name ≠ "")
    (hfits : c.IsOnlyStart (empty.added rs) (Text.fold name) ∨
      c.IsOnlyOwner (empty.added rs) (Text.fold name)) :
    (empty.registerAll rs).lookup name = .ok (some c.column) ↔
      Text.fold name = c.key ∨ ¬ Text.startsWith c.shortKey (Text.fold name) = true ∨
        ¬ c.LosesSigma :=
  (registered_added rs).lookup_iff hc hname hfits

def cameraColumns : List Registration :=
  [⟨"exif", "iso", .integer⟩, ⟨"fits", "exptime", .float⟩]

theorem lookup_exptime :
    ⟨"fits", "exptime", .float⟩ ∈ empty.added cameraColumns ∧
      Registration.IsOnlyStart ⟨"fits", "exptime", .float⟩ (empty.added cameraColumns)
        (Text.fold " Expt") ∧
      (empty.registerAll cameraColumns).lookup " Expt" = .ok (some ⟨"fits.exptime", .float⟩) := by
  have hc : ⟨"fits", "exptime", .float⟩ ∈ empty.added cameraColumns := by decide +kernel
  have hstart : Registration.IsOnlyStart ⟨"fits", "exptime", .float⟩ (empty.added cameraColumns)
      (Text.fold " Expt") := by decide +kernel
  have hkept : ¬ Registration.LosesSigma ⟨"fits", "exptime", .float⟩ := by decide +kernel
  exact ⟨hc, hstart,
    (lookup_eq_ok_iff hc (by decide +kernel) (.inl hstart)).mpr (.inr (.inr hkept))⟩

/-- A column whose short name is a capital sigma has the key `a.ς`, but is looked for under
    `a.σ`. -/
theorem lookup_sigma_eq_none :
    ⟨"a", "Σ", .integer⟩ ∈ empty.added [⟨"a", "Σ", .integer⟩] ∧ Text.fold "Σ" ≠ "" ∧
      Registration.IsOnlyStart ⟨"a", "Σ", .integer⟩ (empty.added [⟨"a", "Σ", .integer⟩])
        (Text.fold "Σ") ∧
      Registration.IsOnlyOwner ⟨"a", "Σ", .integer⟩ (empty.added [⟨"a", "Σ", .integer⟩])
        (Text.fold "Σ") ∧
      (empty.registerAll [⟨"a", "Σ", .integer⟩]).lookup "Σ" = .ok none := by
  refine ⟨?_, ?_, ?_, ?_, ?_⟩ <;> decide +kernel

end Schema

end RecordFilter
