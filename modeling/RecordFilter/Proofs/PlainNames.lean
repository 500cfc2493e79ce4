import RecordFilter.Proofs.Lookup
import RecordFilter.Schema.Inference
/-!
# Names with a namespace

The name of a property is split at its first dot, and the two parts, trimmed, are put together again
as the name of a column.  That is the name of the property itself if the dot stands between two
characters that show something (`IsPlainName`), and a shorter one, or none at all, if it does not
(`name_of_isPlainName`, `shorter_of_not_isPlainName`).  Whether a name is plain does not depend on
the letter case (`IsPlainName.of_fold_eq`).
-/

namespace RecordFilter

/-! ### What shows at the ends -/

namespace Text

variable {s t : List Char}

def StartsShown (s : List Char) : Prop := ∃ c ∈ s.head?, isBlank c = false

def EndsShown (s : List Char) : Prop := ∃ c ∈ s.getLast?, isBlank c = false

theorem bare_of_shown (hstart : StartsShown s) (hend : EndsShown s) : Bare s := by
  obtain ⟨c, hc, hcShown⟩ := hstart
  obtain ⟨d, hd, hdShown⟩ := hend
  constructor
  · intro e he
    rwa [Option.mem_unique he hc]
  · intro e he
    rwa [Option.mem_unique he hd]

theorem Bare.startsShown (h : Bare s) (hne : s ≠ []) : StartsShown s := by
  obtain ⟨c, rest, rfl⟩ := List.exists_cons_of_ne_nil hne
  exact ⟨c, rfl, h.1 c rfl⟩

theorem Bare.endsShown (h : Bare s) (hne : s ≠ []) : EndsShown s :=
  ⟨s.getLast hne, List.getLast?_eq_some_getLast hne, h.2 _ (List.getLast?_eq_some_getLast hne)⟩

theorem endsShown_append (hne : t ≠ []) : EndsShown (s ++ t) ↔ EndsShown t := by
  rw [EndsShown, List.getLast?_append_of_ne_nil s hne, ← EndsShown]

theorem trim_sublist (s : List Char) : (trim s).Sublist s :=
  (trimRight_isPrefix _).sublist.trans (List.dropWhile_sublist _)

/-! ### Dots in lower case -/

/-- The small forms of a character are dots, and blank, exactly if the character is. -/
theorem small_shape (c : Char) {sigma : Char} (hsigma : sigma = 'ς' ∨ sigma = 'σ') :
    ('.' ∈ (if c = 'Σ' then [sigma] else lowerChar c) ↔ c = '.') ∧
      ∀ d ∈ (if c = 'Σ' then [sigma] else lowerChar c), isBlank d = isBlank c := by
  by_cases hc : c = 'Σ'
  · subst hc
    have hblank : isBlank 'ς' = isBlank 'Σ' ∧ isBlank 'σ' = isBlank 'Σ' := by decide
    rcases hsigma with rfl | rfl <;> simp [hblank]
  · rw [if_neg hc]
    -- Besides the sigma a character stays, is the dotted I, or becomes one other letter.
    rcases lowerChar_cases c with hsame | ⟨rfl, hdotted⟩ | ⟨d, hlower, hd⟩
    · simp [hsame, eq_comm]
    · have hblank : isBlank 'i' = isBlank 'İ' ∧ isBlank '\u0307' = isBlank 'İ' := by decide
      simp [hdotted, hblank]
    · have hdot : isCased '.' = false := by decide +kernel
      have hcDot : c ≠ '.' := by
        rintro rfl
        rw [hd.cased.1] at hdot
        cases hdot
      have hdDot : '.' ≠ d := by
        rintro rfl
        rw [hd.cased.2] at hdot
        cases hdot
      rw [hlower]
      simp [hcDot, hdDot, not_isBlank_of_isWordChar hd.word.1,
        not_isBlank_of_isWordChar hd.word.2]

theorem startsShown_lowerFrom (afterCased : Bool) :
    StartsShown (lowerFrom afterCased s) ↔ StartsShown s := by
  cases s with
  | nil => rfl
  | cons c rest =>
    have hsigma := final_or_medial (afterCased && !startsCased rest)
    obtain ⟨d, marks, hsmall, -⟩ := small_eq_cons c _ hsigma
    have hblank := (small_shape c hsigma).2
    rw [hsmall] at hblank
    rw [lowerFrom, hsmall]
    simp [StartsShown, hblank d (List.mem_cons_self ..)]

theorem mem_of_dot_mem_lowerFrom {afterCased : Bool} (h : '.' ∈ lowerFrom afterCased s) :
    '.' ∈ s := by
  induction s generalizing afterCased with
  | nil => exact h
  | cons c rest ih =>
    rw [lowerFrom] at h
    rcases List.mem_append.mp h with h | h
    · rw [(small_shape c (final_or_medial _)).1] at h
      exact List.mem_cons.mpr (.inl h.symm)
    · exact List.mem_cons_of_mem c (ih h)

/-- The first dot of a text is the first dot of the text in lower case. -/
theorem lowerFrom_dot (afterCased : Bool) {before : List Char} (hbefore : '.' ∉ before)
    (after : List Char) :
    ∃ small cased,
      lowerFrom afterCased (before ++ '.' :: after) = small ++ '.' :: lowerFrom cased after ∧
        '.' ∉ small ∧ (small = [] ↔ before = []) ∧ (EndsShown small ↔ EndsShown before) := by
  induction before generalizing afterCased with
  | nil =>
    have hdot : lowerChar '.' = ['.'] := by decide
    refine ⟨[], if isCaseIgnorable '.' then afterCased else isCased '.', ?_, List.not_mem_nil,
      Iff.rfl, Iff.rfl⟩
    rw [List.nil_append, lowerFrom, if_neg (by decide), hdot]
    rfl
  | cons c rest ih =>
    obtain ⟨hc, hrest⟩ := List.ne_and_not_mem_of_not_mem_cons hbefore
    obtain ⟨small, cased, hlower, hdot, hnil, hends⟩ :=
      ih (if isCaseIgnorable c then afterCased else isCased c) hrest
    have hsigma := final_or_medial (afterCased && !startsCased (rest ++ '.' :: after))
    obtain ⟨hshape, hblank⟩ := small_shape c hsigma
    obtain ⟨d, marks, hsmall, -⟩ := small_eq_cons c _ hsigma
    rw [hsmall] at hshape hblank
    refine ⟨d :: marks ++ small, cased, ?_, ?_, by simp, ?_⟩
    · rw [List.cons_append, lowerFrom, hsmall, hlower, List.append_assoc]
    · intro hmem
      rcases List.mem_append.mp hmem with hmem | hmem
      · exact hc (hshape.mp hmem).symm
      · exact hdot hmem
    · -- The end of the text is in the rest, unless the character is the last one.
      by_cases hnone : rest = []
      · obtain ⟨e, he⟩ := Option.isSome_iff_exists.mp
          (List.getLast?_isSome.mpr (List.cons_ne_nil d marks))
        have hsame := hblank e (List.mem_of_getLast? he)
        rw [hnil.mpr hnone, hnone, List.append_nil, EndsShown, he]
        simp [EndsShown, hsame]
      · have hcons : c :: rest = [c] ++ rest := rfl
        rw [endsShown_append (mt hnil.mp hnone), hends, hcons, endsShown_append hnone]

/-! ### Lower case does not shorten -/

/-- What a text has more than a part of it, it has more in lower case as well. -/
theorem length_lowerEach_of_sublist (h : s.Sublist t) :
    (lowerEach s).length + t.length ≤ (lowerEach t).length + s.length := by
  have hcons : ∀ (c : Char) (l : List Char),
      (lowerEach (c :: l)).length = (lowerChar c).length + (lowerEach l).length := by
    intro c l
    simp [lowerEach]
  induction h with
  | slnil => simp
  | @cons s t c _ ih =>
    have hpos : 0 < (lowerChar c).length := by
      rcases lowerChar_cases c with hsame | ⟨-, hdotted⟩ | ⟨d, hlower, -⟩
      · simp [hsame]
      · simp [hdotted]
      · simp [hlower]
    rw [hcons, List.length_cons]
    omega
  | cons_cons c _ ih =>
    rw [hcons, hcons, List.length_cons, List.length_cons]
    omega

theorem length_fold {name : String} (h : Bare name.toList) :
    (fold name).toList.length = (lowerEach name.toList).length := by
  rw [toList_fold, h.trim_eq, lower, length_lowerFrom]

end Text

namespace Schema

open Text

variable {name other : String} {before after : List Char} {type : ColumnType}

/-! ### Plain names -/

/-- The first dot of the name, if there is one, stands between two characters that show
    something. -/
def IsPlainName (name : String) : Prop :=
  ∀ before after, name.toList = before ++ '.' :: after → '.' ∉ before →
    EndsShown before ∧ StartsShown after

theorem isPlainName_of_split (hname : name.toList = before ++ '.' :: after) (hbefore : '.' ∉ before)
    (hends : EndsShown before) (hstarts : StartsShown after) : IsPlainName name := by
  intro before' after' hname' hbefore'
  obtain ⟨rfl, rfl⟩ := cut_first hbefore hbefore' (hname.symm.trans hname')
  exact ⟨hends, hstarts⟩

theorem isPlainName_of_not_mem (h : '.' ∉ name.toList) : IsPlainName name := by
  intro before after hname _
  rw [hname] at h
  exact absurd (List.mem_append_right before (List.mem_cons_self ..)) h

/-- Two names that are the same in lower case are both plain, or neither is. -/
theorem IsPlainName.of_fold_eq (h : IsPlainName name) (hname : Bare name.toList)
    (hother : Bare other.toList) (hfold : fold name = fold other) : IsPlainName other := by
  intro before after hsplit hbefore
  have hlower : lower name.toList = lower other.toList := by
    rw [← String.toList_inj, toList_fold, toList_fold, hname.trim_eq, hother.trim_eq] at hfold
    exact hfold
  obtain ⟨small, cased, hsmall, hdot, -, hends⟩ := lowerFrom_dot false hbefore after
  rw [lower, lower, hsplit, hsmall] at hlower
  have hmem : '.' ∈ lowerFrom false name.toList := by
    rw [hlower]
    exact List.mem_append_right small (List.mem_cons_self ..)
  obtain ⟨before', after', hsplit', hbefore'⟩ :=
    List.eq_append_cons_of_mem (mem_of_dot_mem_lowerFrom hmem)
  obtain ⟨small', cased', hsmall', hdot', -, hends'⟩ := lowerFrom_dot false hbefore' after'
  rw [hsplit', hsmall'] at hlower
  -- Lower-casing makes no dot, so both names are cut at the same place.
  obtain ⟨hsame, hafter⟩ := cut_first hdot' hdot hlower
  obtain ⟨hendsName, hstartsName⟩ := h before' after' hsplit' hbefore'
  constructor
  · rw [← hends, ← hsame, hends']
    exact hendsName
  · rw [← startsShown_lowerFrom cased, ← hafter, startsShown_lowerFrom cased']
    exact hstartsName

/-! ### Names that are split and put together -/

theorem splitName_of_not_mem (h : '.' ∉ name.toList) : splitName name = ("", name) := by
  obtain ⟨-, hdrop⟩ := takeWhile_append_of_head (bne_of_not_mem h) [] (by simp)
  rw [List.append_nil] at hdrop
  rw [splitName, hdrop]

theorem splitName_of_split (hname : name.toList = before ++ '.' :: after) (hbefore : '.' ∉ before) :
    splitName name = (String.ofList before, String.ofList after) := by
  obtain ⟨htake, hdrop⟩ :=
    takeWhile_append_of_head (bne_of_not_mem hbefore) ('.' :: after) (by simp)
  rw [splitName, hname, htake, hdrop]

end Schema

def Registration.ofSample (sample : String × ColumnType) : Registration :=
  ⟨(Schema.splitName sample.1).1, (Schema.splitName sample.1).2, sample.2⟩

namespace Schema

open Text

variable {name : String} {type : ColumnType}

theorem ne_empty_of_shown (hshown : trimmed (Registration.ofSample (name, type)).short ≠ "") :
    name ≠ "" := by
  rintro rfl
  have hempty : trimmed "" = "" := by decide
  apply hshown
  rw [Registration.ofSample, splitName_of_not_mem (by simp)]
  exact hempty

/-- The column for a plain name has that name. -/
theorem name_of_isPlainName (type : ColumnType) (h : IsPlainName name) (hbare : Bare name.toList)
    (hne : name ≠ "") :
    (Registration.ofSample (name, type)).name = name ∧
      trimmed (Registration.ofSample (name, type)).short ≠ "" := by
  have htrimmed : ∀ {s : List Char}, Bare s → trimmed (String.ofList s) = String.ofList s := by
    intro s hs
    rw [trimmed, String.toList_ofList, hs.trim_eq]
  by_cases hdot : '.' ∈ name.toList
  · obtain ⟨before, after, hsplit, hbefore⟩ := List.eq_append_cons_of_mem hdot
    obtain ⟨hends, hstarts⟩ := h before after hsplit hbefore
    have hbeforeNe : before ≠ [] := by
      rintro rfl
      obtain ⟨c, hc, -⟩ := hends
      cases hc
    have hafterNe : after ≠ [] := by
      rintro rfl
      obtain ⟨c, hc, -⟩ := hstarts
      cases hc
    -- The ends of the name are the outer ends of the two parts.
    rw [hsplit] at hbare
    have hbareBefore : Bare before := by
      refine bare_of_shown (Bare.startsShown ⟨?_, ?_⟩ hbeforeNe) hends
      · have hhead := hbare.1
        rwa [List.head?_append_of_ne_nil _ hbeforeNe] at hhead
      · intro c hc
        obtain ⟨d, hd, hdShown⟩ := hends
        rwa [Option.mem_unique hc hd]
    have hbareAfter : Bare after := by
      refine bare_of_shown hstarts (Bare.endsShown ⟨?_, ?_⟩ hafterNe)
      · intro c hc
        obtain ⟨d, hd, hdShown⟩ := hstarts
        rwa [Option.mem_unique hc hd]
      · have hlast := hbare.2
        rwa [List.append_cons, List.getLast?_append_of_ne_nil _ hafterNe] at hlast
    rw [Registration.name, Registration.ofSample, splitName_of_split hsplit hbefore,
      htrimmed hbareBefore, htrimmed hbareAfter, qualify_of_ne (by simpa using hbeforeNe),
      ← String.toList_inj, hsplit]
    simp [hafterNe]
  · have hname : trimmed name = name := by
      rw [trimmed, hbare.trim_eq, String.ofList_toList]
    rw [Registration.name, Registration.ofSample, splitName_of_not_mem hdot, hname]
    exact ⟨rfl, hne⟩

/-- The column for any other name, if it has one, has a shorter name. -/
theorem shorter_of_not_isPlainName (h : ¬ IsPlainName name)
    (hshown : trimmed (Registration.ofSample (name, type)).short ≠ "") :
    (Registration.ofSample (name, type)).name.toList.Sublist name.toList ∧
      (Registration.ofSample (name, type)).name.toList ≠ name.toList := by
  simp only [IsPlainName, not_forall] at h
  obtain ⟨before, after, hsplit, hbefore, hnot⟩ := h
  rw [Registration.ofSample, splitName_of_split hsplit hbefore] at hshown
  rw [Registration.name, Registration.ofSample, splitName_of_split hsplit hbefore, hsplit]
  dsimp only at hshown ⊢
  have htoList : ∀ s : List Char, (trimmed (String.ofList s)).toList = trim s := by
    intro s
    rw [trimmed, String.toList_ofList, String.toList_ofList]
  -- Without a namespace the point is gone; with one some blank next to the point is.
  by_cases hspace : trimmed (String.ofList before) = ""
  · rw [hspace, qualify_empty, htoList]
    constructor
    · exact (trim_sublist after).trans
        ((List.sublist_cons_self '.' after).trans (List.sublist_append_right before _))
    · intro heq
      have hle := (trim_sublist after).length_le
      rw [heq, List.length_append, List.length_cons] at hle
      omega
  · have hjoined : (qualify (trimmed (String.ofList before))
        (trimmed (String.ofList after))).toList = trim before ++ '.' :: trim after := by
      rw [qualify_of_ne hspace, ← htoList before, ← htoList after]
      simp
    rw [hjoined]
    constructor
    · exact (trim_sublist before).append ((trim_sublist after).cons_cons '.')
    · intro heq
      have hdot : '.' ∉ trim before := fun hmem => hbefore ((trim_sublist before).subset hmem)
      obtain ⟨hbeforeSame, hafterSame⟩ := cut_first hdot hbefore heq
      apply hnot
      constructor
      · rw [← hbeforeSame]
        apply (bare_trim before).endsShown
        rw [← htoList]
        simpa using hspace
      · rw [← hafterSame]
        apply (bare_trim after).startsShown
        rw [← htoList]
        simpa using hshown

end Schema

end RecordFilter
