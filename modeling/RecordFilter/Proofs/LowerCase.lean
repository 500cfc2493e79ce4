import RecordFilter.Command.Lexer
import RecordFilter.Proofs.Runs
/-!
# What lower case keeps

Lower case changes capital letters only, and it changes them into letters: what comes out has no
capitals left (`Settled`), is made of the same kind of characters, and is cased where the text was.
All this rests on the tables, which are checked run by run (`capitalRuns_regular`).

A capital sigma is the one letter whose small form depends on its surroundings.  A text that stands
behind another is lowered as on its own, unless the sigma that it begins with, as far as letters
go, ends a word of both texts together (`lowerFrom_eq_lower_iff`).
-/

namespace RecordFilter.Text

open RecordFilter.Token

/-! ### The tables -/

def isWithin (ranges : List CodeRange) (first last : Nat) : Bool :=
  ranges.any fun range => Nat.ble range.first first && Nat.ble last range.last

def isApart (ranges : List CodeRange) (first last : Nat) : Bool :=
  ranges.all fun range => Nat.blt range.last first || Nat.blt last range.first

/-- Stretches of code points with all letters in them that have two forms, and without any character
    that is passed over. -/
def letterBlocks : List CodeRange := [
  ⟨0x6B, 0x6B⟩, ⟨0xC0, 0x29E⟩, ⟨0x370, 0x373⟩, ⟨0x376, 0x377⟩, ⟨0x37B, 0x37F⟩, ⟨0x386, 0x386⟩,
  ⟨0x388, 0x481⟩, ⟨0x48A, 0x556⟩, ⟨0x561, 0x586⟩, ⟨0x10A0, 0x10FA⟩, ⟨0x10FD, 0x10FF⟩,
  ⟨0x13A0, 0x13FD⟩, ⟨0x1C89, 0x1CBF⟩, ⟨0x1D79, 0x1D8E⟩, ⟨0x1E00, 0x1FBC⟩, ⟨0x1FC3, 0x1FCC⟩,
  ⟨0x1FD0, 0x1FDB⟩, ⟨0x1FE0, 0x1FEC⟩, ⟨0x1FF3, 0x1FFC⟩, ⟨0x2126, 0x2C76⟩, ⟨0x2C7E, 0x2CEE⟩,
  ⟨0x2CF2, 0x2D2D⟩, ⟨0xA640, 0xA66D⟩, ⟨0xA680, 0xA69B⟩, ⟨0xA722, 0xA76F⟩, ⟨0xA779, 0xA787⟩,
  ⟨0xA78B, 0xA7DC⟩, ⟨0xA7F5, 0xA7F6⟩, ⟨0xAB53, 0xAB53⟩, ⟨0xAB70, 0xABBF⟩, ⟨0xFF21, 0xFF3A⟩,
  ⟨0xFF41, 0xFF5A⟩, ⟨0x10400, 0x105BC⟩, ⟨0x10C80, 0x10CF2⟩, ⟨0x10D50, 0x10D65⟩,
  ⟨0x10D70, 0x10D85⟩, ⟨0x118A0, 0x118DF⟩, ⟨0x16E40, 0x16ED3⟩, ⟨0x1E900, 0x1E943⟩]

/-- The code points above ASCII that are blank, `İ`, and what is no character. -/
def oddRanges : List CodeRange :=
  [⟨0x85, 0x85⟩, ⟨0xA0, 0xA0⟩, ⟨0x130, 0x130⟩, ⟨0x1680, 0x1680⟩, ⟨0x2000, 0x200A⟩,
   ⟨0x2028, 0x2029⟩, ⟨0x202F, 0x202F⟩, ⟨0x205F, 0x205F⟩, ⟨0x3000, 0x3000⟩, ⟨0xD800, 0xDFFF⟩]

namespace CapitalRun

def imageLast (run : CapitalRun) : Nat := run.image + (run.last - run.first)

/-- Whether all letters of a run are cased.  The letters of a run with gaps may lie in several
    ranges. -/
def isCasedRun (run : CapitalRun) : Bool :=
  (isWithin casedRanges run.first run.last ||
    (List.range (run.last - run.first + 1)).all fun k =>
      !Nat.beq (k % run.stride) 0 || isWithin casedRanges (run.first + k) (run.first + k)) &&
    isWithin casedRanges run.image run.imageLast

/-- Whether the small letters of a run are capitals of no run.  Where a run with gaps has small
    letters in the gaps of another, they differ in parity. -/
def isSmallRun (run : CapitalRun) : Bool :=
  capitalRuns.all fun other =>
    Nat.blt other.last run.image || Nat.blt run.imageLast other.first ||
      (Nat.beq other.stride 2 && (Nat.beq run.stride 2 || Nat.beq run.image run.imageLast) &&
        Nat.beq ((other.first + run.image) % 2) 1)

/-- Whether the letters of a run are no white space.  One capital, the sign for kelvin, has a small
    letter in ASCII. -/
def isWordRun (run : CapitalRun) : Bool :=
  isApart oddRanges run.first run.last && Nat.ble 0x80 run.first && Nat.blt run.last 0x110000 &&
    ((Nat.beq run.image 0x6B && Nat.beq run.imageLast 0x6B) ||
      (isApart oddRanges run.image run.imageLast && Nat.ble 0x80 run.image &&
        Nat.blt run.imageLast 0x110000))

def isRegular (run : CapitalRun) : Bool :=
  run.isCasedRun && (isWithin letterBlocks run.first run.last &&
    isWithin letterBlocks run.image run.imageLast) && run.isSmallRun && run.isWordRun

end CapitalRun

theorem capitalRuns_regular : ∀ run ∈ capitalRuns, run.isRegular = true := by
  have hall : capitalRuns.all CapitalRun.isRegular = true := by decide +kernel
  exact List.all_eq_true.mp hall

theorem letterBlocks_apart :
    ∀ block ∈ letterBlocks, isApart caseIgnorableRanges block.first block.last = true := by
  have hall : letterBlocks.all (fun block =>
      isApart caseIgnorableRanges block.first block.last) = true := by decide +kernel
  exact List.all_eq_true.mp hall

/-! ### What the tables say of one letter -/

theorem inRanges_iff {ranges : List CodeRange} {c : Char} :
    inRanges ranges c = true ↔ ∃ range ∈ ranges, range.first ≤ c.toNat ∧ c.toNat ≤ range.last := by
  simp [inRanges]

theorem isWithin_iff {ranges : List CodeRange} {first last : Nat} :
    isWithin ranges first last = true ↔
      ∃ range ∈ ranges, range.first ≤ first ∧ last ≤ range.last := by
  simp [isWithin]

theorem inRanges_of_isWithin {ranges : List CodeRange} {first last : Nat}
    (h : isWithin ranges first last = true) {c : Char} (hfirst : first ≤ c.toNat)
    (hlast : c.toNat ≤ last) : inRanges ranges c = true := by
  obtain ⟨range, hrange, hle, hge⟩ := isWithin_iff.mp h
  exact inRanges_iff.mpr ⟨range, hrange, by omega, by omega⟩

theorem not_inRanges_of_isApart {ranges : List CodeRange} {first last : Nat}
    (h : isApart ranges first last = true) {c : Char} (hfirst : first ≤ c.toNat)
    (hlast : c.toNat ≤ last) : inRanges ranges c = false := by
  rw [← Bool.not_eq_true, inRanges_iff]
  rintro ⟨range, hrange, hle, hge⟩
  have happart := List.all_eq_true.mp h range hrange
  simp at happart
  omega

/-- No letter of a block is passed over. -/
theorem not_isCaseIgnorable_of_isWithin {first last : Nat}
    (h : isWithin letterBlocks first last = true) {c : Char} (hfirst : first ≤ c.toNat)
    (hlast : c.toNat ≤ last) : isCaseIgnorable c = false := by
  obtain ⟨block, hblock, hle, hge⟩ := isWithin_iff.mp h
  exact not_inRanges_of_isApart (letterBlocks_apart block hblock) (by omega) (by omega)

/-- A letter with two forms, and its small form. -/
structure LowersTo (c d : Char) : Prop where
  cased : isCased c = true ∧ isCased d = true
  visible : isCaseIgnorable c = false ∧ isCaseIgnorable d = false
  word : isWordChar c = true ∧ isWordChar d = true
  small : lowerChar d = [d]

/-- Beyond the seven bits every character that is not odd belongs to words. -/
theorem isWordChar_of_not_odd {c : Char} (hhigh : 0x80 ≤ c.toNat)
    (hodd : inRanges oddRanges c = false) : isWordChar c = true := by
  have hne : ∀ d : Char, d.toNat < 0x80 → (c == d) = false := by
    intro d hd
    rw [beq_eq_false_iff_ne]
    rintro rfl
    omega
  have hblank : isBlank c = false := by
    rw [← Bool.not_eq_true] at hodd ⊢
    intro hblank
    apply hodd
    simp only [isBlank, Bool.or_eq_true, Bool.and_eq_true, decide_eq_true_eq, beq_iff_eq] at hblank
    simp only [inRanges, oddRanges, List.any_cons, List.any_nil, Bool.or_eq_true, Bool.and_eq_true,
      decide_eq_true_eq]
    omega
  simp [isWordChar, isOperatorChar, hblank, hne]

def isRegularLetter (c : Char) : Bool :=
  match lowerChar c with
  | [d] => d == c || (isCased c && isCased d && !isCaseIgnorable c && !isCaseIgnorable d &&
      isWordChar c && isWordChar d && lowerChar d == [d])
  | _ => false

/-- Every letter of ASCII is small or has its small form in ASCII. -/
theorem lowersTo_of_ascii {c : Char} (h : c.toNat < 0x80) :
    lowerChar c = [c] ∨ ∃ d, lowerChar c = [d] ∧ LowersTo c d := by
  have hall : (List.range 0x80).all (fun n => isRegularLetter (Char.ofNat n)) = true := by
    decide +kernel
  have hregular := List.all_eq_true.mp hall c.toNat (List.mem_range.mpr h)
  rw [Char.ofNat_toNat] at hregular
  unfold isRegularLetter at hregular
  split at hregular
  next d hlower =>
    simp only [Bool.or_eq_true, Bool.and_eq_true, Bool.not_eq_true', beq_iff_eq] at hregular
    rcases hregular with rfl | ⟨⟨⟨⟨⟨⟨hc, hd⟩, hc'⟩, hd'⟩, hcword⟩, hdword⟩, hsmall⟩
    · exact .inl hlower
    · exact .inr ⟨d, hlower, ⟨hc, hd⟩, ⟨hc', hd'⟩, ⟨hcword, hdword⟩, hsmall⟩
  next => cases hregular

/-- What the check of a run says of the capitals in it. -/
theorem regular_capital {run : CapitalRun} (h : run.isRegular = true) {c : Char}
    (hfirst : run.first ≤ c.toNat) (hlast : c.toNat ≤ run.last)
    (hstride : (c.toNat - run.first) % run.stride = 0) :
    isCased c = true ∧ isCaseIgnorable c = false ∧ isWordChar c = true := by
  simp only [CapitalRun.isRegular, CapitalRun.isCasedRun, CapitalRun.isWordRun, Bool.and_eq_true,
    Bool.or_eq_true] at h
  obtain ⟨⟨⟨⟨hcased, -⟩, hvisible, -⟩, -⟩, ⟨⟨hodd, hhigh⟩, -⟩, -⟩ := h
  refine ⟨?_, not_isCaseIgnorable_of_isWithin hvisible hfirst hlast, ?_⟩
  · rcases hcased with hwithin | hgaps
    · exact inRanges_of_isWithin hwithin hfirst hlast
    · have hone := List.all_eq_true.mp hgaps (c.toNat - run.first) (by simp; omega)
      rw [hstride, Nat.add_sub_cancel' hfirst] at hone
      exact inRanges_of_isWithin (by simpa using hone) (Nat.le_refl _) (Nat.le_refl _)
  · have hle := Nat.le_of_ble_eq_true hhigh
    exact isWordChar_of_not_odd (by omega) (not_inRanges_of_isApart hodd hfirst hlast)

/-- The small letters of a run are capitals of no run. -/
theorem small?_eq_none {run other : CapitalRun} (h : run.isSmallRun = true)
    (hother : other ∈ capitalRuns) {k : Nat} (hk : k ≤ run.last - run.first)
    (hstride : k % run.stride = 0) : other.small? (k + run.image) = none := by
  have happart := List.all_eq_true.mp h other hother
  simp only [Bool.or_eq_true, Bool.and_eq_true, Nat.blt_eq, Nat.beq_eq, CapitalRun.imageLast]
    at happart
  rw [CapitalRun.small?, if_neg]
  rintro ⟨hfirst, hlast, hother⟩
  rcases happart with (happart | happart) | ⟨⟨htwo, hrun⟩, hparity⟩
  · omega
  · omega
  · rw [htwo] at hother
    have heven : k % 2 = 0 := by
      rcases hrun with hrun | hrun
      · rwa [hrun] at hstride
      · omega
    omega

/-- What the check of a run says of the small letters of the capitals in it. -/
theorem regular_small {run : CapitalRun} (h : run.isRegular = true) {d : Char} {k : Nat}
    (hk : k ≤ run.last - run.first) (hstride : k % run.stride = 0) (hd : d.toNat = k + run.image) :
    isCased d = true ∧ isCaseIgnorable d = false ∧ isWordChar d = true ∧ lowerChar d = [d] := by
  simp only [CapitalRun.isRegular, CapitalRun.isCasedRun, CapitalRun.isWordRun, Bool.and_eq_true,
    Bool.or_eq_true] at h
  obtain ⟨⟨⟨⟨-, hcased⟩, -, hvisible⟩, hsmall⟩, -, hword⟩ := h
  have hfirst : run.image ≤ d.toNat := by omega
  have hlast : d.toNat ≤ run.imageLast := by
    rw [CapitalRun.imageLast]
    omega
  refine ⟨inRanges_of_isWithin hcased hfirst hlast,
    not_isCaseIgnorable_of_isWithin hvisible hfirst hlast, ?_⟩
  -- Only the Kelvin sign has a small letter of seven bits.
  rcases hword with ⟨himage, himageLast⟩ | ⟨⟨hodd, hhigh⟩, -⟩
  · have hkelvin : d.toNat = 'k'.toNat := by
      have htoNat : 'k'.toNat = 0x6B := rfl
      rw [Nat.beq_eq] at himage himageLast
      omega
    rw [Char.toNat_inj.mp hkelvin]
    decide
  · have hhigh' := Nat.le_of_ble_eq_true hhigh
    have hodd' := not_inRanges_of_isApart hodd hfirst hlast
    refine ⟨isWordChar_of_not_odd (by omega) hodd', ?_⟩
    have hdotted : d ≠ 'İ' := by
      rintro rfl
      exact absurd hodd' (by decide)
    have hnone : capitalRuns.findSome? (·.small? d.toNat) = none := by
      rw [List.findSome?_eq_none_iff]
      intro other hother
      rw [hd]
      exact small?_eq_none hsmall hother hk hstride
    rw [lowerChar, if_neg (by omega), if_neg hdotted, hnone]

theorem toNat_small {run : CapitalRun} (h : run.isRegular = true) {k : Nat}
    (hk : k ≤ run.last - run.first) : (Char.ofNat (k + run.image)).toNat = k + run.image := by
  simp only [CapitalRun.isRegular, CapitalRun.isWordRun, Bool.and_eq_true, Bool.or_eq_true,
    Nat.blt_eq, Nat.beq_eq, CapitalRun.imageLast] at h
  have hvalid : (k + run.image).isValidChar := by
    unfold Nat.isValidChar
    rcases h.2.2 with ⟨himage, himageLast⟩ | ⟨⟨hodd, -⟩, hlast⟩
    · omega
    · have hsurrogates := List.all_eq_true.mp hodd ⟨0xD800, 0xDFFF⟩ (by decide)
      simp only [Bool.or_eq_true, Nat.blt_eq] at hsurrogates
      omega
  rw [Char.ofNat, dif_pos hvalid]
  rfl

/-- A capital of a regular run lowers to the small letter at the same place of the run. -/
theorem lowersTo_of_run {run : CapitalRun} (hrun : run ∈ capitalRuns) {c : Char} {n : Nat}
    (h : run.small? c.toNat = some n) : LowersTo c (Char.ofNat n) := by
  have hregular := capitalRuns_regular run hrun
  rw [CapitalRun.small?, Option.ite_none_right_eq_some] at h
  obtain ⟨⟨hfirst, hlast, hstride⟩, hn⟩ := h
  obtain rfl : c.toNat - run.first + run.image = n := Option.some.inj hn
  have hk : c.toNat - run.first ≤ run.last - run.first := by omega
  obtain ⟨hcased, hvisible, hword⟩ := regular_capital hregular hfirst hlast hstride
  obtain ⟨hcased', hvisible', hword', hsmall⟩ :=
    regular_small hregular hk hstride (toNat_small hregular hk)
  exact ⟨⟨hcased, hcased'⟩, ⟨hvisible, hvisible'⟩, ⟨hword, hword'⟩, hsmall⟩

/-- A character is small or has no case, or it is `İ`, or it has one small letter. -/
theorem lowerChar_cases (c : Char) :
    lowerChar c = [c] ∨ (c = 'İ' ∧ lowerChar c = ['i', '\u0307']) ∨
      ∃ d, lowerChar c = [d] ∧ LowersTo c d := by
  by_cases hascii : c.toNat < 0x80
  · rcases lowersTo_of_ascii hascii with hsame | hlower
    · exact .inl hsame
    · exact .inr (.inr hlower)
  · by_cases hdotted : c = 'İ'
    · subst hdotted
      exact .inr (.inl ⟨rfl, by decide⟩)
    · rw [lowerChar, if_neg hascii, if_neg hdotted]
      cases hfound : capitalRuns.findSome? (·.small? c.toNat) with
      | none => exact .inl rfl
      | some n =>
        obtain ⟨run, hrun, hsmall⟩ := List.exists_of_findSome?_eq_some hfound
        exact .inr (.inr ⟨_, rfl, lowersTo_of_run hrun hsmall⟩)

@[simp] theorem lowerChar_ne_nil (c : Char) : lowerChar c ≠ [] := by
  rcases lowerChar_cases c with hsame | ⟨-, hdotted⟩ | ⟨d, hlower, -⟩
  · simp [hsame]
  · simp [hdotted]
  · simp [hlower]

@[simp] theorem isEmpty_lowerEach (s : List Char) : (lowerEach s).isEmpty = s.isEmpty := by
  cases s with
  | nil => rfl
  | cons c s => simp [lowerEach]

theorem lowerEach_append_singleton (s : List Char) (c : Char) :
    lowerEach (s ++ [c]) = lowerEach s ++ lowerChar c := by
  simp [lowerEach]

/-! ### Texts without capitals -/

/-- Nothing in the text has a small form other than itself. -/
def Settled (s : List Char) : Prop := ∀ c ∈ s, lowerChar c = [c]

theorem Settled.ne_sigma {s : List Char} (h : Settled s) : 'Σ' ∉ s := by
  intro hmem
  have hsigma : lowerChar 'Σ' = ['σ'] := by decide +kernel
  have hsame := h 'Σ' hmem
  rw [hsigma] at hsame
  exact absurd hsame (by decide)

theorem settled_lowerChar (c : Char) : Settled (lowerChar c) := by
  rcases lowerChar_cases c with hsame | ⟨-, hdotted⟩ | ⟨d, hlower, hd⟩
  · rw [hsame]
    simpa [Settled] using hsame
  · rw [hdotted]
    intro d hd
    rcases List.mem_cons.mp hd with rfl | hd
    · decide
    · rw [List.mem_singleton.mp hd]
      decide +kernel
  · rw [hlower]
    simpa [Settled] using hd.small

theorem settled_lowerEach (s : List Char) : Settled (lowerEach s) := by
  intro d hd
  obtain ⟨c, -, hd⟩ := List.mem_flatMap.mp hd
  exact settled_lowerChar c d hd

/-- What was lowered as a whole no longer changes when lowered again. -/
theorem settled_lowerFrom (afterCased : Bool) (s : List Char) :
    Settled (lowerFrom afterCased s) := by
  induction s generalizing afterCased with
  | nil => simp [Settled, lowerFrom]
  | cons c rest ih =>
    intro d hd
    rw [lowerFrom] at hd
    rcases List.mem_append.mp hd with hd | hd
    · split at hd
      · rw [List.mem_singleton.mp hd]
        split <;> decide +kernel
      · exact settled_lowerChar c d hd
    · exact ih _ d hd

theorem Settled.lowerEach_eq {s : List Char} (h : Settled s) : lowerEach s = s := by
  induction s with
  | nil => rfl
  | cons c rest ih =>
    rw [lowerEach, List.flatMap_cons, h c (List.mem_cons_self ..), List.singleton_append,
      ← lowerEach, ih fun d hd => h d (List.mem_cons_of_mem c hd)]

theorem Settled.lowerFrom_eq {s : List Char} (h : Settled s) (afterCased : Bool) :
    lowerFrom afterCased s = s := by
  induction s generalizing afterCased with
  | nil => rfl
  | cons c rest ih =>
    have hne : c ≠ 'Σ' := fun hc => h.ne_sigma (by simp [hc])
    rw [lowerFrom, if_neg hne, h c (List.mem_cons_self ..), List.singleton_append,
      ih fun d hd => h d (List.mem_cons_of_mem c hd)]

/-- Which small letter a capital sigma becomes makes no difference to the length. -/
theorem length_lowerFrom (afterCased : Bool) (s : List Char) :
    (lowerFrom afterCased s).length = (lowerEach s).length := by
  induction s generalizing afterCased with
  | nil => rfl
  | cons c rest ih =>
    rw [lowerFrom, lowerEach, List.flatMap_cons, ← lowerEach, List.length_append,
      List.length_append, ih]
    split
    next hc =>
      have hsigma : lowerChar 'Σ' = ['σ'] := by decide +kernel
      rw [hc, hsigma]
      rfl
    next => rfl

/-! ### Cased letters stay cased -/

/-- The small forms of a character begin with one that is cased, and passed over, where the
    character is; what follows is passed over. -/
theorem small_eq_cons (c : Char) (sigma : Char) (hsigma : sigma = 'ς' ∨ sigma = 'σ') :
    ∃ d marks, (if c = 'Σ' then [sigma] else lowerChar c) = d :: marks ∧
      isCased d = isCased c ∧ isCaseIgnorable d = isCaseIgnorable c ∧
      ∀ mark ∈ marks, isCaseIgnorable mark = true := by
  by_cases hc : c = 'Σ'
  · subst hc
    rw [if_pos rfl]
    rcases hsigma with rfl | rfl <;> exact ⟨_, [], rfl, by decide +kernel, by decide +kernel, nofun⟩
  · rw [if_neg hc]
    rcases lowerChar_cases c with hsame | ⟨rfl, hdotted⟩ | ⟨d, hlower, hd⟩
    · exact ⟨c, [], hsame, rfl, rfl, nofun⟩
    · have hmark : isCaseIgnorable '\u0307' = true := by decide +kernel
      exact ⟨'i', ['\u0307'], hdotted, by decide +kernel, by decide +kernel, by simpa using hmark⟩
    · exact ⟨d, [], hlower, by rw [hd.cased.1, hd.cased.2], by rw [hd.visible.1, hd.visible.2],
        nofun⟩

theorem final_or_medial (b : Bool) :
    (if b then 'ς' else 'σ') = 'ς' ∨ (if b then 'ς' else 'σ') = 'σ' := by
  cases b with
  | true => exact .inl rfl
  | false => exact .inr rfl

theorem startsCased_cons (c : Char) (rest : List Char) :
    startsCased (c :: rest) = if isCaseIgnorable c then startsCased rest else isCased c := by
  rw [startsCased, List.dropWhile_cons]
  cases isCaseIgnorable c <;> rfl

theorem startsCased_append_of_ignorable {marks : List Char}
    (h : ∀ mark ∈ marks, isCaseIgnorable mark = true) (rest : List Char) :
    startsCased (marks ++ rest) = startsCased rest := by
  rw [startsCased, List.dropWhile_append_of_pos h, ← startsCased]

theorem startsCased_lowerFrom (afterCased : Bool) (s : List Char) :
    startsCased (lowerFrom afterCased s) = startsCased s := by
  induction s generalizing afterCased with
  | nil => rfl
  | cons c rest ih =>
    obtain ⟨d, marks, hsmall, hcased, hvisible, hmarks⟩ :=
      small_eq_cons c _ (final_or_medial (afterCased && !startsCased rest))
    rw [lowerFrom, hsmall, List.cons_append, startsCased_cons, startsCased_cons,
      startsCased_append_of_ignorable hmarks, ih, hcased, hvisible]

/-! ### A capital sigma at the seam -/

/-- Whether a cased letter is the last one that is not passed over, in a text that stands behind
    another. -/
def casedAfter (afterCased : Bool) (s : List Char) : Bool :=
  s.foldl (fun cased c => if isCaseIgnorable c then cased else isCased c) afterCased

theorem casedAfter_false (s : List Char) : casedAfter false s = startsCased s.reverse := by
  have hstarts : ∀ l : List Char, startsCased l =
      l.foldr (fun c cased => if isCaseIgnorable c then cased else isCased c) false := by
    intro l
    induction l with
    | nil => rfl
    | cons c rest ih => rw [startsCased_cons, ih, List.foldr_cons]
  rw [casedAfter, hstarts, List.foldr_reverse]

theorem startsCased_append_congr (s : List Char) {t t' : List Char}
    (h : startsCased t = startsCased t') : startsCased (s ++ t) = startsCased (s ++ t') := by
  induction s with
  | nil => exact h
  | cons c rest ih =>
    rw [List.cons_append, List.cons_append, startsCased_cons, startsCased_cons, ih]

/-- The small forms of a text that stands behind others, with `behind` to follow. -/
def lowerAmid (afterCased : Bool) (behind : List Char) : List Char → List Char
  | [] => []
  | c :: rest =>
    let small :=
      if c = 'Σ' then [if afterCased && !startsCased (rest ++ behind) then 'ς' else 'σ']
      else lowerChar c
    small ++ lowerAmid (if isCaseIgnorable c then afterCased else isCased c) behind rest

/-- A text in two parts is lowered part by part, each part knowing what stands around it. -/
theorem lowerFrom_append (afterCased : Bool) (s t : List Char) :
    lowerFrom afterCased (s ++ t) =
      lowerAmid afterCased t s ++ lowerFrom (casedAfter afterCased s) t := by
  induction s generalizing afterCased with
  | nil => rfl
  | cons c rest ih =>
    rw [List.cons_append, lowerFrom, lowerAmid, ih, List.append_assoc]
    rfl

theorem lowerAmid_nil (afterCased : Bool) (s : List Char) :
    lowerAmid afterCased [] s = lowerFrom afterCased s := by
  simpa [lowerFrom] using (lowerFrom_append afterCased s []).symm

theorem length_lowerAmid (afterCased : Bool) (behind s : List Char) :
    (lowerAmid afterCased behind s).length = (lowerEach s).length := by
  have hlength := congrArg List.length (lowerFrom_append afterCased s behind)
  have heach : lowerEach (s ++ behind) = lowerEach s ++ lowerEach behind := List.flatMap_append
  rw [List.length_append, length_lowerFrom, length_lowerFrom, heach, List.length_append] at hlength
  omega

/-- Only a capital sigma has another small form in another place: where it ends a word in one of the
    two and not in the other. -/
theorem lowerAmid_eq_iff {cased cased' : Bool} {behind behind' s : List Char} :
    lowerAmid cased behind s = lowerAmid cased' behind' s ↔
      ∀ before after, s = before ++ 'Σ' :: after →
        (casedAfter cased before && !startsCased (after ++ behind)) =
          (casedAfter cased' before && !startsCased (after ++ behind')) := by
  induction s generalizing cased cased' with
  | nil => simp [lowerAmid]
  | cons c rest ih =>
    rw [forall_split_cons, lowerAmid, lowerAmid]
    by_cases hc : c = 'Σ'
    · have hsigma : ∀ final final' : Bool,
          (if final then 'ς' else 'σ') = (if final' then 'ς' else 'σ') ↔ final = final' := by
        decide
      rw [if_pos hc, if_pos hc, List.singleton_append, List.singleton_append, List.cons.injEq,
        hsigma, ih, imp_iff_right hc]
      rfl
    · rw [if_neg hc, if_neg hc, List.append_cancel_left_eq, ih, and_iff_right (absurd · hc)]
      rfl

/-- How a text is lowered depends on what follows it only through the first letter. -/
theorem exists_lowerFrom_append (afterCased : Bool) (s t : List Char) :
    ∃ small, ∀ t', startsCased t' = startsCased t →
      lowerFrom afterCased (s ++ t') = small ++ lowerFrom (casedAfter afterCased s) t' := by
  refine ⟨lowerAmid afterCased t s, fun t' ht' => ?_⟩
  have hsame : lowerAmid afterCased t' s = lowerAmid afterCased t s := by
    rw [lowerAmid_eq_iff]
    intro before after _
    rw [startsCased_append_congr after ht']
  rw [lowerFrom_append, hsame]

/-- Whether the text begins, as far as letters go, with a capital sigma that ends a word. -/
def beginsWithFinalSigma (s : List Char) : Bool :=
  match s.dropWhile isCaseIgnorable with
  | [] => false
  | c :: rest => c == 'Σ' && !startsCased rest

theorem beginsWithFinalSigma_cons (c : Char) (rest : List Char) :
    beginsWithFinalSigma (c :: rest) =
      if isCaseIgnorable c then beginsWithFinalSigma rest else c == 'Σ' && !startsCased rest := by
  rw [beginsWithFinalSigma, List.dropWhile_cons]
  cases isCaseIgnorable c <;> rfl

/-- Behind a cased letter a text is lowered as on its own, unless a sigma at its beginning ends a
    word. -/
theorem lowerFrom_eq_lower_iff {afterCased : Bool} {s : List Char} :
    lowerFrom afterCased s = lower s ↔ ¬ (afterCased = true ∧ beginsWithFinalSigma s = true) := by
  cases afterCased with
  | false => simp [lower]
  | true =>
    rw [lower]
    -- Marks are passed over, and the first character that is none decides.
    induction s with
    | nil => simp [lowerFrom, beginsWithFinalSigma]
    | cons c rest ih =>
      rw [lowerFrom, lowerFrom, beginsWithFinalSigma_cons]
      by_cases hc : c = 'Σ'
      · subst hc
        have hvisible : isCaseIgnorable 'Σ' = false := by decide +kernel
        cases hstarts : startsCased rest with
        | false => simp [hvisible]
        | true => simp [hvisible]
      · rw [if_neg hc, if_neg hc]
        cases hignorable : isCaseIgnorable c with
        | false => simp [hc]
        | true => simpa using ih

/-! ### A capital sigma at the end of a word -/

/-- A capital sigma in the text ends a word: the letter in front of it is cased and the one behind
    it is not, or is missing.  Characters that are passed over do not count. -/
def EndsWordInSigma (s : List Char) : Prop :=
  ∃ before after, s = before ++ 'Σ' :: after ∧ startsCased before.reverse = true ∧
    startsCased after = false

theorem EndsWordInSigma.sigma_mem {s : List Char} (h : EndsWordInSigma s) : 'Σ' ∈ s := by
  obtain ⟨before, after, rfl, -⟩ := h
  exact List.mem_append_right before (List.mem_cons_self ..)

/-- Lowering as a whole and letter by letter agree exactly when no capital sigma ends a word. -/
theorem lowerFrom_eq_lowerEach_iff {afterCased : Bool} {s : List Char} :
    lowerFrom afterCased s = lowerEach s ↔ ∀ before after, s = before ++ 'Σ' :: after →
      casedAfter afterCased before = true → startsCased after = true := by
  have hsigma : lowerChar 'Σ' = ['σ'] := by decide +kernel
  -- The state before a character depends on all of the text in front, so it is left open.
  induction s generalizing afterCased with
  | nil => simp [lowerFrom, lowerEach]
  | cons c rest ih =>
    rw [forall_split_cons, lowerFrom, lowerEach, List.flatMap_cons, ← lowerEach]
    by_cases hc : c = 'Σ'
    · -- The first sigma differs when it ends a word, whatever becomes of the others.
      have hfirst : (if afterCased && !startsCased rest then 'ς' else 'σ') = 'σ' ↔
          (casedAfter afterCased [] = true → startsCased rest = true) := by
        rw [casedAfter, List.foldl_nil]
        cases afterCased <;> cases startsCased rest <;> decide
      have hsmall : lowerChar c = ['σ'] := by rw [hc, hsigma]
      rw [if_pos hc, hsmall, List.singleton_append, List.singleton_append, List.cons.injEq,
        imp_iff_right hc]
      exact and_congr hfirst ih
    · rw [if_neg hc, List.append_cancel_left_eq, and_iff_right (absurd · hc)]
      exact ih

/-- A text is lowered alike as a whole and letter by letter, unless a sigma ends a word in it. -/
theorem lower_eq_lowerEach_iff {s : List Char} : lower s = lowerEach s ↔ ¬ EndsWordInSigma s := by
  rw [lower, lowerFrom_eq_lowerEach_iff]
  simp only [EndsWordInSigma, casedAfter_false]
  grind

end RecordFilter.Text
