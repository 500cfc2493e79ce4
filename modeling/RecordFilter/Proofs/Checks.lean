import Mathlib.Data.List.Induction
import RecordFilter.Check
import RecordFilter.Proofs.Export
import RecordFilter.Proofs.Sessions
/-!
# What a check lists

A check adds its filters to a session one after the other, each on top of those before it.  Still the
order is of no account: the check succeeds when every text is a filter on its own
(`exists_addAll_iff`), and what the session selects is what passes all of them (`select_addAll`).
What is listed in the place of directories depends on the selected records only, so filters given in
another order list the same records (`run_perm`).
-/

namespace RecordFilter

open RecordFilter.Filter

variable {schema : Schema} {texts : List String} {session : Session}

/-- Whether properties pass the filter that a text writes on its own. -/
def Filter.textAccepts (schema : Schema) (properties : Properties) (text : String) : Bool :=
  (Filter.ofText schema text none).toOption.any (·.accepts properties)

/-! ### Sessions that hold some texts -/

namespace Session

/-- Every text that a session holds is a filter on its own. -/
theorem Holds.exists_filter (h : Holds schema session texts) :
    ∀ text ∈ texts, ∃ f, Filter.ofText schema text none = .ok f := by
  obtain ⟨filters, htexts, -⟩ := h
  intro text htext
  have hmem := List.mem_map_of_mem (f := (Filter.ofText schema · none)) htext
  rw [htexts] at hmem
  obtain ⟨f, -, hf⟩ := List.mem_map.mp hmem
  exact ⟨f, hf.symm⟩

/-- A session accepts what passes each of its texts on its own. -/
theorem Holds.accepts_eq (h : Holds schema session texts) (properties : Properties) :
    session.accepts properties = texts.all (textAccepts schema properties) := by
  obtain ⟨filters, htexts, hactive⟩ := h
  have halone : texts.map (textAccepts schema properties) =
      filters.map (·.accepts properties) := by
    calc texts.map (textAccepts schema properties)
        = (texts.map (Filter.ofText schema · none)).map
            (fun result => result.toOption.any (·.accepts properties)) := by
          rw [List.map_map]
          rfl
      _ = filters.map (·.accepts properties) := by
          rw [htexts, List.map_map]
          rfl
  -- All filters accept what the whole accepts, and each text does what its filter does.
  calc session.accepts properties
      = filters.all (·.accepts properties) := by
        rw [accepts, hactive]
        cases hwhole : narrowAll filters with
        | none => simp [narrowAll_eq_none_iff.mp hwhole]
        | some whole => exact accepts_narrowAll hwhole properties
    _ = (texts.map (textAccepts schema properties)).all id := by
        rw [halone, List.all_map]
        rfl
    _ = texts.all (textAccepts schema properties) := by
        rw [List.all_map]
        rfl

/-- Adding a filter narrows what is active by the filter compiled on its own. -/
theorem add_eq_ok_iff {text : String} {next : Session} :
    session.add schema text = .ok next ↔
      ∃ f, Filter.ofText schema text none = .ok f ∧
        next = ⟨some (session.active.elim f (·.narrow f))⟩ := by
  obtain ⟨active⟩ := session
  rw [Session.add, bind_eq_ok_iff]
  cases active with
  | none =>
    simp only [pure_eq_ok_iff]
    constructor
    · rintro ⟨f, hf, rfl⟩
      exact ⟨f, hf, rfl⟩
    · rintro ⟨f, hf, rfl⟩
      exact ⟨f, hf, rfl⟩
  | some earlier =>
    -- The filter is compiled on its own and then narrows the one that was there.
    simp only [ofText_some, pure_eq_ok_iff]
    cases Filter.ofText schema text none with
    | error error => simp [Except.map]
    | ok f => simp [Except.map, eq_comm]

theorem Holds.add {text : String} {next : Session} (h : Holds schema session texts)
    (hadd : session.add schema text = .ok next) : Holds schema next (texts ++ [text]) := by
  obtain ⟨filters, htexts, hactive⟩ := h
  obtain ⟨f, hf, rfl⟩ := add_eq_ok_iff.mp hadd
  refine ⟨filters ++ [f], by simp [htexts, hf], ?_⟩
  rw [narrowAll_append_singleton, ← hactive]
  cases session.active <;> rfl

end Session

namespace Check

/-! ### Filters added one after the other -/

theorem addAll_append_singleton (schema : Schema) (texts : List String) (text : String) :
    addAll schema (texts ++ [text]) =
      addAll schema texts >>= fun session => session.add schema text := by
  simp [addAll, List.foldlM_append]

/-- A session holds the conjunction of all the texts that were added to it. -/
theorem holds_of_addAll (h : addAll schema texts = .ok session) :
    Session.Holds schema session texts := by
  induction texts using List.reverseRecOn generalizing session with
  | nil =>
    cases h
    exact Session.holds_empty
  | append_singleton texts text ih =>
    rw [addAll_append_singleton, bind_eq_ok_iff] at h
    obtain ⟨earlier, hearlier, hadd⟩ := h
    exact (ih hearlier).add hadd

/-- Filters can be added one after the other when each of them is one on its own. -/
theorem exists_addAll_iff : (∃ session, addAll schema texts = .ok session) ↔
    ∀ text ∈ texts, ∃ f, Filter.ofText schema text none = .ok f := by
  constructor
  · rintro ⟨session, hsession⟩
    exact (holds_of_addAll hsession).exists_filter
  · intro hfilters
    induction texts using List.reverseRecOn with
    | nil => exact ⟨.empty, rfl⟩
    | append_singleton texts text ih =>
      obtain ⟨earlier, hearlier⟩ := ih fun text htext => hfilters text (by simp [htext])
      obtain ⟨f, hf⟩ := hfilters text (by simp)
      obtain ⟨next, hnext⟩ : ∃ next, earlier.add schema text = .ok next :=
        ⟨_, Session.add_eq_ok_iff.mpr ⟨f, hf, rfl⟩⟩
      rw [addAll_append_singleton]
      exact ⟨next, bind_eq_ok_iff.mpr ⟨earlier, hearlier, hnext⟩⟩

/-- What is selected passes every filter on its own. -/
theorem select_addAll (h : addAll schema texts = .ok session) (records : List Record) :
    session.select records =
      records.filter fun r => texts.all (textAccepts schema r.property) := by
  rw [Session.select]
  exact List.filter_congr fun r _ => (holds_of_addAll h).accepts_eq r.property

/-! ### Checks -/

/-- A check that is not only compiled lists what the session of its filters selects, or what the
    directories among it hold. -/
theorem run_eq_ok_iff {filters : List String} {input : Option String} {explain : Bool}
    {result : CheckResult} :
    run ⟨filters, input, false, explain⟩ = .ok result ↔
      ∃ text records session, input = some text ∧ Record.load text = .ok records ∧
        addAll (Schema.infer records) filters = .ok session ∧
        result = .matches (filterText session explain)
          (contentsOfDirectories records (session.select records)) := by
  rw [run]
  cases input with
  | none => simp
  | some text =>
    cases hload : Record.load text with
    | error error => simp [hload]
    | ok records =>
      cases hadd : addAll (Schema.infer records) filters with
      | error error => simp [hload, runOn, hadd]
      | ok session => simp [hload, runOn, hadd, listed, eq_comm]

/-- A check succeeds when its records can be loaded and its filters are filters each on its own. -/
theorem exists_run_iff {filters : List String} {input : Option String} {explain : Bool} :
    (∃ result, run ⟨filters, input, false, explain⟩ = .ok result) ↔
      ∃ text records, input = some text ∧ Record.load text = .ok records ∧
        ∀ text ∈ filters, ∃ f, Filter.ofText (Schema.infer records) text none = .ok f := by
  constructor
  · rintro ⟨result, hresult⟩
    obtain ⟨text, records, session, htext, hload, hsession, -⟩ := run_eq_ok_iff.mp hresult
    exact ⟨text, records, htext, hload, exists_addAll_iff.mp ⟨session, hsession⟩⟩
  · rintro ⟨text, records, htext, hload, hfilters⟩
    obtain ⟨session, hsession⟩ := exists_addAll_iff.mpr hfilters
    exact ⟨_, run_eq_ok_iff.mpr ⟨text, records, session, htext, hload, hsession, rfl⟩⟩

/-- **The order of filters is of no account.**  Of two checks with the same filters in different
    orders, one succeeds when the other does, and they list the same records.  The records selected,
    before directories give way to their contents, are those that pass every filter on its own. -/
theorem run_perm (input : Option String) (explain explain' : Bool) {filters filters' : List String}
    (h : filters.Perm filters') :
    ((∃ result, run ⟨filters, input, false, explain⟩ = .ok result) ↔
      ∃ result, run ⟨filters', input, false, explain'⟩ = .ok result) ∧
    (∀ result result', run ⟨filters, input, false, explain⟩ = .ok result →
      run ⟨filters', input, false, explain'⟩ = .ok result' →
        ∃ shown shown' records, result = .matches shown records ∧
          result' = .matches shown' records) ∧
    ∀ result, run ⟨filters, input, false, explain⟩ = .ok result →
      ∃ text records session, input = some text ∧ Record.load text = .ok records ∧
        addAll (Schema.infer records) filters = .ok session ∧
        result = .matches (filterText session explain)
          (contentsOfDirectories records (session.select records)) ∧
        (∀ text ∈ filters, ∃ f, Filter.ofText (Schema.infer records) text none = .ok f) ∧
        session.select records = records.filter fun r =>
          filters.all (textAccepts (Schema.infer records) r.property) := by
  refine ⟨?_, ?_, ?_⟩
  · rw [exists_run_iff, exists_run_iff]
    simp only [h.mem_iff]
  · intro result result' hresult hresult'
    obtain ⟨text, records, session, rfl, hload, hsession, rfl⟩ := run_eq_ok_iff.mp hresult
    obtain ⟨text', records', session', htext, hload', hsession', rfl⟩ := run_eq_ok_iff.mp hresult'
    obtain rfl := Option.some.inj htext
    rw [hload] at hload'
    obtain rfl := Except.ok.inj hload'
    -- The order of the filters shows in nothing but the text of the whole filter.
    have hselect : session.select records = session'.select records := by
      rw [select_addAll hsession, select_addAll hsession']
      exact List.filter_congr fun r _ => h.all_eq
    rw [hselect]
    exact ⟨_, _, _, rfl, rfl⟩
  · intro result hresult
    obtain ⟨text, records, session, htext, hload, hsession, hlisted⟩ := run_eq_ok_iff.mp hresult
    exact ⟨text, records, session, htext, hload, hsession, hlisted,
      exists_addAll_iff.mp ⟨session, hsession⟩, select_addAll hsession records⟩

/-- A hidden folder with a file in it. -/
def folderText : String :=
  "[\x7b\"id\":\"d\",\"hidden\":true,\"length\":1\x7d,\x7b\"id\":\"f\",\"parent\":\"d\"\x7d]"

/-- Only the folder passes both filters, so the file is listed, whichever filter comes first. -/
theorem run_hiddenFolder : ["hidden", "length < 2"].Perm ["length < 2", "hidden"] ∧
    run ⟨["hidden", "length < 2"], some folderText, false, false⟩ =
      .ok (.matches "(\"hidden\" && (\"length\" < 2))" [Record.ofId "f" (some "d")]) ∧
    ∃ shown, run ⟨["length < 2", "hidden"], some folderText, false, false⟩ =
      .ok (.matches shown [Record.ofId "f" (some "d")]) := by
  have hperm : ["hidden", "length < 2"].Perm ["length < 2", "hidden"] := .swap ..
  have hfirst : run ⟨["hidden", "length < 2"], some folderText, false, false⟩ =
      .ok (.matches "(\"hidden\" && (\"length\" < 2))" [Record.ofId "f" (some "d")]) := by
    decide +kernel
  obtain ⟨hsucceeds, hsame, -⟩ := run_perm (some folderText) false false hperm
  obtain ⟨result, hresult⟩ := hsucceeds.mp ⟨_, hfirst⟩
  obtain ⟨shown, shown', records, hlisted, rfl⟩ := hsame _ _ hfirst hresult
  obtain ⟨rfl, rfl⟩ := CheckResult.matches.inj hlisted
  exact ⟨hperm, hfirst, shown', hresult⟩

end Check

end RecordFilter
