import RecordFilter.Proofs.Conjunction
/-!
# What a session holds

A session keeps one filter, in which all filters that were added are merged: their conditions, their
labels and their columns.  Seen from outside it is a list of texts.  `activeTexts` keeps this list
beside a run of the session, and `run_activeTexts` says that nothing else can be seen: the texts,
each compiled on its own, determine what the session accepts, needs and shows.

The invariant is `Holds`: the active filter is the first of the filters, narrowed by the others one
after the other (`Filter.narrowAll`).  A step can break it in no way, since whether a text is a
filter does not depend on the filter that is active (`step_fault`).
-/

namespace RecordFilter

open RecordFilter.Filter

variable {schema : Schema}

/-! ### Filters narrowed one after the other -/

namespace Filter

/-- The first filter, narrowed by the others one after the other. -/
def narrowAll : List Filter → Option Filter
  | [] => none
  | first :: rest => some (rest.foldl narrow first)

/-- How filters with these texts are shown once each is added to the ones before it. -/
def conjunctionText : List String → Option String
  | [] => none
  | first :: rest =>
    some (rest.foldl (fun shown text => "(" ++ shown ++ " && " ++ text ++ ")") first)

theorem conjunctionText_append_singleton {texts : List String} {shown : String}
    (h : conjunctionText texts = some shown) (last : String) :
    conjunctionText (texts ++ [last]) = some ("(" ++ shown ++ " && " ++ last ++ ")") := by
  cases texts with
  | nil => cases h
  | cons first rest =>
    obtain rfl := Option.some.inj h
    simp [conjunctionText]

theorem narrowAll_append_singleton (filters : List Filter) (last : Filter) :
    narrowAll (filters ++ [last]) =
      some (match narrowAll filters with
        | some earlier => earlier.narrow last
        | none => last) := by
  cases filters with
  | nil => rfl
  | cons first rest => simp [narrowAll]

@[simp] theorem accepts_narrow (previous next : Filter) (properties : Properties) :
    (previous.narrow next).accepts properties =
      (previous.accepts properties && next.accepts properties) := by
  rfl

@[simp] theorem text_narrow (previous next : Filter) :
    (previous.narrow next).text = "(" ++ previous.text ++ " && " ++ next.text ++ ")" := by
  simp [narrow, text, Label.text, Operator.symbol, Connective.symbol, String.append_assoc]

theorem narrowAll_eq_none_iff {filters : List Filter} :
    narrowAll filters = none ↔ filters = [] := by
  cases filters <;> simp [narrowAll]

/-- Filters that narrow one another accept what all of them accept. -/
theorem accepts_narrowAll {filters : List Filter} {whole : Filter}
    (h : narrowAll filters = some whole) (properties : Properties) :
    whole.accepts properties = filters.all (·.accepts properties) := by
  induction filters using List.reverseRecOn generalizing whole with
  | nil => cases h
  | append_singleton filters last ih =>
    rw [narrowAll_append_singleton] at h
    obtain rfl := Option.some.inj h
    cases hearlier : narrowAll filters with
    | none => simp [narrowAll_eq_none_iff.mp hearlier]
    | some earlier => simp [ih hearlier]

/-- Filters that narrow one another print the conjunction of their texts. -/
theorem text_narrowAll (filters : List Filter) :
    (narrowAll filters).map text = conjunctionText (filters.map text) := by
  induction filters using List.reverseRecOn with
  | nil => rfl
  | append_singleton filters last ih =>
    rw [narrowAll_append_singleton, List.map_append, List.map_singleton]
    cases hearlier : narrowAll filters with
    | none => simp [narrowAll_eq_none_iff.mp hearlier, conjunctionText]
    | some earlier =>
      rw [hearlier] at ih
      rw [conjunctionText_append_singleton ih.symm, Option.map_some, text_narrow]

/-- The columns of filters that each name a column once are merged in their order. -/
theorem columns_narrowAll {filters : List Filter} {whole : Filter}
    (h : narrowAll filters = some whole) (honce : ∀ f ∈ filters, f.columns = f.columns.eraseDups) :
    whole.columns = (filters.flatMap Filter.columns).eraseDups := by
  -- Filters were added one by one, so the last one is split off.
  induction filters using List.reverseRecOn generalizing whole with
  | nil => cases h
  | append_singleton filters last ih =>
    rw [narrowAll_append_singleton] at h
    obtain rfl := Option.some.inj h
    cases hearlier : narrowAll filters with
    | none => simpa [narrowAll_eq_none_iff.mp hearlier] using honce last (by simp)
    | some earlier =>
      have hcolumns := ih hearlier fun f hf => honce f (by simp [hf])
      calc (earlier.narrow last).columns
          = mergeColumns (mergeColumns [] (filters.flatMap Filter.columns)) last.columns := by
            rw [narrow, hcolumns, nil_mergeColumns]
        _ = mergeColumns [] ((filters ++ [last]).flatMap Filter.columns) := by
            rw [← mergeColumns_append, List.flatMap_append, List.flatMap_singleton]
        _ = _ := nil_mergeColumns _

theorem columns_eq_eraseDups {text : String} {f : Filter}
    (h : Filter.ofText schema text none = .ok f) : f.columns = f.columns.eraseDups := by
  obtain ⟨e, -, hcompile⟩ := ofText_eq_ok_iff.mp h
  have hcolumns := (Expr.compileAlone_eq_ok (Expr.compile_none_eq_ok_iff.mp hcompile)).1
  rw [hcolumns]
  simp only [← nil_mergeColumns]
  exact (mergeColumns_assoc [] [] e.columns).symm

/-- What an earlier filter changes about the filter of a text: it is narrowed, and whether the text
    is a filter stays as it is. -/
theorem ofText_some (text : String) (earlier : Filter) :
    Filter.ofText schema text (some earlier) =
      (Filter.ofText schema text none).map earlier.narrow := by
  unfold Filter.ofText
  cases Expr.ofCommand schema (Command.ofText text) with
  | error error => rfl
  | ok e =>
    cases halone : e.compileAlone schema with
    | error error => simp [Expr.compile, halone, bind, Except.bind, Except.map]
    | ok f => simp [Expr.compile, halone, bind, Except.bind, pure, Except.pure, Except.map]

end Filter

namespace Session

variable {s : Session} {texts : List String}

/-! ### One step -/

/-- What is wrong with a step, which the session plays no part in. -/
def Step.fault (schema : Schema) : Step → Option FilterError
  | apply text | add text =>
    match Filter.ofText schema text none with
    | .ok _ => none
    | .error error => some error
  | clear => none

theorem step_apply (s : Session) (text : String) :
    s.step schema (.apply text) =
      match Filter.ofText schema text none with
      | .ok f => (⟨some f⟩, none)
      | .error error => (s, some error) := by
  cases h : Filter.ofText schema text none with
  | error error => simp [step, apply, h, bind, Except.bind]
  | ok f => simp [step, apply, h, bind, Except.bind, pure, Except.pure]

theorem step_add (s : Session) (text : String) :
    s.step schema (.add text) =
      match Filter.ofText schema text none with
      | .ok f =>
        (⟨some (match s.active with
          | some earlier => earlier.narrow f
          | none => f)⟩, none)
      | .error error => (s, some error) := by
  obtain ⟨active⟩ := s
  cases h : Filter.ofText schema text none with
  | error error =>
    cases active with
    | none => simp [step, add, h, bind, Except.bind]
    | some earlier => simp [step, add, ofText_some, h, bind, Except.bind, Except.map]
  | ok f =>
    cases active with
    | none => simp [step, add, h, bind, Except.bind, pure, Except.pure]
    | some earlier =>
      simp [step, add, ofText_some, h, bind, Except.bind, pure, Except.pure, Except.map]

/-- Whether a step fails, and with which error, is a matter of its text and the schema. -/
theorem step_fault (s : Session) (step : Step) : (s.step schema step).2 = step.fault schema := by
  cases step with
  | apply text =>
    rw [step_apply, Step.fault]
    cases Filter.ofText schema text none <;> rfl
  | add text =>
    rw [step_add, Step.fault]
    cases Filter.ofText schema text none <;> rfl
  | clear => rfl

theorem step_of_fault {step : Step} (h : step.fault schema ≠ none) (s : Session) :
    (s.step schema step).1 = s := by
  cases step with
  | apply text =>
    rw [Step.fault] at h
    rw [step_apply]
    cases hfilter : Filter.ofText schema text none with
    | error error => rfl
    | ok f => simp [hfilter] at h
  | add text =>
    rw [Step.fault] at h
    rw [step_add]
    cases hfilter : Filter.ofText schema text none with
    | error error => rfl
    | ok f => simp [hfilter] at h
  | clear => exact absurd rfl h

/-! ### Active texts -/

/-- The active texts after a step that succeeds. -/
def Step.textsAfter : Step → List String → List String
  | apply text, _ => [text]
  | add text, texts => texts ++ [text]
  | clear, _ => []

/-- A session and its active texts after a step, which changes nothing when it fails. -/
def track (schema : Schema) (state : Session × List String) (step : Step) :
    Session × List String :=
  let (next, fault) := state.1.step schema step
  (next, if fault.isNone then step.textsAfter state.2 else state.2)

def run (schema : Schema) (steps : List Step) : Session :=
  steps.foldl (fun s step => (s.step schema step).1) empty

/-- The texts that are active after steps from the beginning. -/
def activeTexts (schema : Schema) (steps : List Step) : List String :=
  (steps.foldl (track schema) (empty, [])).2

/-- The texts are filters, and the active filter is the first of them, narrowed by the others. -/
def Holds (schema : Schema) (s : Session) (texts : List String) : Prop :=
  ∃ filters, texts.map (Filter.ofText schema · none) = filters.map .ok ∧
    s.active = narrowAll filters

theorem holds_empty : Holds schema empty [] := ⟨[], rfl, rfl⟩

/-- One step keeps the session the conjunction of the texts tracked for it. -/
theorem Holds.track (h : Holds schema s texts) (step : Step) :
    Holds schema (track schema (s, texts) step).1 (track schema (s, texts) step).2 := by
  obtain ⟨filters, htexts, hactive⟩ := h
  -- A step that fails keeps filters and texts; the others change both in the same way.
  cases step with
  | apply text =>
    simp only [Session.track, step_apply]
    cases hfilter : Filter.ofText schema text none with
    | error error => exact ⟨filters, htexts, hactive⟩
    | ok f => exact ⟨[f], by simp [Step.textsAfter, hfilter], rfl⟩
  | add text =>
    simp only [Session.track, step_add]
    cases hfilter : Filter.ofText schema text none with
    | error error => exact ⟨filters, htexts, hactive⟩
    | ok f =>
      refine ⟨filters ++ [f], by simp [Step.textsAfter, htexts, hfilter], ?_⟩
      rw [narrowAll_append_singleton, hactive]
  | clear => exact holds_empty

theorem fst_foldl_track (steps : List Step) (s : Session) (texts : List String) :
    (steps.foldl (track schema) (s, texts)).1 =
      steps.foldl (fun s step => (s.step schema step).1) s := by
  induction steps generalizing s texts with
  | nil => rfl
  | cons step rest ih => exact ih _ _

/-- A whole run leaves the session the conjunction of the texts tracked for it. -/
theorem holds_run (schema : Schema) (steps : List Step) :
    Holds schema (run schema steps) (activeTexts schema steps) := by
  have hfold : ∀ state : Session × List String, Holds schema state.1 state.2 →
      Holds schema (steps.foldl (track schema) state).1 (steps.foldl (track schema) state).2 := by
    induction steps with
    | nil => exact fun _ h => h
    | cons step rest ih => exact fun state h => ih _ (h.track step)
  rw [run, activeTexts, ← fst_foldl_track steps empty []]
  exact hfold (empty, []) holds_empty

/-! ### What can be seen of a session -/

/-- **A session is its active texts.**  Every active text is a filter of its own.  The session
    accepts what all these filters accept, needs their columns, each once and in their order, and
    shows their conjunction, one added after the other.  A step fails because of its text alone, and
    a step that fails leaves the session as it is. -/
theorem run_activeTexts (schema : Schema) (steps : List Step) :
    ∃ filters : List Filter,
      (activeTexts schema steps).map (Filter.ofText schema · none) = filters.map .ok ∧
      (∀ properties, (run schema steps).accepts properties =
        filters.all fun f => f.accepts properties) ∧
      (run schema steps).isFiltered = !(activeTexts schema steps).isEmpty ∧
      (run schema steps).columns? =
        (if filters.isEmpty then none else some (filters.flatMap Filter.columns).eraseDups) ∧
      (run schema steps).shown? = conjunctionText (filters.map Filter.text) ∧
      ∀ step : Step, ((run schema steps).step schema step).2 = step.fault schema ∧
        (step.fault schema ≠ none → ((run schema steps).step schema step).1 = run schema steps) := by
  -- After the run the session is the conjunction of the filters of the texts tracked with it.
  obtain ⟨filters, htexts, hactive⟩ := holds_run schema steps
  have honce : ∀ f ∈ filters, f.columns = f.columns.eraseDups := by
    intro f hf
    have hmem : Except.ok f ∈ (activeTexts schema steps).map (Filter.ofText schema · none) := by
      rw [htexts]
      exact List.mem_map_of_mem hf
    obtain ⟨text, -, htext⟩ := List.mem_map.mp hmem
    exact columns_eq_eraseDups htext
  have hempty : (activeTexts schema steps).isEmpty = filters.isEmpty := by
    have hlength := congrArg List.length htexts
    simp only [List.length_map] at hlength
    rw [Bool.eq_iff_iff, List.isEmpty_iff_length_eq_zero, List.isEmpty_iff_length_eq_zero, hlength]
  refine ⟨filters, htexts, fun properties => ?_, ?_, ?_, ?_, fun step =>
    ⟨step_fault _ step, fun hfault => step_of_fault hfault _⟩⟩
  · rw [accepts, hactive]
    cases hwhole : narrowAll filters with
    | none => simp [narrowAll_eq_none_iff.mp hwhole]
    | some whole => exact accepts_narrowAll hwhole properties
  · rw [isFiltered, hactive, hempty]
    cases filters <;> rfl
  · rw [columns?, hactive]
    cases hwhole : narrowAll filters with
    | none => simp [narrowAll_eq_none_iff.mp hwhole]
    | some whole =>
      have hne : filters ≠ [] := by
        rintro rfl
        cases hwhole
      simp [hne, columns_narrowAll hwhole honce]
  · rw [shown?, hactive, text_narrowAll]

end Session

end RecordFilter
