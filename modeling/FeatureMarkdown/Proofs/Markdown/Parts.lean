import FeatureMarkdown.Proofs.Markdown.TableText

namespace FeatureMarkdown

variable {α : Type} {lines : List Text}

/-- If all members have lines, then these are the lines of the members in order. -/
theorem collectLines_eq_ok {f : α → Except RenderError (List Text)} {l : List α}
    (h : collectLines f l = .ok lines) :
    ∃ linesOf : α → List Text, (∀ a ∈ l, f a = .ok (linesOf a)) ∧ lines = l.flatMap linesOf := by
  refine ⟨fun a => (f a).toOption.getD [], ?_⟩
  induction l generalizing lines with
  | nil =>
      obtain rfl : [] = lines := Except.ok.inj h
      simp
  | cons a rest ih =>
      rw [collectLines] at h
      cases ha : f a with
      | error e => simp [ha] at h
      | ok first =>
          cases hrest : collectLines f rest with
          | error e => simp [ha, hrest] at h
          | ok others =>
              obtain ⟨hmembers, rfl⟩ := ih hrest
              obtain rfl : first ++ _ = lines := by simpa [ha, hrest] using h
              refine ⟨fun b hb => ?_, by simp [ha, Except.toOption]⟩
              rcases List.mem_cons.mp hb with rfl | hb
              · simp [ha, Except.toOption]
              · exact hmembers b hb

/-- Members without lines can be left out. -/
theorem collectLines_filter {f : α → Except RenderError (List Text)} {keep : α → Bool}
    (hf : ∀ a, keep a = false → f a = .ok []) (l : List α) :
    collectLines f (l.filter keep) = collectLines f l := by
  induction l with
  | nil => rfl
  | cons a rest ih =>
      cases ha : keep a with
      | true => rw [List.filter_cons_of_pos ha, collectLines, collectLines, ih]
      | false =>
          rw [List.filter_cons_of_neg (by simp [ha]), ih, collectLines, hf a ha]
          cases collectLines f rest <;> rfl

theorem Table.optionalLines_eq_ok {style : TableStyle} {table : Option Table}
    (h : optionalLines style table = .ok lines) :
    (table = none ∧ lines = []) ∨ ∃ t, table = some t ∧ t.lines style = .ok lines := by
  cases table with
  | none => exact .inl ⟨rfl, (Except.ok.inj h).symm⟩
  | some t => exact .inr ⟨t, rfl, h⟩

namespace Step

variable {step : Step} {style : PlaceholderStyle}

theorem scenarioLines_eq_ok (h : step.scenarioLines style = .ok lines) :
    ∃ table, step.tableLines = .ok table ∧ lines = step.listItem style :: table := by
  unfold scenarioLines at h
  split at h
  · contradiction
  · rename_i table htable
    exact ⟨table, htable, (Except.ok.inj h).symm⟩

theorem backgroundLines_eq_ok (h : step.backgroundLines style = .ok lines) :
    ∃ table, step.tableLines = .ok table ∧ lines = step.quotedItem style :: table := by
  unfold backgroundLines at h
  split at h
  · contradiction
  · rename_i table htable
    exact ⟨table, htable, (Except.ok.inj h).symm⟩

end Step

theorem Examples.lines_eq_ok {block : Examples} (h : block.lines = .ok lines) :
    ∃ table, Table.optionalLines .examples block.table = .ok table ∧
      lines = [['>'], block.heading, ['>']] ++ table := by
  unfold Examples.lines at h
  split at h
  · contradiction
  · rename_i table htable
    exact ⟨table, htable, (Except.ok.inj h).symm⟩

variable {options : RenderOptions}

theorem Scenario.lines_eq_ok {scenario : Scenario} (h : scenario.lines options = .ok lines) :
    ∃ steps examples,
      collectLines (Step.scenarioLines options.scenarioPlaceholders) scenario.steps = .ok steps ∧
      collectLines Examples.lines scenario.examples = .ok examples ∧
      lines = scenario.headLines ++ steps ++ [[]] ++ examples := by
  unfold Scenario.lines at h
  split at h
  · contradiction
  · rename_i steps hsteps
    split at h
    · contradiction
    · rename_i examples hexamples
      exact ⟨steps, examples, hsteps, hexamples, (Except.ok.inj h).symm⟩

theorem Feature.lines_eq_ok {feature : Feature} (h : feature.lines options = .ok lines) :
    ∃ children, collectLines (Child.lines options) feature.children = .ok children ∧
      lines = feature.headLines ++ children := by
  unfold Feature.lines at h
  split at h
  · contradiction
  · rename_i children hchildren
    exact ⟨children, hchildren, (Except.ok.inj h).symm⟩

theorem RenderOptions.finish_eq_ok {outcome : Except RenderError (List Text)} {text : Text}
    (h : options.finish outcome = .ok text) :
    ∃ lines, outcome = .ok lines ∧ text = options.lineEnding.endLines lines := by
  cases outcome with
  | error e => contradiction
  | ok lines => exact ⟨lines, rfl, (Except.ok.inj h).symm⟩

end FeatureMarkdown
