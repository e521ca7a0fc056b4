import FeatureMarkdown.Proofs.Document.InlineTexts
import FeatureMarkdown.Proofs.Markdown.Parts

namespace FeatureMarkdown

theorem singleLines_lines (t : Text) : SingleLines (Text.lines t) := by
  fun_induction Text.lines t with
  | case1 => exact .nil
  | case2 t ih => exact SingleLines.cons_iff.mpr ⟨by simp, ih⟩
  | case3 t ih => exact SingleLines.cons_iff.mpr ⟨by simp, ih⟩
  | case4 c t hfeed _ hlines ih =>
      have hc : '\n' ≠ c := fun heq => hfeed heq.symm
      simp [hc]
  | case5 c t hfeed _ line rest hlines ih =>
      have hc : '\n' ≠ c := fun heq => hfeed heq.symm
      obtain ⟨hline, hrest⟩ := SingleLines.cons_iff.mp (hlines ▸ ih)
      exact SingleLines.cons_iff.mpr ⟨by simp [hc, hline], hrest⟩

theorem singleLines_descriptionLines (description : Text) :
    SingleLines (descriptionLines description) := by
  intro trimmed htrimmed
  obtain ⟨line, hline, rfl⟩ := List.mem_map.mp htrimmed
  exact fun hmem => singleLines_lines _ line hline ((Text.trim_sublist line).subset hmem)

theorem singleLines_optionalDescriptionLines (description : Option Text) :
    SingleLines (optionalDescriptionLines description) := by
  cases description with
  | none => exact .nil
  | some text => exact singleLines_descriptionLines text

theorem singleLines_spaced {block : List Text} (h : SingleLines block) :
    SingleLines (spaced block) := by
  cases block with
  | nil => exact .nil
  | cons line rest => simpa [spaced] using h

theorem newline_notMem_join {gap : Text} (hgap : '\n' ∉ gap) {texts : List Text}
    (h : SingleLines texts) : '\n' ∉ Text.join gap texts := by
  unfold Text.join
  induction texts with
  | nil => simp
  | cons t rest ih =>
      obtain ⟨ht, hrest⟩ := SingleLines.cons_iff.mp h
      cases rest with
      | nil => simpa using ht
      | cons t' rest =>
          rw [List.intercalate_cons_cons]
          exact List.not_mem_append (List.not_mem_append ht hgap) (ih hrest)

theorem singleLines_tagLines {tags : List Tag} (h : SingleLines (tags.map Tag.name)) :
    SingleLines (tagLines tags) := by
  cases tags with
  | nil => exact .nil
  | cons tag rest =>
      have hgap : '\n' ∉ "`, `".toList := by decide
      have hjoin := newline_notMem_join hgap h
      have hmark : '\n' ∉ "`".toList := by decide
      exact SingleLines.cons_iff.mpr
        ⟨List.not_mem_append (List.not_mem_append hmark hjoin) hmark, .nil⟩

theorem newline_notMem_replaceChar {c : Char} {replacement t : Text} (h : '\n' ∉ replacement)
    (ht : '\n' ∉ t) : '\n' ∉ Text.replaceChar c replacement t := by
  intro hmem
  obtain ⟨d, hd, hmem⟩ := List.mem_flatMap.mp hmem
  split at hmem
  · exact h hmem
  · exact ht (List.mem_singleton.mp hmem ▸ hd)

theorem PlaceholderStyle.newline_notMem_apply (style : PlaceholderStyle) {t : Text}
    (ht : '\n' ∉ t) : '\n' ∉ style.apply t := by
  cases style with
  | code => exact newline_notMem_replaceChar (by decide) (newline_notMem_replaceChar (by decide) ht)
  | brackets =>
      exact newline_notMem_replaceChar (by decide) (newline_notMem_replaceChar (by decide) ht)

theorem newline_notMem_trim {t : Text} (h : '\n' ∉ t) : '\n' ∉ Text.trim t :=
  fun hmem => h ((Text.trim_sublist t).subset hmem)

variable {lines : List Text}

theorem Table.singleLines_optionalLines {style : TableStyle} {table : Option Table}
    (htable : SingleLines (table.toList.flatMap Table.inlineTexts))
    (h : optionalLines style table = .ok lines) : SingleLines lines := by
  rcases optionalLines_eq_ok h with ⟨-, rfl⟩ | ⟨t, rfl, hlines⟩
  · exact .nil
  · refine newline_notMem_lines (fun row hrow cell hcell => ?_) hlines
    exact htable cell (by simpa [Table.inlineTexts] using ⟨row, hrow, hcell⟩)

namespace Step

variable {step : Step} {style : PlaceholderStyle}

theorem newline_notMem_item {mark : Text} (hmark : '\n' ∉ mark)
    (h : SingleLines step.inlineTexts) :
    '\n' ∉ mark ++ Text.trim step.keyword ++ "_ ".toList ++ style.apply step.text := by
  simp only [inlineTexts, SingleLines.cons_iff] at h
  obtain ⟨hkeyword, htext, -⟩ := h
  have hfront := List.not_mem_append hmark (newline_notMem_trim hkeyword)
  have hmiddle : '\n' ∉ "_ ".toList := by decide
  exact List.not_mem_append (List.not_mem_append hfront hmiddle) (style.newline_notMem_apply htext)

theorem newline_notMem_listItem (h : SingleLines step.inlineTexts) :
    '\n' ∉ step.listItem style :=
  newline_notMem_item (by decide) h

theorem newline_notMem_quotedItem (h : SingleLines step.inlineTexts) :
    '\n' ∉ step.quotedItem style :=
  List.not_mem_append (newline_notMem_item (by decide) h) (by decide)

theorem singleLines_tableLines (h : SingleLines step.inlineTexts)
    (hlines : step.tableLines = .ok lines) : SingleLines lines := by
  simp only [inlineTexts, SingleLines.cons_iff] at h
  exact Table.singleLines_optionalLines h.2.2 hlines

theorem singleLines_scenarioLines (h : SingleLines step.inlineTexts)
    (hlines : step.scenarioLines style = .ok lines) : SingleLines lines := by
  obtain ⟨table, htable, rfl⟩ := scenarioLines_eq_ok hlines
  exact SingleLines.cons_iff.mpr ⟨newline_notMem_listItem h, singleLines_tableLines h htable⟩

theorem singleLines_backgroundLines (h : SingleLines step.inlineTexts)
    (hlines : step.backgroundLines style = .ok lines) : SingleLines lines := by
  obtain ⟨table, htable, rfl⟩ := backgroundLines_eq_ok hlines
  exact SingleLines.cons_iff.mpr ⟨newline_notMem_quotedItem h, singleLines_tableLines h htable⟩

end Step

theorem Examples.singleLines_lines {block : Examples} (h : SingleLines block.inlineTexts)
    (hlines : block.lines = .ok lines) : SingleLines lines := by
  obtain ⟨hkeyword, htable⟩ := SingleLines.cons_iff.mp h
  obtain ⟨table, hdrawn, rfl⟩ := lines_eq_ok hlines
  have hheading : '\n' ∉ block.heading :=
    List.not_mem_append (by decide) (newline_notMem_trim hkeyword)
  simpa [hheading] using Table.singleLines_optionalLines htable hdrawn

theorem singleLines_collectLines {α : Type} {f : α → Except RenderError (List Text)} {l : List α}
    (hf : ∀ a ∈ l, ∀ part, f a = .ok part → SingleLines part)
    (h : collectLines f l = .ok lines) : SingleLines lines := by
  obtain ⟨linesOf, hmembers, rfl⟩ := collectLines_eq_ok h
  exact SingleLines.flatMap_iff.mpr fun a ha => hf a ha _ (hmembers a ha)

variable {options : RenderOptions}

theorem Background.singleLines_lines {background : Background}
    (h : SingleLines background.inlineTexts) (hlines : background.lines options = .ok lines) :
    SingleLines lines := by
  refine singleLines_collectLines (fun step hstep part hpart => ?_) hlines
  exact Step.singleLines_backgroundLines (SingleLines.flatMap_iff.mp h step hstep) hpart

theorem Scenario.singleLines_lines {scenario : Scenario} (h : SingleLines scenario.inlineTexts)
    (hlines : scenario.lines options = .ok lines) : SingleLines lines := by
  simp only [inlineTexts, SingleLines.append_iff, SingleLines.cons_iff,
    SingleLines.flatMap_iff] at h
  obtain ⟨⟨⟨hname, htags⟩, hsteps⟩, hexamples⟩ := h
  obtain ⟨steps, examples, hdrawn, hdrawn', rfl⟩ := lines_eq_ok hlines
  have hheading : '\n' ∉ scenario.heading := List.not_mem_append (by decide) hname
  have hhead : SingleLines scenario.headLines := by
    simp [headLines, hheading, singleLines_spaced (singleLines_tagLines htags),
      singleLines_optionalDescriptionLines]
  have hstepLines : SingleLines steps := singleLines_collectLines
    (fun step hstep _ hpart => Step.singleLines_scenarioLines (hsteps step hstep) hpart) hdrawn
  have hexampleLines : SingleLines examples := singleLines_collectLines
    (fun block hblock _ hpart => Examples.singleLines_lines (hexamples block hblock) hpart) hdrawn'
  simp [hhead, hstepLines, hexampleLines]

theorem Child.singleLines_lines {child : Child} (h : SingleLines child.visibleInlineTexts)
    (hlines : child.lines options = .ok lines) : SingleLines lines := by
  cases child with
  | background b => exact Background.singleLines_lines h hlines
  | scenario s => exact Scenario.singleLines_lines h hlines
  | rule r =>
      obtain rfl : [] = lines := Except.ok.inj hlines
      exact .nil

theorem Feature.singleLines_lines {feature : Feature}
    (h : SingleLines feature.visibleInlineTexts) (hlines : feature.lines options = .ok lines) :
    SingleLines lines := by
  simp only [visibleInlineTexts, SingleLines.append_iff, SingleLines.cons_iff,
    SingleLines.flatMap_iff] at h
  obtain ⟨⟨hname, htags⟩, hchildren⟩ := h
  obtain ⟨children, hdrawn, rfl⟩ := lines_eq_ok hlines
  have hheading : '\n' ∉ "# Feature: ".toList ++ feature.name :=
    List.not_mem_append (by decide) hname
  have hhead : SingleLines feature.headLines := by
    simp only [headLines, SingleLines.append_iff, SingleLines.cons_iff]
    exact ⟨⟨⟨hheading, List.not_mem_nil, .nil⟩, singleLines_spaced (singleLines_tagLines htags)⟩,
      singleLines_spaced (singleLines_optionalDescriptionLines feature.description)⟩
  have hchildLines : SingleLines children := singleLines_collectLines
    (fun child hchild _ hpart => Child.singleLines_lines (hchildren child hchild) hpart) hdrawn
  simp [hhead, hchildLines]

end FeatureMarkdown
