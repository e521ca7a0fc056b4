import FeatureMarkdown.Proofs.Markdown.SingleLines

namespace FeatureMarkdown

namespace Text

variable {c : Char} {replacement : Text}

theorem replaceChar_append (first second : Text) :
    replaceChar c replacement (first ++ second) =
      replaceChar c replacement first ++ replaceChar c replacement second :=
  List.flatMap_append

theorem replaceChar_of_notMem {t : Text} (h : c ∉ t) : replaceChar c replacement t = t := by
  induction t with
  | nil => rfl
  | cons d t ih =>
      have hd : d ≠ c := fun heq => h (heq ▸ List.mem_cons_self)
      have hrest := ih fun hmem => h (List.mem_cons_of_mem d hmem)
      unfold replaceChar at hrest ⊢
      rw [List.flatMap_cons, hrest, if_neg hd]
      rfl

end Text

/-- Of lines that hold no line feed only the ends are replaced. -/
theorem LineEnding.endLines_crlf {lines : List Text} (h : SingleLines lines) :
    LineEnding.crlf.endLines lines =
      Text.replaceChar '\n' ['\r', '\n'] (LineEnding.lf.endLines lines) := by
  induction lines with
  | nil => rfl
  | cons line rest ih =>
      obtain ⟨hline, hrest⟩ := SingleLines.cons_iff.mp h
      rw [endLines_cons, endLines_cons, Text.replaceChar_append, Text.replaceChar_append,
        Text.replaceChar_of_notMem hline, ih hrest]
      rfl

/-- The lines of a feature have nothing to do with how they will be ended. -/
theorem Feature.lines_withLineEnding (feature : Feature) (options : RenderOptions)
    (ending : LineEnding) :
    feature.lines { options with lineEnding := ending } = feature.lines options := by
  have hchild : Child.lines { options with lineEnding := ending } = Child.lines options := by
    funext child
    cases child <;> rfl
  rw [Feature.lines, hchild]
  rfl

/-- If no inline text that is shown holds a line feed, then a document renders with carriage returns
exactly if it does without, with the same error if not, and its line feeds are then those that have
got a carriage return before them. -/
theorem renderDocument_crlf (options : RenderOptions) {document : Document}
    (h : SingleLines document.feature.visibleInlineTexts) :
    RenderOptions.renderDocument { options with lineEnding := .crlf } document =
      (RenderOptions.renderDocument { options with lineEnding := .lf } document).map
        (Text.replaceChar '\n' ['\r', '\n']) := by
  simp only [RenderOptions.renderDocument, RenderOptions.renderFeature,
    Feature.lines_withLineEnding]
  cases hlines : document.feature.lines options with
  | error e => rfl
  | ok lines =>
      have hending := LineEnding.endLines_crlf (Feature.singleLines_lines h hlines)
      exact congrArg Except.ok hending

/-- Line ends of all kinds in a description, and carriage returns in other texts. -/
theorem renderDocument_crlf_of_mixed_description :
    let document : Document := ⟨"F\r".toList, some "a\r\nb\n\rc\rd".toList, [],
      [.rule ⟨"\n".toList, none, [], none, []⟩,
        .background ⟨[⟨"Given ".toList, "x\r".toList, none⟩]⟩]⟩
    let lf : RenderOptions := { lineEnding := .lf }
    let crlf : RenderOptions := { lineEnding := .crlf }
    SingleLines document.feature.visibleInlineTexts ∧
      lf.renderDocument document = .ok "# Feature: F\r\n\na\nb\nc\rd\n\n>_Given_ x\r  \n".toList ∧
      crlf.renderDocument document =
        .ok "# Feature: F\r\r\n\r\na\r\nb\r\nc\rd\r\n\r\n>_Given_ x\r  \r\n".toList := by
  intro document lf crlf
  have hlines : SingleLines document.feature.visibleInlineTexts := by decide
  have hlf : lf.renderDocument document =
      .ok "# Feature: F\r\n\na\nb\nc\rd\n\n>_Given_ x\r  \n".toList := by
    decide +kernel
  have hcrlf : crlf.renderDocument document =
      (lf.renderDocument document).map (Text.replaceChar '\n' ['\r', '\n']) :=
    renderDocument_crlf lf hlines
  refine ⟨hlines, hlf, ?_⟩
  rw [hcrlf, hlf]
  decide +kernel

end FeatureMarkdown
