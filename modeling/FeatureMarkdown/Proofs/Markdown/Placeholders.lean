import FeatureMarkdown.Proofs.Markdown.Assembly
import FeatureMarkdown.Proofs.Markdown.Endings
import FeatureMarkdown.Proofs.Markdown.Landmarks

namespace FeatureMarkdown

namespace Text

/-- The text has nothing that a placeholder style makes visible. -/
def BracketFree (t : Text) : Prop :=
  '<' ∉ t ∧ '>' ∉ t

instance (t : Text) : Decidable t.BracketFree :=
  inferInstanceAs (Decidable (_ ∧ _))

theorem bracketFree_iff {t : Text} : t.BracketFree ↔ ∀ c ∈ t, c ≠ '<' ∧ c ≠ '>' := by
  constructor
  · rintro ⟨hopen, hclose⟩ c hc
    exact ⟨fun h => hopen (h ▸ hc), fun h => hclose (h ▸ hc)⟩
  · intro h
    exact ⟨fun hmem => (h '<' hmem).1 rfl, fun hmem => (h '>' hmem).2 rfl⟩

/-- Two replacements are one that is made character by character, where the second one is already
carried out in what the first one puts in. -/
theorem replaceChar_replaceChar (c d : Char) (first second t : Text) :
    replaceChar d second (replaceChar c first t) =
      t.flatMap fun x => if x = c then replaceChar d second first else replaceChar d second [x] := by
  unfold replaceChar
  rw [List.flatMap_assoc]
  refine List.flatMap_congr fun x _ => ?_
  split <;> rfl

/-- The texts are the same exactly if `agreed` holds. If it does not, then they differ at a place
that both have, so that nothing behind them can make them the same. -/
structure AlikeIff (agreed : Prop) (first second : Text) : Prop where
  eq_iff : first = second ↔ agreed
  eq_of_prefix : first <+: second ∨ second <+: first → first = second

namespace AlikeIff

variable {α : Type} {agreed agreed' : Prop} {first second rest rest' : Text}

theorem refl (t : Text) : AlikeIff True t t :=
  ⟨by simp, fun _ => rfl⟩

theorem congr (h : AlikeIff agreed first second) (hiff : agreed ↔ agreed') :
    AlikeIff agreed' first second :=
  ⟨h.eq_iff.trans hiff, h.eq_of_prefix⟩

/-- A start of the one is a start of the other only if the fronts are the same. -/
theorem eq_of_append_prefix (h : AlikeIff agreed first second)
    (hstart : first ++ rest <+: second ++ rest') : first = second ∧ rest <+: rest' := by
  have hfirst : first <+: second ++ rest' := (List.prefix_append first rest).trans hstart
  have hsame : first = second :=
    h.eq_of_prefix (List.prefix_or_prefix_of_prefix hfirst (List.prefix_append second rest'))
  subst hsame
  exact ⟨rfl, (List.prefix_append_right_inj first).mp hstart⟩

theorem symm (h : AlikeIff agreed first second) : AlikeIff agreed second first :=
  ⟨eq_comm.trans h.eq_iff, fun hstart => (h.eq_of_prefix hstart.symm).symm⟩

theorem append (h : AlikeIff agreed first second) (h' : AlikeIff agreed' rest rest') :
    AlikeIff (agreed ∧ agreed') (first ++ rest) (second ++ rest') where
  eq_iff := by
    rw [← h.eq_iff, ← h'.eq_iff]
    constructor
    · intro hsame
      have hstart : first ++ rest <+: second ++ rest' := hsame ▸ List.prefix_refl _
      obtain ⟨rfl, -⟩ := h.eq_of_append_prefix hstart
      exact ⟨rfl, List.append_cancel_left hsame⟩
    · rintro ⟨rfl, rfl⟩
      rfl
  eq_of_prefix := by
    rintro (hstart | hstart)
    · obtain ⟨rfl, hrest⟩ := h.eq_of_append_prefix hstart
      rw [h'.eq_of_prefix (.inl hrest)]
    · obtain ⟨rfl, hrest⟩ := h.symm.eq_of_append_prefix hstart
      rw [h'.eq_of_prefix (.inr hrest)]

theorem between (h : AlikeIff agreed first second) (front back : Text) :
    AlikeIff agreed (front ++ first ++ back) (front ++ second ++ back) :=
  (((refl front).append h).append (refl back)).congr (by simp)

theorem flatMap {f g : α → Text} {agreed : α → Prop} {l : List α}
    (h : ∀ a ∈ l, AlikeIff (agreed a) (f a) (g a)) :
    AlikeIff (∀ a ∈ l, agreed a) (l.flatMap f) (l.flatMap g) := by
  induction l with
  | nil => exact (refl []).congr (by simp)
  | cons a rest ih =>
      have hrest := ih fun b hb => h b (List.mem_cons_of_mem a hb)
      exact ((h a List.mem_cons_self).append hrest).congr List.forall_mem_cons.symm

theorem endLines (h : AlikeIff agreed first second) (ending : LineEnding) (others : List Text) :
    AlikeIff agreed (ending.endLines (first :: others)) (ending.endLines (second :: others)) := by
  rw [LineEnding.endLines_cons, LineEnding.endLines_cons]
  exact (h.between [] ending.text).between [] (ending.endLines others)

end AlikeIff

end Text

namespace PlaceholderStyle

/-- What is written for one character of the text of a step. -/
def sign (style : PlaceholderStyle) (c : Char) : Text :=
  match style with
  | .code => if c = '<' then ['`', '<'] else if c = '>' then ['>', '`'] else [c]
  | .brackets => if c = '<' then ['['] else if c = '>' then [']'] else [c]

theorem apply_eq_flatMap_sign (style : PlaceholderStyle) (t : Text) :
    style.apply t = t.flatMap style.sign := by
  cases style with
  | code =>
      rw [apply, Text.replaceChar_replaceChar]
      exact List.flatMap_congr fun c _ => by simp [sign, Text.replaceChar]
  | brackets =>
      rw [apply, Text.replaceChar_replaceChar]
      exact List.flatMap_congr fun c _ => by simp [sign, Text.replaceChar]

/-- The styles are one, or the text gives them nothing to differ in. -/
def AgreeOn (first second : PlaceholderStyle) (t : Text) : Prop :=
  first = second ∨ t.BracketFree

theorem alikeIff_sign_code_brackets (c : Char) :
    Text.AlikeIff (c ≠ '<' ∧ c ≠ '>') (code.sign c) (brackets.sign c) := by
  by_cases hopen : c = '<'
  · subst hopen
    exact ⟨by decide, by decide⟩
  · by_cases hclose : c = '>'
    · subst hclose
      exact ⟨by decide, by decide⟩
    · simpa [sign, hopen, hclose] using Text.AlikeIff.refl [c]

theorem alikeIff_apply (first second : PlaceholderStyle) (t : Text) :
    Text.AlikeIff (first.AgreeOn second t) (first.apply t) (second.apply t) := by
  have hcross : Text.AlikeIff t.BracketFree (code.apply t) (brackets.apply t) := by
    rw [apply_eq_flatMap_sign, apply_eq_flatMap_sign, Text.bracketFree_iff]
    exact Text.AlikeIff.flatMap fun c _ => alikeIff_sign_code_brackets c
  cases first <;> cases second
  · exact (Text.AlikeIff.refl _).congr (by simp [AgreeOn])
  · exact hcross.congr (by simp [AgreeOn])
  · exact hcross.symm.congr (by simp [AgreeOn])
  · exact (Text.AlikeIff.refl _).congr (by simp [AgreeOn])

end PlaceholderStyle

/-- The outcomes are the same error, or texts that are the same exactly if `agreed` holds. -/
inductive RendersAlikeIff (agreed : Prop) :
    Except RenderError Text → Except RenderError Text → Prop where
  | error (e : RenderError) : RendersAlikeIff agreed (.error e) (.error e)
  | ok {first second : Text} (texts : Text.AlikeIff agreed first second) :
      RendersAlikeIff agreed (.ok first) (.ok second)

namespace RendersAlikeIff

variable {α : Type} {agreed agreed' : Prop} {first second rest rest' : Except RenderError Text}

theorem refl (outcome : Except RenderError Text) : RendersAlikeIff True outcome outcome := by
  cases outcome with
  | error e => exact .error e
  | ok text => exact .ok (.refl text)

theorem congr (h : RendersAlikeIff agreed first second) (hiff : agreed ↔ agreed') :
    RendersAlikeIff agreed' first second := by
  cases h with
  | error e => exact .error e
  | ok texts => exact .ok (texts.congr hiff)

theorem eq_iff (h : RendersAlikeIff agreed first second) :
    first = second ↔ (∃ e, first = .error e) ∨ agreed := by
  cases h with
  | error e => simp
  | ok texts => simp [texts.eq_iff]

theorem concat_cons {others others' : List (Except RenderError Text)}
    (h : RendersAlikeIff agreed first second)
    (h' : RendersAlikeIff agreed' (concat others) (concat others')) :
    RendersAlikeIff (agreed ∧ agreed') (concat (first :: others)) (concat (second :: others')) := by
  cases h with
  | error e => exact .error e
  | ok texts =>
      rw [concat, concat]
      generalize concat others = rest, concat others' = rest' at h'
      cases h' with
      | error e => exact .error e
      | ok texts' => exact .ok (texts.append texts')

theorem concat_append {others others' parts parts' : List (Except RenderError Text)}
    (h : RendersAlikeIff agreed (concat parts) (concat parts'))
    (h' : RendersAlikeIff agreed' (concat others) (concat others')) :
    RendersAlikeIff (agreed ∧ agreed') (concat (parts ++ others)) (concat (parts' ++ others')) := by
  rw [FeatureMarkdown.concat_append, FeatureMarkdown.concat_append parts']
  exact h.concat_cons (by simpa [concat_singleton] using h')

theorem concat_map {f g : α → Except RenderError Text} {agreed : α → Prop} {l : List α}
    (h : ∀ a ∈ l, RendersAlikeIff (agreed a) (f a) (g a)) :
    RendersAlikeIff (∀ a ∈ l, agreed a) (concat (l.map f)) (concat (l.map g)) := by
  induction l with
  | nil => exact (refl (.ok [])).congr (by simp)
  | cons a rest ih =>
      have hrest := ih fun b hb => h b (List.mem_cons_of_mem a hb)
      exact ((h a List.mem_cons_self).concat_cons hrest).congr List.forall_mem_cons.symm

end RendersAlikeIff

theorem Child.scenario?_eq_some_iff {child : Child} {scenario : Scenario} :
    child.scenario? = some scenario ↔ child = .scenario scenario := by
  cases child <;> simp [scenario?]

theorem Child.background?_eq_some_iff {child : Child} {background : Background} :
    child.background? = some background ↔ child = .background background := by
  cases child <;> simp [background?]

theorem Feature.mem_scenarios_iff {feature : Feature} {scenario : Scenario} :
    scenario ∈ feature.scenarios ↔ .scenario scenario ∈ feature.children := by
  simp [scenarios, Child.scenario?_eq_some_iff]

theorem Feature.mem_backgrounds_iff {feature : Feature} {background : Background} :
    background ∈ feature.backgrounds ↔ .background background ∈ feature.children := by
  simp [backgrounds, Child.background?_eq_some_iff]

namespace RenderOptions

variable {first second : RenderOptions}

theorem finish_congr (hending : first.lineEnding = second.lineEnding)
    (outcome : Except RenderError (List Text)) : first.finish outcome = second.finish outcome := by
  cases outcome with
  | error e => rfl
  | ok lines => rw [finish, finish, hending]

theorem alike_renderStep (hending : first.lineEnding = second.lineEnding) (step : Step) :
    RendersAlikeIff
      (first.scenarioPlaceholders.AgreeOn second.scenarioPlaceholders step.text)
      (first.renderStep step) (second.renderStep step) := by
  have htext := PlaceholderStyle.alikeIff_apply first.scenarioPlaceholders
    second.scenarioPlaceholders step.text
  unfold renderStep Step.scenarioLines
  cases step.tableLines with
  | error e => exact .error e
  | ok table =>
      have hitem := htext.between ("- _".toList ++ Text.trim step.keyword ++ "_ ".toList) []
      rw [List.append_nil, List.append_nil] at hitem
      rw [finish_congr hending]
      exact .ok (hitem.endLines second.lineEnding table)

theorem alike_renderBackgroundStep (hending : first.lineEnding = second.lineEnding) (step : Step) :
    RendersAlikeIff
      (first.backgroundPlaceholders.AgreeOn second.backgroundPlaceholders step.text)
      (first.renderBackgroundStep step) (second.renderBackgroundStep step) := by
  have htext := PlaceholderStyle.alikeIff_apply first.backgroundPlaceholders
    second.backgroundPlaceholders step.text
  unfold renderBackgroundStep Step.backgroundLines
  cases step.tableLines with
  | error e => exact .error e
  | ok table =>
      have hitem := htext.between (">_".toList ++ Text.trim step.keyword ++ "_ ".toList)
        "  ".toList
      rw [finish_congr hending]
      exact .ok (hitem.endLines second.lineEnding table)

theorem alike_renderBackground (hending : first.lineEnding = second.lineEnding)
    (background : Background) :
    RendersAlikeIff
      (∀ step ∈ background.steps,
        first.backgroundPlaceholders.AgreeOn second.backgroundPlaceholders step.text)
      (first.renderBackground background) (second.renderBackground background) := by
  rw [renderBackground_eq_concat, renderBackground_eq_concat]
  exact .concat_map fun step _ => alike_renderBackgroundStep hending step

theorem alike_renderScenario (hending : first.lineEnding = second.lineEnding)
    (scenario : Scenario) :
    RendersAlikeIff
      (∀ step ∈ scenario.steps,
        first.scenarioPlaceholders.AgreeOn second.scenarioPlaceholders step.text)
      (first.renderScenario scenario) (second.renderScenario scenario) := by
  have hsteps : RendersAlikeIff _ (concat (scenario.steps.map first.renderStep))
      (concat (scenario.steps.map second.renderStep)) :=
    .concat_map fun step _ => alike_renderStep hending step
  have hexamples : first.renderExamples scenario.examples =
      second.renderExamples scenario.examples := finish_congr hending _
  rw [renderScenario_eq_concat, renderScenario_eq_concat, hending, hexamples]
  exact (((RendersAlikeIff.refl _).concat_cons hsteps).concat_append (.refl _)).congr (by simp)

/-- What the two choices of styles agree on in a child: rules have no part in it. -/
def AgreeOnChild (first second : RenderOptions) : Child → Prop
  | .background b => ∀ step ∈ b.steps,
      first.backgroundPlaceholders.AgreeOn second.backgroundPlaceholders step.text
  | .scenario s => ∀ step ∈ s.steps,
      first.scenarioPlaceholders.AgreeOn second.scenarioPlaceholders step.text
  | .rule _ => True

theorem alike_renderDocument (hending : first.lineEnding = second.lineEnding)
    (document : Document) :
    RendersAlikeIff (∀ child ∈ document.feature.children, first.AgreeOnChild second child)
      (first.renderDocument document) (second.renderDocument document) := by
  have hchildren : RendersAlikeIff (∀ child ∈ document.feature.children,
      first.AgreeOnChild second child) (concat (document.feature.children.map first.renderChild))
      (concat (document.feature.children.map second.renderChild)) := by
    refine .concat_map fun child _ => ?_
    cases child with
    | background b => exact alike_renderBackground hending b
    | scenario s => exact alike_renderScenario hending s
    | rule r => exact .refl _
  rw [renderDocument, renderDocument, renderFeature_eq_concat, renderFeature_eq_concat, hending]
  exact ((RendersAlikeIff.refl _).concat_cons hchildren).congr (by simp)

/-- The children agree if each kind of step has one style for both or no angle bracket. -/
theorem agreeOnChildren_iff (feature : Feature) :
    (∀ child ∈ feature.children, first.AgreeOnChild second child) ↔
      (first.scenarioPlaceholders = second.scenarioPlaceholders ∨
        ∀ scenario ∈ feature.scenarios, ∀ step ∈ scenario.steps, step.text.BracketFree) ∧
      (first.backgroundPlaceholders = second.backgroundPlaceholders ∨
        ∀ background ∈ feature.backgrounds, ∀ step ∈ background.steps, step.text.BracketFree) := by
  simp only [← forall_or_left, Feature.mem_scenarios_iff, Feature.mem_backgrounds_iff]
  constructor
  · intro h
    exact ⟨fun scenario hmem => h _ hmem, fun background hmem => h _ hmem⟩
  · rintro ⟨hscenarios, hbackgrounds⟩ child hmem
    cases child with
    | background b => exact hbackgrounds b hmem
    | scenario s => exact hscenarios s hmem
    | rule r => exact True.intro

/-- With one line ending, two choices of styles make the same of a document exactly if it cannot be
rendered, or for either kind of step the styles are one or no text of such a step has an angle
bracket. No other text of the document has a part in that. -/
theorem renderDocument_eq_iff_placeholders_agree (hending : first.lineEnding = second.lineEnding)
    (document : Document) :
    first.renderDocument document = second.renderDocument document ↔
      (∃ e, first.renderDocument document = .error e) ∨
      (first.scenarioPlaceholders = second.scenarioPlaceholders ∨
        ∀ scenario ∈ document.feature.scenarios, ∀ step ∈ scenario.steps,
          step.text.BracketFree) ∧
      (first.backgroundPlaceholders = second.backgroundPlaceholders ∨
        ∀ background ∈ document.feature.backgrounds, ∀ step ∈ background.steps,
          step.text.BracketFree) := by
  rw [(alike_renderDocument hending document).eq_iff, agreeOnChildren_iff]

/-- The styles for scenarios are not the same, and angle brackets stand everywhere but in the text
of a scenario's step. One there is enough to tell the renderings apart. -/
theorem renderDocument_eq_iff_placeholders_agree_among_brackets :
    let first : RenderOptions := { scenarioPlaceholders := .code }
    let second : RenderOptions := { scenarioPlaceholders := .brackets }
    let table : Table := ⟨[["<a>".toList], ["<".toList]]⟩
    let step (text : Text) : Step := ⟨"<Given> ".toList, text, some table⟩
    let scenario (text : Text) : Scenario :=
      ⟨"<s>".toList, some "<d>".toList, [⟨"<t>".toList⟩], [step text],
        [⟨"<Examples>".toList, some table⟩]⟩
    let rule : Rule := ⟨"<r>".toList, none, [], none, [scenario "<x>".toList]⟩
    let document (text : Text) : Document := ⟨⟨"<f>".toList, none, [],
      [.background ⟨[step "<y>".toList]⟩, .scenario (scenario text), .rule rule]⟩⟩
    first.lineEnding = second.lineEnding ∧
      (∃ markdown, first.renderDocument (document "x".toList) = .ok markdown) ∧
      first.renderDocument (document "x".toList) =
        second.renderDocument (document "x".toList) ∧
      first.renderDocument (document "x>".toList) ≠
        second.renderDocument (document "x>".toList) := by
  intro first second table step scenario rule document
  have hending : first.lineEnding = second.lineEnding := rfl
  have hiff (text : Text) := renderDocument_eq_iff_placeholders_agree hending (document text)
  refine ⟨hending, ⟨_, rfl⟩, (hiff _).mpr (.inr ⟨.inr ?_, .inl rfl⟩), fun hsame => ?_⟩
  · decide
  · rcases (hiff "x>".toList).mp hsame with ⟨e, he⟩ | ⟨hscenarios, -⟩
    · obtain ⟨markdown, hok⟩ : ∃ markdown, first.renderDocument (document "x>".toList) =
          .ok markdown := ⟨_, rfl⟩
      rw [hok] at he
      contradiction
    · exact absurd hscenarios (by decide)

end RenderOptions

end FeatureMarkdown
