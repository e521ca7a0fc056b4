import FeatureMarkdown.Markdown.Render

namespace FeatureMarkdown

variable {α β : Type}

/-- The parts one after the other, or the error of the first that has one. -/
def concat : List (Except RenderError (List β)) → Except RenderError (List β)
  | [] => .ok []
  | .error e :: _ => .error e
  | .ok part :: rest => (concat rest).map (part ++ ·)

theorem concat_map_ok (parts : List (List β)) :
    concat (parts.map Except.ok) = .ok parts.flatten := by
  induction parts with
  | nil => rfl
  | cons part rest ih => simp [concat, ih, Except.map]

theorem concat_map_ok_append_error (parts : List (List β)) (e : RenderError)
    (rest : List (Except RenderError (List β))) :
    concat (parts.map Except.ok ++ .error e :: rest) = .error e := by
  induction parts with
  | nil => rfl
  | cons part others ih => simp [concat, ih, Except.map]

theorem concat_append (first second : List (Except RenderError (List β))) :
    concat (first ++ second) = concat [concat first, concat second] := by
  induction first with
  | nil => cases h : concat second <;> simp [concat, Except.map, h]
  | cons part rest ih =>
      cases part with
      | error e => rfl
      | ok text =>
          rw [List.cons_append, concat, ih]
          cases hrest : concat rest <;> cases hsecond : concat second <;>
            simp [concat, Except.map, hrest]

theorem concat_singleton (part : Except RenderError (List β)) : concat [part] = part := by
  cases part <;> simp [concat, Except.map]

theorem collectLines_eq_concat (f : α → Except RenderError (List Text)) (l : List α) :
    collectLines f l = concat (l.map f) := by
  induction l with
  | nil => rfl
  | cons a rest ih =>
      rw [collectLines, List.map_cons]
      cases f a with
      | error e => rfl
      | ok first =>
          rw [concat, ← ih]
          cases collectLines f rest <;> rfl

/-- `whole` is all of the parts in order, or the error of the first part that has one. -/
structure Assembles (parts : List (Except RenderError Text)) (whole : Except RenderError Text) :
    Prop where
  ok_of_all_ok : ∀ texts : List Text, parts = texts.map Except.ok → whole = .ok texts.flatten
  error_of_first_error : ∀ (texts : List Text) e rest,
    parts = texts.map Except.ok ++ .error e :: rest → whole = .error e

theorem assembles_concat (parts : List (Except RenderError Text)) :
    Assembles parts (concat parts) where
  ok_of_all_ok := by
    rintro texts rfl
    exact concat_map_ok texts
  error_of_first_error := by
    rintro texts e rest rfl
    exact concat_map_ok_append_error texts e rest

namespace Background

theorem lines_eq_concat (background : Background) (options : RenderOptions) :
    background.lines options =
      concat (background.steps.map
        (Step.backgroundLines options.backgroundPlaceholders)) :=
  collectLines_eq_concat _ _

end Background

namespace Scenario

theorem lines_eq_concat (scenario : Scenario) (options : RenderOptions) :
    scenario.lines options =
      concat (.ok scenario.headLines ::
        scenario.steps.map (Step.scenarioLines options.scenarioPlaceholders) ++
          [.ok [[]], collectLines Examples.lines scenario.examples]) := by
  rw [lines, collectLines_eq_concat, List.cons_append, concat, concat_append]
  cases concat (scenario.steps.map (Step.scenarioLines options.scenarioPlaceholders)) <;>
    cases collectLines Examples.lines scenario.examples <;> simp [concat, Except.map]

end Scenario

namespace Feature

theorem lines_eq_concat (feature : Feature) (options : RenderOptions) :
    feature.lines options =
      concat (.ok feature.headLines :: feature.children.map (Child.lines options)) := by
  rw [lines, collectLines_eq_concat, concat]
  cases concat (feature.children.map (Child.lines options)) <;> rfl

end Feature

namespace RenderOptions

variable (options : RenderOptions)

/-- Ending lines and putting parts together may be done in either order. -/
theorem finish_concat (parts : List (Except RenderError (List Text))) :
    options.finish (concat parts) = concat (parts.map options.finish) := by
  induction parts with
  | nil => rfl
  | cons part rest ih =>
      cases part with
      | error e => rfl
      | ok lines =>
          rw [List.map_cons, finish, concat, concat, ← ih]
          cases concat rest <;> simp [finish, Except.map]

/-- What a child adds to the Markdown of its feature: a rule adds nothing. -/
def renderChild : Child → Except RenderError Text
  | .background b => options.renderBackground b
  | .scenario s => options.renderScenario s
  | .rule _ => .ok []

theorem finish_childLines (child : Child) :
    options.finish (child.lines options) = options.renderChild child := by
  cases child <;> rfl

theorem renderFeature_eq_concat (feature : Feature) :
    options.renderFeature feature =
      concat (.ok (options.lineEnding.endLines feature.headLines) ::
        feature.children.map options.renderChild) := by
  rw [renderFeature, Feature.lines_eq_concat, finish_concat, List.map_cons, List.map_map]
  congr 2
  exact List.map_congr_left fun child _ => options.finish_childLines child

theorem renderScenario_eq_concat (scenario : Scenario) :
    options.renderScenario scenario =
      concat (.ok (options.lineEnding.endLines scenario.headLines) ::
        scenario.steps.map options.renderStep ++
          [.ok options.lineEnding.text, options.renderExamples scenario.examples]) := by
  have hblank : options.lineEnding.endLines [[]] = options.lineEnding.text := by
    simp [LineEnding.endLines]
  rw [renderScenario, Scenario.lines_eq_concat, finish_concat, ← hblank, List.map_append,
    List.map_cons, List.map_map]
  rfl

theorem renderBackground_eq_concat (background : Background) :
    options.renderBackground background =
      concat (background.steps.map options.renderBackgroundStep) := by
  rw [renderBackground, Background.lines_eq_concat, finish_concat, List.map_map]
  rfl

theorem renderExamples_eq_concat (blocks : List Examples) :
    options.renderExamples blocks =
      concat (blocks.map fun block => options.renderExamples [block]) := by
  have hone (block : Examples) :
      options.finish (Examples.lines block) = options.renderExamples [block] := by
    rw [renderExamples, collectLines_eq_concat, List.map_singleton, concat_singleton]
  rw [renderExamples, collectLines_eq_concat, finish_concat, List.map_map]
  exact congrArg concat (List.map_congr_left fun block _ => hone block)

end RenderOptions

/-- Features, scenarios, backgrounds and lists of examples are assembled from what their parts
render to. What a feature or a scenario begins with is what it renders to without its parts; a
scenario has a blank line between its steps and its examples. -/
theorem render_is_compositional (options : RenderOptions) :
    (∀ feature : Feature, ∃ head,
      options.renderFeature { feature with children := [] } = .ok head ∧
      Assembles (.ok head :: feature.children.map options.renderChild)
        (options.renderFeature feature)) ∧
    (∀ scenario : Scenario, ∃ head,
      options.renderScenario { scenario with steps := [], examples := [] } =
        .ok (head ++ options.lineEnding.text) ∧
      Assembles (.ok head :: scenario.steps.map options.renderStep ++
          [.ok options.lineEnding.text, options.renderExamples scenario.examples])
        (options.renderScenario scenario)) ∧
    (∀ background : Background,
      Assembles (background.steps.map options.renderBackgroundStep)
        (options.renderBackground background)) ∧
    ∀ blocks : List Examples,
      Assembles (blocks.map fun block => options.renderExamples [block])
        (options.renderExamples blocks) := by
  refine ⟨fun feature => ?_, fun scenario => ?_, fun background => ?_, fun blocks => ?_⟩
  · refine ⟨options.lineEnding.endLines feature.headLines, ?_, ?_⟩
    · have hhead : Feature.headLines { feature with children := [] } = feature.headLines := rfl
      rw [options.renderFeature_eq_concat, hhead, List.map_nil, concat_singleton]
    · rw [options.renderFeature_eq_concat feature]
      exact assembles_concat _
  · refine ⟨options.lineEnding.endLines scenario.headLines, ?_, ?_⟩
    · have hhead : Scenario.headLines { scenario with steps := [], examples := [] } =
          scenario.headLines := rfl
      have hexamples : options.renderExamples [] = .ok [] := rfl
      rw [options.renderScenario_eq_concat, hhead, hexamples]
      simp [concat, Except.map]
    · rw [options.renderScenario_eq_concat scenario]
      exact assembles_concat _
  · rw [options.renderBackground_eq_concat background]
    exact assembles_concat _
  · rw [options.renderExamples_eq_concat blocks]
    exact assembles_concat _

end FeatureMarkdown
