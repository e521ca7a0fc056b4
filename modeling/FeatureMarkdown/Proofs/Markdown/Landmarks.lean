import FeatureMarkdown.Proofs.Markdown.SingleLines

/-!
What a reader of the Markdown finds a feature by: the headings of its scenarios and their examples,
and its steps. Each of these lines begins with a mark, and no other line of a rendering begins with
one, unless a description does.
-/

namespace FeatureMarkdown

inductive Landmark where
  | scenario
  /-- A step of a scenario. -/
  | listItem
  /-- A step of a background. -/
  | quotedItem
  | examples
deriving DecidableEq, Inhabited

namespace Landmark

def mark : Landmark → Text
  | .scenario => "### Scenario: ".toList
  | .listItem => "- _".toList
  | .quotedItem => ">_".toList
  | .examples => ">### ".toList

def all : List Landmark :=
  [.scenario, .listItem, .quotedItem, .examples]

theorem mem_all (kind : Landmark) : kind ∈ all := by
  cases kind <;> decide

/-- The lines that begin with the mark, in order. -/
def among (kind : Landmark) (lines : List Text) : List Text :=
  lines.filter (kind.mark <+: ·)

/-- The first two characters of a mark tell it from all others. -/
def start : Landmark → Text
  | .scenario => ['#', '#']
  | .listItem => ['-', ' ']
  | .quotedItem => ['>', '_']
  | .examples => ['>', '#']

theorem start_prefix_mark (kind : Landmark) : kind.start <+: kind.mark := by
  cases kind <;> decide

theorem start_injective : Function.Injective start := by
  intro kind other h
  cases kind <;> cases other <;> first | rfl | contradiction

variable {kind other : Landmark} {line : Text}

theorem take_two_of_begins (h : kind.mark <+: line) : line.take 2 = kind.start := by
  have hstart := List.prefix_iff_eq_take.mp ((start_prefix_mark kind).trans h)
  have hlength : kind.start.length = 2 := by cases kind <;> rfl
  rw [hstart, hlength]

theorem eq_of_begins (h : kind.mark <+: line) (h' : other.mark <+: line) : kind = other :=
  start_injective ((take_two_of_begins h).symm.trans (take_two_of_begins h'))

end Landmark

def IsLandmark (line : Text) : Prop :=
  ∃ kind ∈ Landmark.all, kind.mark <+: line

instance : DecidablePred IsLandmark :=
  fun line => inferInstanceAs (Decidable (∃ kind ∈ Landmark.all, kind.mark <+: line))

/-- The line begins with none of the characters that marks begin with. -/
def PlainLine (line : Text) : Prop :=
  line.head? ∉ [some '#', some '-', some '>']

instance : DecidablePred PlainLine :=
  fun line => inferInstanceAs (Decidable (line.head? ∉ [some '#', some '-', some '>']))

/-- No line of the description, trimmed, looks like a heading, an item of a list or a quote. -/
def PlainDescription (description : Option Text) : Prop :=
  ∀ line ∈ optionalDescriptionLines description, PlainLine line

instance : DecidablePred PlainDescription :=
  fun description =>
    inferInstanceAs (Decidable (∀ line ∈ optionalDescriptionLines description, PlainLine line))

theorem Landmark.isLandmark_of_begins {kind : Landmark} {line : Text}
    (h : kind.mark <+: line) : IsLandmark line :=
  ⟨kind, kind.mem_all, h⟩

theorem PlainLine.not_isLandmark {line : Text} (h : PlainLine line) : ¬ IsLandmark line := by
  rintro ⟨kind, -, hmark⟩
  have hstart := Landmark.take_two_of_begins hmark
  have hhead : kind.start.head? ∈ [some '#', some '-', some '>'] := by cases kind <;> decide
  rw [← hstart, List.head?_take, if_neg (by decide)] at hhead
  exact h hhead

theorem not_isLandmark_of_start {c d : Char} (h : ∀ kind ∈ Landmark.all, kind.start ≠ [c, d])
    (t : Text) : ¬ IsLandmark (c :: d :: t) :=
  fun ⟨kind, hkind, hmark⟩ => h kind hkind (Landmark.take_two_of_begins hmark).symm

theorem not_isLandmark_featureHeading (name : Text) :
    ¬ IsLandmark ("# Feature: ".toList ++ name) :=
  not_isLandmark_of_start (c := '#') (d := ' ') (by decide) ("Feature: ".toList ++ name)

namespace ColumnWidths

theorem formatRow_eq_bar_cons (columns : ColumnWidths) (row : List Text) :
    ∃ t, columns.formatRow row = '|' :: t := by
  obtain ⟨widths⟩ := columns
  cases row with
  | nil => exact ⟨_, rfl⟩
  | cons cell row =>
      cases widths with
      | nil => exact ⟨_, rfl⟩
      | cons width widths => exact ⟨_, formatRow_cons width widths cell row⟩

theorem formatSeparator_eq_bar_cons (columns : ColumnWidths) (style : TableStyle) :
    ∃ t, columns.formatSeparator style.separatorEnd = '|' :: t := by
  obtain ⟨widths⟩ := columns
  cases widths with
  | nil => cases style <;> exact ⟨_, rfl⟩
  | cons width widths => exact ⟨_, formatSeparator_cons width widths _⟩

end ColumnWidths

namespace Table

variable {table : Table} {style : TableStyle} {lines : List Text}

/-- A bar follows the margin of a table. -/
theorem not_isLandmark_margin (t : Text) : ¬ IsLandmark (style.margin ++ '|' :: t) := by
  cases style with
  | stepArgument => exact not_isLandmark_of_start (by decide) _
  | examples => exact not_isLandmark_of_start (by decide) _

theorem not_isLandmark_of_mem_lines (h : table.lines style = .ok lines) :
    ∀ line ∈ lines, ¬ IsLandmark line := by
  obtain ⟨header, body, columns, -, -, rfl⟩ := lines_eq_ok h
  have hrow (row : List Text) : ¬ IsLandmark (style.margin ++ columns.formatRow row) := by
    obtain ⟨t, ht⟩ := columns.formatRow_eq_bar_cons row
    exact ht ▸ not_isLandmark_margin t
  have hseparator :
      ¬ IsLandmark (style.margin ++ columns.formatSeparator style.separatorEnd) := by
    obtain ⟨t, ht⟩ := columns.formatSeparator_eq_bar_cons style
    exact ht ▸ not_isLandmark_margin t
  have hopening : ∀ line ∈ style.opening, ¬ IsLandmark line := by cases style <;> decide
  intro line hline
  simp only [List.mem_append, List.mem_cons, List.mem_map, List.not_mem_nil, or_false] at hline
  rcases hline with hline | rfl | rfl | ⟨row, -, rfl⟩ | rfl
  · exact hopening line hline
  · exact hrow header
  · exact hseparator
  · exact hrow row
  · decide

theorem filter_optionalLines {table : Option Table} (h : optionalLines style table = .ok lines) :
    lines.filter IsLandmark = [] := by
  rcases optionalLines_eq_ok h with ⟨-, rfl⟩ | ⟨t, -, hlines⟩
  · rfl
  · simpa using not_isLandmark_of_mem_lines hlines

end Table

theorem PlainDescription.filter_lines {description : Option Text}
    (h : PlainDescription description) :
    (optionalDescriptionLines description).filter IsLandmark = [] := by
  simpa using fun line hline => (h line hline).not_isLandmark

theorem filter_tagLines (tags : List Tag) : (tagLines tags).filter IsLandmark = [] := by
  cases tags with
  | nil => rfl
  | cons tag rest =>
      have hplain (t : Text) : PlainLine ("`".toList ++ t) := by
        unfold PlainLine
        rw [List.head?_append_of_ne_nil _ (by decide)]
        decide
      obtain ⟨t, hline⟩ : ∃ t, tagLines (tag :: rest) = ["`".toList ++ t] :=
        ⟨_, congrArg List.singleton (List.append_assoc _ _ _)⟩
      exact hline ▸ List.filter_cons_of_neg (by simpa using (hplain t).not_isLandmark)

theorem filter_blankLine : [([] : Text)].filter IsLandmark = [] := by
  decide

theorem filter_spaced (block : List Text) :
    (spaced block).filter IsLandmark = block.filter IsLandmark := by
  cases block with
  | nil => rfl
  | cons line rest =>
      rw [spaced, List.filter_append, filter_blankLine, List.append_nil]
      rintro ⟨⟩

/-- If the landmarks of each member are known, then those of all are these in order. -/
theorem filter_collectLines {α : Type} {f : α → Except RenderError (List Text)}
    {landmarks : α → List Text} {l : List α} {lines : List Text}
    (hf : ∀ a ∈ l, ∀ part, f a = .ok part → part.filter IsLandmark = landmarks a)
    (h : collectLines f l = .ok lines) : lines.filter IsLandmark = l.flatMap landmarks := by
  obtain ⟨linesOf, hmembers, rfl⟩ := collectLines_eq_ok h
  rw [List.filter_flatMap]
  exact List.flatMap_congr fun a ha => hf a ha _ (hmembers a ha)

namespace Step

variable {step : Step} {style : PlaceholderStyle} {lines : List Text}

theorem mark_prefix_listItem (style : PlaceholderStyle) (step : Step) :
    Landmark.listItem.mark <+: step.listItem style :=
  have hkeyword := List.prefix_append "- _".toList (Text.trim step.keyword)
  (hkeyword.trans (List.prefix_append _ "_ ".toList)).trans (List.prefix_append _ _)

theorem mark_prefix_quotedItem (style : PlaceholderStyle) (step : Step) :
    Landmark.quotedItem.mark <+: step.quotedItem style :=
  have hkeyword := List.prefix_append ">_".toList (Text.trim step.keyword)
  have htext := (hkeyword.trans (List.prefix_append _ "_ ".toList)).trans (List.prefix_append _ _)
  htext.trans (List.prefix_append _ "  ".toList)

theorem filter_scenarioLines (h : step.scenarioLines style = .ok lines) :
    lines.filter IsLandmark = [step.listItem style] := by
  obtain ⟨table, htable, rfl⟩ := scenarioLines_eq_ok h
  have hmark := Landmark.isLandmark_of_begins (mark_prefix_listItem style step)
  simp [hmark, Table.filter_optionalLines htable]

theorem filter_backgroundLines (h : step.backgroundLines style = .ok lines) :
    lines.filter IsLandmark = [step.quotedItem style] := by
  obtain ⟨table, htable, rfl⟩ := backgroundLines_eq_ok h
  have hmark := Landmark.isLandmark_of_begins (mark_prefix_quotedItem style step)
  simp [hmark, Table.filter_optionalLines htable]

end Step

variable {options : RenderOptions} {lines : List Text}

namespace Examples

theorem mark_prefix_heading (block : Examples) : Landmark.examples.mark <+: block.heading :=
  List.prefix_append _ _

theorem filter_lines {block : Examples} (h : block.lines = .ok lines) :
    lines.filter IsLandmark = [block.heading] := by
  obtain ⟨table, htable, rfl⟩ := lines_eq_ok h
  have hmark := Landmark.isLandmark_of_begins (mark_prefix_heading block)
  have hquote : ¬ IsLandmark ['>'] := by decide
  rw [List.filter_append, Table.filter_optionalLines htable]
  simp [hmark, hquote]

end Examples

namespace Background

def landmarks (options : RenderOptions) (background : Background) : List Text :=
  background.steps.map (Step.quotedItem options.backgroundPlaceholders)

theorem filter_lines {background : Background} (h : background.lines options = .ok lines) :
    lines.filter IsLandmark = background.landmarks options := by
  rw [landmarks, List.map_eq_flatMap]
  exact filter_collectLines (fun _ _ _ hpart => Step.filter_backgroundLines hpart) h

end Background

namespace Scenario

def landmarks (options : RenderOptions) (scenario : Scenario) : List Text :=
  [scenario.heading] ++ scenario.steps.map (Step.listItem options.scenarioPlaceholders) ++
    scenario.examples.map Examples.heading

theorem mark_prefix_heading (scenario : Scenario) :
    Landmark.scenario.mark <+: scenario.heading :=
  List.prefix_append _ _

theorem filter_headLines {scenario : Scenario} (hplain : PlainDescription scenario.description) :
    scenario.headLines.filter IsLandmark = [scenario.heading] := by
  have hmark := Landmark.isLandmark_of_begins (mark_prefix_heading scenario)
  have hblank : ¬ IsLandmark [] := by decide
  rw [headLines, List.filter_append, List.filter_append, filter_spaced, filter_tagLines,
    hplain.filter_lines]
  simp [hmark, hblank]

theorem filter_lines {scenario : Scenario} (hplain : PlainDescription scenario.description)
    (h : scenario.lines options = .ok lines) :
    lines.filter IsLandmark = scenario.landmarks options := by
  obtain ⟨steps, examples, hsteps, hexamples, rfl⟩ := lines_eq_ok h
  have hstepMarks := filter_collectLines (fun _ _ _ hpart => Step.filter_scenarioLines hpart) hsteps
  have hexampleMarks :=
    filter_collectLines (fun _ _ _ hpart => Examples.filter_lines hpart) hexamples
  rw [List.filter_append, List.filter_append, List.filter_append, filter_headLines hplain,
    hstepMarks, filter_blankLine, hexampleMarks, List.append_nil, landmarks, List.map_eq_flatMap,
    List.map_eq_flatMap]

end Scenario

namespace Child

/-- Nothing of a rule is among the landmarks. -/
def landmarks (options : RenderOptions) : Child → List Text
  | .background b => b.landmarks options
  | .scenario s => s.landmarks options
  | .rule _ => []

def scenario? : Child → Option Scenario
  | .scenario s => some s
  | _ => none

def background? : Child → Option Background
  | .background b => some b
  | _ => none

theorem filter_lines {child : Child}
    (hplain : ∀ scenario ∈ child.scenario?, PlainDescription scenario.description)
    (h : child.lines options = .ok lines) :
    lines.filter IsLandmark = child.landmarks options := by
  cases child with
  | background b => exact Background.filter_lines h
  | scenario s => exact Scenario.filter_lines (hplain s rfl) h
  | rule r =>
      obtain rfl : [] = lines := Except.ok.inj h
      rfl

end Child

namespace Feature

/-- The scenarios that stand in the feature itself, not below a rule. -/
def scenarios (feature : Feature) : List Scenario :=
  feature.children.filterMap Child.scenario?

def backgrounds (feature : Feature) : List Background :=
  feature.children.filterMap Child.background?

theorem flatMap_scenarios (feature : Feature) (f : Scenario → List Text) :
    feature.scenarios.flatMap f =
      feature.children.flatMap fun child => child.scenario?.toList.flatMap f := by
  rw [scenarios, List.filterMap_eq_flatMap_toList, List.flatMap_assoc]

theorem flatMap_backgrounds (feature : Feature) (f : Background → List Text) :
    feature.backgrounds.flatMap f =
      feature.children.flatMap fun child => child.background?.toList.flatMap f := by
  rw [backgrounds, List.filterMap_eq_flatMap_toList, List.flatMap_assoc]

def landmarks (options : RenderOptions) (feature : Feature) : List Text :=
  feature.children.flatMap (Child.landmarks options)

/-- The descriptions that Markdown shows. -/
def PlainDescriptions (feature : Feature) : Prop :=
  PlainDescription feature.description ∧
    ∀ scenario ∈ feature.scenarios, PlainDescription scenario.description

instance : DecidablePred PlainDescriptions :=
  fun feature => inferInstanceAs (Decidable (PlainDescription feature.description ∧
    ∀ scenario ∈ feature.scenarios, PlainDescription scenario.description))

theorem filter_headLines {feature : Feature} (hplain : PlainDescription feature.description) :
    feature.headLines.filter IsLandmark = [] := by
  have hheading := not_isLandmark_featureHeading feature.name
  have hblank : ¬ IsLandmark [] := by decide
  rw [headLines, List.filter_append, List.filter_append, filter_spaced, filter_spaced,
    filter_tagLines, hplain.filter_lines]
  generalize "# Feature: ".toList ++ feature.name = heading at hheading
  simp [hheading, hblank]

/-- The landmarks of a feature are those of its children, child by child. -/
theorem filter_lines {feature : Feature} (hplain : feature.PlainDescriptions)
    (h : feature.lines options = .ok lines) :
    lines.filter IsLandmark = feature.landmarks options := by
  obtain ⟨children, hchildren, rfl⟩ := lines_eq_ok h
  rw [List.filter_append, filter_headLines hplain.1, List.nil_append]
  refine filter_collectLines (fun child hchild part hpart => ?_) hchildren
  refine Child.filter_lines (fun scenario hscenario => ?_) hpart
  exact hplain.2 scenario (List.mem_filterMap.mpr ⟨child, hchild, hscenario⟩)

end Feature

namespace Landmark

theorem among_filter (kind : Landmark) (lines : List Text) :
    kind.among (lines.filter IsLandmark) = kind.among lines := by
  unfold among
  rw [List.filter_filter]
  refine List.filter_congr fun line _ => ?_
  have himp : kind.mark <+: line → IsLandmark line := isLandmark_of_begins
  simpa using himp

/-- A list of lines with one mark is kept whole if the mark is asked for, and else dropped. -/
theorem among_map {α : Type} {other : Landmark} {f : α → Text} (h : ∀ a, other.mark <+: f a)
    (kind : Landmark) (l : List α) :
    kind.among (l.map f) = if kind = other then l.map f else [] := by
  unfold among
  split
  next heq => simpa [heq] using fun a _ => h a
  next hne => simpa using fun a _ hmark => hne (eq_of_begins hmark (h a))

theorem among_backgroundLandmarks (kind : Landmark) (background : Background) :
    kind.among (background.landmarks options) =
      if kind = .quotedItem then background.landmarks options else [] :=
  among_map (Step.mark_prefix_quotedItem options.backgroundPlaceholders) kind background.steps

theorem among_scenarioLandmarks (kind : Landmark) (scenario : Scenario) :
    kind.among (scenario.landmarks options) =
      (if kind = .scenario then [scenario.heading] else []) ++
        (if kind = .listItem then
          scenario.steps.map (Step.listItem options.scenarioPlaceholders) else []) ++
        if kind = .examples then scenario.examples.map Examples.heading else [] := by
  have hheading := among_map Scenario.mark_prefix_heading kind [scenario]
  have hsteps :=
    among_map (Step.mark_prefix_listItem options.scenarioPlaceholders) kind scenario.steps
  have hexamples := among_map Examples.mark_prefix_heading kind scenario.examples
  unfold among at hheading hsteps hexamples ⊢
  rw [Scenario.landmarks, List.filter_append, List.filter_append, hsteps, hexamples]
  exact congrArg (· ++ _ ++ _) hheading

theorem among_featureLandmarks (kind : Landmark) (feature : Feature) :
    kind.among (feature.landmarks options) =
      feature.children.flatMap fun child => kind.among (child.landmarks options) :=
  List.filter_flatMap

/-- Only backgrounds have quoted items, so all other landmarks stand scenario by scenario. -/
theorem among_landmarks_of_ne {kind : Landmark} (hkind : kind ≠ .quotedItem) (feature : Feature) :
    kind.among (feature.landmarks options) =
      feature.scenarios.flatMap fun s => kind.among (s.landmarks options) := by
  have hbackground (b : Background) : kind.among (b.landmarks options) = [] := by
    rw [among_backgroundLandmarks, if_neg hkind]
  rw [among_featureLandmarks, Feature.flatMap_scenarios]
  refine List.flatMap_congr fun child _ => ?_
  cases child with
  | background b => exact hbackground b
  | scenario s => exact (List.append_nil _).symm
  | rule r => rfl

theorem quotedItem_among_landmarks (feature : Feature) :
    quotedItem.among (feature.landmarks options) =
      feature.backgrounds.flatMap (Background.landmarks options) := by
  have hbackground (b : Background) :
      quotedItem.among (b.landmarks options) = b.landmarks options := by
    rw [among_backgroundLandmarks, if_pos rfl]
  have hscenario (s : Scenario) : quotedItem.among (s.landmarks options) = [] := by
    simp [among_scenarioLandmarks]
  rw [among_featureLandmarks, Feature.flatMap_backgrounds]
  refine List.flatMap_congr fun child _ => ?_
  cases child with
  | background b => exact (hbackground b).trans (List.append_nil _).symm
  | scenario s => exact hscenario s
  | rule r => rfl

end Landmark

/-- Lines that end in a line feed and hold no other are found again by cutting at line feeds. -/
theorem LineEnding.splitOn_endLines {ending : LineEnding} (hending : ending.text = ['\n'])
    {lines : List Text} (h : SingleLines lines) :
    (ending.endLines lines).splitOn '\n' = lines ++ [[]] := by
  induction lines with
  | nil => rfl
  | cons line rest ih =>
      obtain ⟨hline, hrest⟩ := SingleLines.cons_iff.mp h
      rw [endLines_cons, hending, List.append_assoc, List.singleton_append,
        List.splitOn_append_cons_self_of_not_mem hline, ih hrest, List.cons_append]

namespace Feature

def withoutRules (feature : Feature) : Feature :=
  { feature with children := feature.children.filter (·.treatment = .render) }

theorem lines_withoutRules (feature : Feature) (options : RenderOptions) :
    feature.withoutRules.lines options = feature.lines options := by
  have hrules : ∀ child : Child, decide (child.treatment = .render) = false →
      child.lines options = .ok [] := by
    intro child hskip
    cases child with
    | background b => contradiction
    | scenario s => contradiction
    | rule r => rfl
  unfold lines withoutRules
  rw [collectLines_filter hrules]
  rfl

end Feature

/-- If line feeds end the lines and stand nowhere else in what is shown, and no description looks
like a landmark, then a reader finds every scenario, step and examples block of the feature once and
in order, each by its mark, and finds the same if the rules are left out. -/
theorem RenderOptions.renderFeature_keeps_landmarks {options : RenderOptions} {feature : Feature}
    {text : Text} (hending : options.lineEnding.text = ['\n'])
    (hinline : SingleLines feature.visibleInlineTexts) (hplain : feature.PlainDescriptions)
    (h : options.renderFeature feature = .ok text) :
    Landmark.scenario.among (text.splitOn '\n') = feature.scenarios.map Scenario.heading ∧
      Landmark.listItem.among (text.splitOn '\n') = feature.scenarios.flatMap (fun s =>
        s.steps.map (Step.listItem options.scenarioPlaceholders)) ∧
      Landmark.quotedItem.among (text.splitOn '\n') = feature.backgrounds.flatMap (fun b =>
        b.steps.map (Step.quotedItem options.backgroundPlaceholders)) ∧
      Landmark.examples.among (text.splitOn '\n') = feature.scenarios.flatMap (fun s =>
        s.examples.map Examples.heading) ∧
      options.renderFeature feature.withoutRules = .ok text := by
  obtain ⟨lines, hlines, rfl⟩ := finish_eq_ok h
  have hsplit := LineEnding.splitOn_endLines hending (Feature.singleLines_lines hinline hlines)
  -- The piece after the last line feed is empty, and no landmark.
  have hlandmarks : (lines ++ [[]]).filter IsLandmark = feature.landmarks options := by
    rw [List.filter_append, filter_blankLine, List.append_nil, Feature.filter_lines hplain hlines]
  have hamong (kind : Landmark) : kind.among ((options.lineEnding.endLines lines).splitOn '\n') =
      kind.among (feature.landmarks options) := by
    rw [hsplit, ← Landmark.among_filter, hlandmarks]
  simp only [hamong]
  refine ⟨?_, ?_, Landmark.quotedItem_among_landmarks feature, ?_, ?_⟩
  · rw [Landmark.among_landmarks_of_ne (by decide), List.map_eq_flatMap]
    simp [Landmark.among_scenarioLandmarks]
  · rw [Landmark.among_landmarks_of_ne (by decide)]
    simp [Landmark.among_scenarioLandmarks]
  · rw [Landmark.among_landmarks_of_ne (by decide)]
    simp [Landmark.among_scenarioLandmarks]
  · rw [← h, renderFeature, renderFeature, Feature.lines_withoutRules]

/-- Marks in names, tags, texts and cells are not taken for landmarks, nor is anything of a rule. -/
theorem RenderOptions.renderFeature_keeps_landmarks_among_lookalikes :
    let table : Table := ⟨[["- _a".toList], [">### b".toList]]⟩
    let step : Step := ⟨"Given ".toList, ">_c".toList, some table⟩
    let scenario : Scenario := ⟨"- _d".toList, some "e\n _ ### f".toList, [⟨">### ".toList⟩],
      [step, step], [⟨"Examples".toList, some table⟩]⟩
    let rule : Rule := ⟨"### Scenario: g".toList, none, [], some ⟨[step]⟩, [scenario]⟩
    let feature : Feature := ⟨"\r>_h".toList, none, [],
      [.background ⟨[step]⟩, .rule rule, .scenario scenario]⟩
    let options : RenderOptions := {}
    options.lineEnding.text = ['\n'] ∧ SingleLines feature.visibleInlineTexts ∧
      feature.PlainDescriptions ∧
      ∃ text, options.renderFeature feature = .ok text ∧
        Landmark.scenario.among (text.splitOn '\n') = ["### Scenario: - _d".toList] ∧
        Landmark.listItem.among (text.splitOn '\n') =
          ["- _Given_ >`_c".toList, "- _Given_ >`_c".toList] ∧
        Landmark.quotedItem.among (text.splitOn '\n') = [">_Given_ ]_c  ".toList] ∧
        Landmark.examples.among (text.splitOn '\n') = [">### Examples".toList] ∧
        options.renderFeature feature.withoutRules = .ok text := by
  intro table step scenario rule feature options
  have hinline : SingleLines feature.visibleInlineTexts := by decide
  have hplain : feature.PlainDescriptions := by decide +kernel
  have hrenders : (options.renderFeature feature).toOption.isSome = true := by decide +kernel
  cases htext : options.renderFeature feature with
  | error e =>
      rw [htext] at hrenders
      contradiction
  | ok text =>
      obtain ⟨hscenarios, hitems, hquoted, hexamples, hrules⟩ :=
        renderFeature_keeps_landmarks rfl hinline hplain htext
      refine ⟨rfl, hinline, hplain, text, rfl, hscenarios.trans ?_, hitems.trans ?_,
        hquoted.trans ?_, hexamples.trans ?_, hrules⟩
      all_goals decide +kernel

end FeatureMarkdown
