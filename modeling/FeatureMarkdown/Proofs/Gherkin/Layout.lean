import FeatureMarkdown.Markdown.LineEnding
import FeatureMarkdown.Proofs.Document.Tables
import FeatureMarkdown.Text.Blank

/-!
The usual layout of a feature file, and the documents that it can show: those without rules and
descriptions whose texts are words with single spaces between them. The layout shows a keyword
without the blanks around it.
-/

namespace FeatureMarkdown

namespace Text

/-- Only the characters of the text are looked at, and not all that there are. -/
instance decidableForallMem {p : Char → Prop} [DecidablePred p] (t : Text) :
    Decidable (∀ c ∈ t, p c) :=
  List.decidableBAll p t

/-- One or more letters and digits of ASCII. -/
def IsWord (t : Text) : Prop :=
  t ≠ [] ∧ ∀ c ∈ t, c.isAlphanum = true

instance (t : Text) : Decidable t.IsWord :=
  inferInstanceAs (Decidable (_ ∧ _))

/-- One or more words with single spaces between them. -/
def IsPhrase (t : Text) : Prop :=
  ∀ word ∈ t.splitOn ' ', IsWord word

instance (t : Text) : Decidable t.IsPhrase :=
  inferInstanceAs (Decidable (∀ _ ∈ _, _))

end Text

structure Table.IsPlain (table : Table) : Prop where
  even : table.IsEven
  row_ne_nil : ∀ row ∈ table.rows, row ≠ []
  cells : ∀ row ∈ table.rows, ∀ cell ∈ row, cell.IsPhrase

structure Step.IsPlain (step : Step) : Prop where
  keyword : Text.trim step.keyword ∈ ["Given".toList, "When".toList, "Then".toList]
  text : step.text.IsPhrase
  table : ∀ table ∈ step.table, table.IsPlain

structure Background.IsPlain (background : Background) : Prop where
  steps_ne_nil : background.steps ≠ []
  steps : ∀ step ∈ background.steps, step.IsPlain

structure Examples.IsPlain (examples : Examples) : Prop where
  keyword : examples.keyword = "Examples".toList
  table : ∃ table, examples.table = some table ∧ table.IsPlain

structure Scenario.IsPlain (scenario : Scenario) : Prop where
  name : scenario.name.IsPhrase
  description : scenario.description = none
  tags : ∀ tag ∈ scenario.tags, tag.name.IsWord
  steps_ne_nil : scenario.steps ≠ []
  steps : ∀ step ∈ scenario.steps, step.IsPlain
  examples : ∀ examples ∈ scenario.examples, examples.IsPlain

/-- At most one background comes before the scenarios, of which there is at least one. -/
structure Feature.IsPlain (feature : Feature) : Prop where
  name : feature.name.IsPhrase
  description : feature.description = none
  tags : ∀ tag ∈ feature.tags, tag.name.IsWord
  children : ∃ (background : Option Background) (scenarios : List Scenario),
    feature.children = background.toList.map .background ++ scenarios.map .scenario ∧
      (∀ b ∈ background, b.IsPlain) ∧ scenarios ≠ [] ∧ ∀ s ∈ scenarios, s.IsPlain

namespace Step

def mapKeyword (f : Text → Text) (step : Step) : Step :=
  { step with keyword := f step.keyword }

theorem mapKeyword_mapKeyword (f g : Text → Text) :
    mapKeyword g ∘ mapKeyword f = mapKeyword (g ∘ f) := rfl

end Step

namespace Background

def mapKeywords (f : Text → Text) (background : Background) : Background :=
  ⟨background.steps.map (Step.mapKeyword f)⟩

theorem mapKeywords_mapKeywords (f g : Text → Text) :
    mapKeywords g ∘ mapKeywords f = mapKeywords (g ∘ f) := by
  funext background
  simp only [Function.comp_apply, mapKeywords, List.map_map, Step.mapKeyword_mapKeyword]

end Background

namespace Scenario

def mapKeywords (f : Text → Text) (scenario : Scenario) : Scenario :=
  { scenario with steps := scenario.steps.map (Step.mapKeyword f) }

theorem mapKeywords_mapKeywords (f g : Text → Text) :
    mapKeywords g ∘ mapKeywords f = mapKeywords (g ∘ f) := by
  funext scenario
  simp only [Function.comp_apply, mapKeywords, List.map_map, Step.mapKeyword_mapKeyword]

end Scenario

namespace Rule

def mapKeywords (f : Text → Text) (rule : Rule) : Rule :=
  { rule with
    background := rule.background.map (Background.mapKeywords f)
    scenarios := rule.scenarios.map (Scenario.mapKeywords f) }

theorem mapKeywords_mapKeywords (f g : Text → Text) :
    mapKeywords g ∘ mapKeywords f = mapKeywords (g ∘ f) := by
  funext rule
  simp only [Function.comp_apply, mapKeywords, Option.map_map, List.map_map,
    Background.mapKeywords_mapKeywords, Scenario.mapKeywords_mapKeywords]

end Rule

namespace Child

def mapKeywords (f : Text → Text) : Child → Child
  | .background b => .background (b.mapKeywords f)
  | .scenario s => .scenario (s.mapKeywords f)
  | .rule r => .rule (r.mapKeywords f)

theorem mapKeywords_mapKeywords (f g : Text → Text) :
    mapKeywords g ∘ mapKeywords f = mapKeywords (g ∘ f) := by
  funext child
  cases child with
  | background b => exact congrArg background (congrFun (Background.mapKeywords_mapKeywords f g) b)
  | scenario s => exact congrArg scenario (congrFun (Scenario.mapKeywords_mapKeywords f g) s)
  | rule r => exact congrArg rule (congrFun (Rule.mapKeywords_mapKeywords f g) r)

end Child

namespace Document

/-- The document with other keywords of its steps. -/
def mapKeywords (f : Text → Text) (document : Document) : Document :=
  ⟨{ document.feature with children := document.feature.children.map (Child.mapKeywords f) }⟩

theorem mapKeywords_mapKeywords (f g : Text → Text) (document : Document) :
    (document.mapKeywords f).mapKeywords g = document.mapKeywords (g ∘ f) := by
  simp only [mapKeywords, List.map_map, Child.mapKeywords_mapKeywords]

end Document

namespace Gherkin.Layout

def indented (depth : Nat) (content : Text) : Text :=
  List.replicate depth ' ' ++ content

def tagText (tags : List Tag) : Text :=
  Text.join [' '] (tags.map fun tag => '@' :: tag.name)

/-- The line of the tags, if there are any. -/
def tagLines (depth : Nat) (tags : List Tag) : List Text :=
  if tags = [] then [] else [indented depth (tagText tags)]

def rowText (cells : List Text) : Text :=
  '|' :: cells.flatMap fun cell => [' '] ++ cell ++ [' ', '|']

def rowLine (cells : List Text) : Text :=
  indented 6 (rowText cells)

def tableLines (table : Table) : List Text :=
  table.rows.map rowLine

/-- The keyword of a step with one space after it, as the grammar finds it. -/
def spaced (keyword : Text) : Text :=
  Text.trim keyword ++ [' ']

theorem spaced_ne_nil (keyword : Text) : spaced keyword ≠ [] := by
  simp [spaced]

def stepLines (step : Step) : List Text :=
  indented 4 (spaced step.keyword ++ step.text) :: step.table.toList.flatMap tableLines

def examplesLines (examples : Examples) : List Text :=
  [] :: indented 4 "Examples:".toList :: examples.table.toList.flatMap tableLines

def backgroundLines (background : Background) : List Text :=
  [] :: indented 2 "Background:".toList :: background.steps.flatMap stepLines

/-- A scenario with examples is an outline. -/
def scenarioKeyword (scenario : Scenario) : Text :=
  if scenario.examples = [] then "Scenario".toList else "Scenario Outline".toList

def scenarioHeading (scenario : Scenario) : Text :=
  scenarioKeyword scenario ++ (":".toList ++ ' ' :: scenario.name)

def scenarioLines (scenario : Scenario) : List Text :=
  [] :: (tagLines 2 scenario.tags ++
    indented 2 (scenarioHeading scenario) ::
      (scenario.steps.flatMap stepLines ++ scenario.examples.flatMap examplesLines))

/-- The layout has no place for rules. -/
def childLines : Child → List Text
  | .background b => backgroundLines b
  | .scenario s => scenarioLines s
  | .rule _ => []

def documentLines (document : Document) : List Text :=
  tagLines 0 document.feature.tags ++
    ("Feature".toList ++ (":".toList ++ ' ' :: document.feature.name)) ::
      document.feature.children.flatMap childLines

def print (document : Document) : Text :=
  LineEnding.lf.endLines (documentLines document)

/-- A background with a table, a scenario with tags and an outline with two blocks of examples. -/
def pantry : Document where
  feature :=
    { name := "Pantry management".toList
      description := none
      tags := [⟨"kitchen".toList⟩]
      children :=
        [.background
            ⟨[⟨"Given".toList, "the shelves hold".toList,
              some ⟨[["item".toList, "count".toList], ["red apples".toList, "3".toList]]⟩⟩]⟩,
          .scenario
            ⟨"Taking an apple".toList, none, [⟨"smoke".toList⟩, ⟨"fast".toList⟩],
              [⟨"When ".toList, "I take 1 apple".toList, none⟩,
                ⟨"Then".toList, "2 apples remain".toList, none⟩], []⟩,
          .scenario
            ⟨"Eating apples".toList, none, [], [⟨"When".toList, "I eat".toList, none⟩],
              [⟨"Examples".toList, some ⟨[["n".toList], ["1".toList]]⟩⟩,
                ⟨"Examples".toList, some ⟨[["n".toList]]⟩⟩]⟩] }

example : documentLines pantry =
    ["@kitchen",
      "Feature: Pantry management",
      "",
      "  Background:",
      "    Given the shelves hold",
      "      | item | count |",
      "      | red apples | 3 |",
      "",
      "  @smoke @fast",
      "  Scenario: Taking an apple",
      "    When I take 1 apple",
      "    Then 2 apples remain",
      "",
      "  Scenario Outline: Eating apples",
      "    When I eat",
      "",
      "    Examples:",
      "      | n |",
      "      | 1 |",
      "",
      "    Examples:",
      "      | n |"].map String.toList := by
  decide +kernel

end Gherkin.Layout

end FeatureMarkdown
