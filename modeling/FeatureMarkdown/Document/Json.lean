import FeatureMarkdown.Document
import FeatureMarkdown.Json

namespace FeatureMarkdown

namespace Json

def optional {α : Type} (f : α → Json) : Option α → Json
  | none => .null
  | some a => f a

def list {α : Type} (f : α → Json) (members : List α) : Json :=
  .array (members.map f)

end Json

open Json (optional list)

def Table.toJson (table : Table) : Json :=
  .object [("rows".toList, list (list .string) table.rows)]

def Tag.toJson (tag : Tag) : Json :=
  .string tag.name

def Step.toJson (step : Step) : Json :=
  .object [("keyword".toList, .string step.keyword), ("text".toList, .string step.text),
    ("table".toList, optional Table.toJson step.table)]

def Examples.toJson (block : Examples) : Json :=
  .object [("keyword".toList, .string block.keyword),
    ("table".toList, optional Table.toJson block.table)]

namespace Background

def fields (background : Background) : List (Text × Json) :=
  [("steps".toList, list Step.toJson background.steps)]

def toJson (background : Background) : Json :=
  .object background.fields

end Background

namespace Scenario

def fields (scenario : Scenario) : List (Text × Json) :=
  [("name".toList, .string scenario.name),
    ("description".toList, optional .string scenario.description),
    ("tags".toList, list Tag.toJson scenario.tags),
    ("steps".toList, list Step.toJson scenario.steps),
    ("examples".toList, list Examples.toJson scenario.examples)]

def toJson (scenario : Scenario) : Json :=
  .object scenario.fields

end Scenario

def Rule.fields (rule : Rule) : List (Text × Json) :=
  [("name".toList, .string rule.name),
    ("description".toList, optional .string rule.description),
    ("tags".toList, list Tag.toJson rule.tags),
    ("background".toList, optional Background.toJson rule.background),
    ("scenarios".toList, list Scenario.toJson rule.scenarios)]

namespace Child

def fields : Child → List (Text × Json)
  | .background b => b.fields
  | .scenario s => s.fields
  | .rule r => r.fields

/-- The kind comes first, before the fields of the node itself. -/
def toJson (child : Child) : Json :=
  .object (("kind".toList, .string child.kind) :: child.fields)

end Child

def Feature.toJson (feature : Feature) : Json :=
  .object [("name".toList, .string feature.name),
    ("description".toList, optional .string feature.description),
    ("tags".toList, list Tag.toJson feature.tags),
    ("children".toList, list Child.toJson feature.children)]

def Document.toJson (document : Document) : Json :=
  .object [("feature".toList, document.feature.toJson)]

end FeatureMarkdown
