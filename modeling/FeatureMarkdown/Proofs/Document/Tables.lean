import FeatureMarkdown.Document

namespace FeatureMarkdown

/-- The table has a first row, and all its rows are as long as that one. -/
def Table.IsEven (table : Table) : Prop :=
  ∃ header body, table.rows = header :: body ∧ ∀ row ∈ body, row.length = header.length

def Step.tables (step : Step) : List Table :=
  step.table.toList

def Examples.tables (block : Examples) : List Table :=
  block.table.toList

def Background.tables (background : Background) : List Table :=
  background.steps.flatMap Step.tables

/-- The tables of the steps, and after them those of the examples. -/
def Scenario.tables (scenario : Scenario) : List Table :=
  scenario.steps.flatMap Step.tables ++ scenario.examples.flatMap Examples.tables

def Rule.tables (rule : Rule) : List Table :=
  rule.background.toList.flatMap Background.tables ++ rule.scenarios.flatMap Scenario.tables

namespace Child

/-- All tables of a child, those below a rule included. -/
def tables : Child → List Table
  | .background b => b.tables
  | .scenario s => s.tables
  | .rule r => r.tables

/-- The tables that Markdown shows. Nothing below a rule is among them. -/
def visibleTables : Child → List Table
  | .background b => b.tables
  | .scenario s => s.tables
  | .rule _ => []

theorem mem_tables_of_mem_visibleTables {child : Child} {table : Table}
    (h : table ∈ child.visibleTables) : table ∈ child.tables := by
  cases child with
  | background b => exact h
  | scenario s => exact h
  | rule r => simp [visibleTables] at h

end Child

namespace Feature

def tables (feature : Feature) : List Table :=
  feature.children.flatMap Child.tables

def visibleTables (feature : Feature) : List Table :=
  feature.children.flatMap Child.visibleTables

theorem mem_tables_of_mem_visibleTables {feature : Feature} {table : Table}
    (h : table ∈ feature.visibleTables) : table ∈ feature.tables := by
  obtain ⟨child, hchild, htable⟩ := List.mem_flatMap.mp h
  exact List.mem_flatMap.mpr ⟨child, hchild, Child.mem_tables_of_mem_visibleTables htable⟩

end Feature

end FeatureMarkdown
