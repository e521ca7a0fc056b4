import FeatureMarkdown.Document

namespace FeatureMarkdown

/-- No text of the list goes over several lines. -/
def SingleLines (texts : List Text) : Prop :=
  ∀ t ∈ texts, '\n' ∉ t

instance (texts : List Text) : Decidable (SingleLines texts) :=
  inferInstanceAs (Decidable (∀ t ∈ texts, '\n' ∉ t))

namespace SingleLines

variable {α : Type} {first second : List Text} {t : Text}

@[simp] theorem nil : SingleLines [] := by
  simp [SingleLines]

@[simp] theorem cons_iff : SingleLines (t :: first) ↔ '\n' ∉ t ∧ SingleLines first :=
  List.forall_mem_cons

@[simp] theorem append_iff :
    SingleLines (first ++ second) ↔ SingleLines first ∧ SingleLines second :=
  List.forall_mem_append

@[simp] theorem flatMap_iff {f : α → List Text} {l : List α} :
    SingleLines (l.flatMap f) ↔ ∀ a ∈ l, SingleLines (f a) := by
  simp only [SingleLines, List.mem_flatMap]
  exact ⟨fun h a ha t ht => h t ⟨a, ha, ht⟩, fun h t ⟨a, ha, ht⟩ => h a ha t ht⟩

@[simp] theorem flatten_iff {rows : List (List Text)} :
    SingleLines rows.flatten ↔ ∀ row ∈ rows, SingleLines row := by
  rw [← List.flatMap_id, flatMap_iff]
  rfl

theorem subset (h : SingleLines second) (hsubset : first ⊆ second) : SingleLines first :=
  fun t ht => h t (hsubset ht)

end SingleLines

def Table.inlineTexts (table : Table) : List Text :=
  table.rows.flatten

def Step.inlineTexts (step : Step) : List Text :=
  step.keyword :: step.text :: step.table.toList.flatMap Table.inlineTexts

def Examples.inlineTexts (block : Examples) : List Text :=
  block.keyword :: block.table.toList.flatMap Table.inlineTexts

def Background.inlineTexts (background : Background) : List Text :=
  background.steps.flatMap Step.inlineTexts

def Scenario.inlineTexts (scenario : Scenario) : List Text :=
  scenario.name :: scenario.tags.map Tag.name ++ scenario.steps.flatMap Step.inlineTexts ++
    scenario.examples.flatMap Examples.inlineTexts

def Rule.inlineTexts (rule : Rule) : List Text :=
  rule.name :: rule.tags.map Tag.name ++ rule.background.toList.flatMap Background.inlineTexts ++
    rule.scenarios.flatMap Scenario.inlineTexts

namespace Child

/-- All inline texts of a child, those below a rule included. -/
def inlineTexts : Child → List Text
  | .background b => b.inlineTexts
  | .scenario s => s.inlineTexts
  | .rule r => r.inlineTexts

/-- The inline texts that Markdown shows. Nothing of a rule is among them. -/
def visibleInlineTexts : Child → List Text
  | .background b => b.inlineTexts
  | .scenario s => s.inlineTexts
  | .rule _ => []

end Child

namespace Feature

def inlineTexts (feature : Feature) : List Text :=
  feature.name :: feature.tags.map Tag.name ++ feature.children.flatMap Child.inlineTexts

def visibleInlineTexts (feature : Feature) : List Text :=
  feature.name :: feature.tags.map Tag.name ++ feature.children.flatMap Child.visibleInlineTexts

end Feature

end FeatureMarkdown
