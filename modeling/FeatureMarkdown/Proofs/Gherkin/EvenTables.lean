import FeatureMarkdown.Gherkin.Parse
import FeatureMarkdown.Proofs.Document.Tables
import FeatureMarkdown.Proofs.Gherkin.Yields

namespace FeatureMarkdown

theorem eq_ok_of_toOption {ε α : Type} {outcome : Except ε α} {a : α}
    (h : outcome.toOption = some a) : outcome = .ok a := by
  cases outcome with
  | error e => contradiction
  | ok b => exact congrArg Except.ok (Option.some.inj h)

namespace Gherkin

open FeatureMarkdown.Gherkin.Parser

theorem table_yields_even : table.Yields Table.IsEven := by
  refine .bind' fun _ => .bind (.separated (.trivial row) (.trivial row)) fun rows hrows => ?_
  refine .bind .insist fun _ heven => .pure ?_
  obtain ⟨header, body, rfl⟩ := List.exists_cons_of_ne_nil hrows.1
  refine ⟨header, body.map (·.take header.length), by simp, fun row hrow => ?_⟩
  exact of_decide_eq_true (List.all_eq_true.mp heven row (List.mem_cons_of_mem _ hrow))

theorem optional_table_yields_even :
    (Parser.optional table).Yields fun found => ∀ t ∈ found.toList, t.IsEven :=
  table_yields_even.optional.mono fun _ h t ht => h t (Option.mem_toList.mp ht)

theorem stepWith_yields_even (words : List Text) (allowed : Bool) :
    (stepWith words allowed).Yields fun step => ∀ t ∈ step.tables, t.IsEven := by
  refine .bind' fun _ => .bind' fun _ => .bind' fun _ => .bind' fun _ => .bind' fun _ => ?_
  refine .bind' fun _ => .bind' fun _ => .bind optional_table_yields_even fun found hfound => ?_
  exact .bind' fun _ => .pure hfound

theorem step_yields_even (language : Language) (following : Bool) :
    (step language following).Yields fun step => ∀ t ∈ step.tables, t.IsEven :=
  .either (.bind' fun _ => stepWith_yields_even _ _) <|
    .either (stepWith_yields_even _ _) <| .either (stepWith_yields_even _ _) <|
    .either (stepWith_yields_even _ _) (stepWith_yields_even _ _)

theorem steps_yields_even (language : Language) :
    (steps language).Yields fun found => ∀ t ∈ found.flatMap Step.tables, t.IsEven := by
  refine (Yields.orEmpty_separated (step_yields_even language false)
    (step_yields_even language true)).mono fun found h t ht => ?_
  obtain ⟨step, hstep, ht⟩ := List.mem_flatMap.mp ht
  exact h step hstep t ht

theorem background_yields_even (language : Language) :
    (background language).Yields fun node => ∀ t ∈ node.value.tables, t.IsEven := by
  refine .bind' fun _ => .bind' fun _ => .located ?_
  refine .bind' fun _ => .bind' fun _ => .bind' fun _ => .bind' fun _ => ?_
  exact .bind (steps_yields_even language) fun _ hsteps => .pure fun _ => hsteps

theorem examples_yields_even (language : Language) :
    (examples language).Yields fun node => ∀ t ∈ node.toExamples.tables, t.IsEven := by
  refine .bind' fun _ => .bind' fun _ => .bind' fun _ => .bind' fun _ => .bind' fun _ => ?_
  refine .bind' fun _ => .bind' fun _ => .bind' fun _ => ?_
  exact .bind optional_table_yields_even fun _ hfound => .pure hfound

theorem scenarioWith_yields_even (language : Language) (words : List Text) :
    (scenarioWith language words).Yields fun node =>
      ∀ t ∈ node.value.toScenario.tables, t.IsEven := by
  refine .bind' fun _ => .bind' fun _ => .bind' fun _ => .bind' fun _ => .located ?_
  refine .bind' fun _ => .bind' fun _ => .bind' fun _ => .bind' fun _ => ?_
  refine .bind (steps_yields_even language) fun steps hsteps => ?_
  refine .bind (examples_yields_even language).many fun nodes hnodes => .pure ?_
  intro _ t ht
  rcases List.mem_append.mp ht with ht | ht
  · exact hsteps t ht
  · obtain ⟨block, hblock, ht⟩ := List.mem_flatMap.mp ht
    obtain ⟨node, hnode, rfl⟩ := List.mem_map.mp hblock
    exact hnodes node hnode t ht

theorem scenarios_yields_even (language : Language) :
    (scenarios language).Yields fun nodes =>
      ∀ node ∈ nodes, ∀ t ∈ node.value.toScenario.tables, t.IsEven := by
  have hscenario : (scenario language).Yields fun node =>
      ∀ t ∈ node.value.toScenario.tables, t.IsEven :=
    .either (scenarioWith_yields_even _ _) (scenarioWith_yields_even _ _)
  exact .bind' fun _ => .orEmpty_separated hscenario hscenario

theorem rule_yields_even (language : Language) :
    (rule language).Yields fun node => ∀ t ∈ node.value.toRule.tables, t.IsEven := by
  refine .bind' fun _ => .bind' fun _ => .bind' fun _ => .located ?_
  refine .bind' fun _ => .bind' fun _ => .bind' fun _ => .bind' fun _ => ?_
  refine .bind (background_yields_even language).optional fun background hbackground => ?_
  refine .bind' fun _ => .bind (scenarios_yields_even language) fun nodes hnodes => ?_
  refine .bind' fun _ => .pure fun _ t ht => ?_
  rcases List.mem_append.mp ht with ht | ht
  · obtain ⟨b, hb, ht⟩ := List.mem_flatMap.mp ht
    obtain ⟨node, rfl, rfl⟩ := Option.map_eq_some_iff.mp (Option.mem_toList.mp hb)
    exact hbackground node rfl t ht
  · obtain ⟨s, hs, ht⟩ := List.mem_flatMap.mp ht
    obtain ⟨node, hnode, rfl⟩ := List.mem_map.mp hs
    exact hnodes node hnode t ht

theorem rules_yields_even (language : Language) :
    (rules language).Yields fun nodes =>
      ∀ node ∈ nodes, ∀ t ∈ node.value.toRule.tables, t.IsEven :=
  .bind' fun _ => .orEmpty_separated (rule_yields_even _) (rule_yields_even _)

def Outline.HasEvenTables (outline : Outline) : Prop :=
  ∀ part ∈ outline.parts, ∀ t ∈ part.value.tables, t.IsEven

theorem feature_yields_even : feature.Yields Outline.HasEvenTables := by
  refine .unspoiled (.bind' fun _ => .bind' fun _ => ?_)
  refine .bind' fun _ => .bind' fun _ => .bind' fun _ => .bind' fun _ => .bind' fun _ => ?_
  refine .bind' fun _ => .bind (background_yields_even _).optional fun background hbackground => ?_
  refine .bind' fun _ => .bind (scenarios_yields_even _) fun scenarios hscenarios => ?_
  refine .bind' fun _ => .bind (rules_yields_even _) fun rules hrules => ?_
  refine .bind' fun _ => .pure fun part hpart => ?_
  simp only [Outline.parts, List.mem_append, List.mem_map, Option.mem_toList] at hpart
  rcases hpart with (⟨node, hnode, rfl⟩ | ⟨node, hnode, rfl⟩) | ⟨node, hnode, rfl⟩
  · exact hbackground node hnode
  · exact hscenarios node hnode
  · exact hrules node hnode

namespace Outline

theorem mem_tables_toFeature {outline : Outline} {t : Table} :
    t ∈ outline.toFeature.tables ↔ ∃ part ∈ outline.parts, t ∈ part.value.tables := by
  have hperm : outline.sortedParts.Perm outline.parts := sortBy_perm _ outline.parts
  simp only [Feature.tables, toFeature, List.mem_flatMap, List.mem_map]
  constructor
  · rintro ⟨child, ⟨part, hpart, rfl⟩, ht⟩
    exact ⟨part, hperm.mem_iff.mp hpart, ht⟩
  · rintro ⟨part, hpart, ht⟩
    exact ⟨part.value, ⟨part, hperm.mem_iff.mpr hpart, rfl⟩, ht⟩

end Outline

theorem parse_eq_ok {text : Text} {document : Document} (h : parse text = .ok document) :
    ∃ outline, outline? (endWithLineFeed text) = .ok outline ∧
      document = ⟨outline.toFeature⟩ := by
  unfold parse at h
  split at h
  · rename_i outline houtline
    exact ⟨outline, houtline, (Except.ok.inj h).symm⟩
  · contradiction

theorem parse_of_outline? {text : Text} {outline : Outline}
    (h : outline? (endWithLineFeed text) = .ok outline) : parse text = .ok ⟨outline.toFeature⟩ := by
  rw [parse, h]

theorem outline?_eq_ok {text : Text} {outline : Outline} (h : outline? text = .ok outline) :
    (feature [text.length] text).result = some (outline, []) := by
  unfold outline? at h
  split at h
  · rename_i found misses breaks spoiled heq
    rw [heq, Except.ok.inj h]
  · contradiction
  · contradiction

theorem outline?_of_result {text : Text} {outline : Outline}
    (h : (feature [text.length] text).result = some (outline, [])) :
    outline? text = .ok outline := by
  unfold outline?
  split <;> simp_all

/-- Tables are even in whatever document a text is read as, those below its rules included. -/
theorem isEven_of_parse {text : Text} {document : Document} (h : parse text = .ok document) :
    ∀ t ∈ document.feature.tables, t.IsEven := by
  obtain ⟨outline, houtline, rfl⟩ := parse_eq_ok h
  intro t ht
  obtain ⟨part, hpart, ht⟩ := Outline.mem_tables_toFeature.mp ht
  exact feature_yields_even _ _ _ (outline?_eq_ok houtline) part hpart t ht

end Gherkin

end FeatureMarkdown
