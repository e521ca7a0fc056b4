import FeatureMarkdown.Proofs.Document.InlineTexts
import FeatureMarkdown.Proofs.Gherkin.Breaks
import FeatureMarkdown.Proofs.Gherkin.EvenTables
import Mathlib.Data.List.TakeWhile

namespace FeatureMarkdown.Gherkin

open FeatureMarkdown.Gherkin.Parser

theorem notMem_splitBefore {c : Char} {stop : Text → Bool} (hstop : ∀ s, stop (c :: s) = true)
    (s : Text) : c ∉ (splitBefore stop s).1 := by
  induction s with
  | nil => simp [splitBefore]
  | cons d s ih =>
      rw [splitBefore]
      split
      · simp
      · rename_i hgoes
        have hne : c ≠ d := by
          rintro rfl
          exact hgoes (hstop s)
        simp [hne, ih]

namespace Parser.Yields

variable {c : Char} {stop : Text → Bool}

theorem upTo (hstop : ∀ s, stop (c :: s) = true) : (Parser.upTo stop).Yields fun t => c ∉ t := by
  intro before s t rest hs
  obtain ⟨rfl, -⟩ := Prod.mk.inj (Option.some.inj hs)
  exact notMem_splitBefore hstop s

theorem someUpTo (hstop : ∀ s, stop (c :: s) = true) :
    (Parser.someUpTo stop).Yields fun t => c ∉ t := by
  intro before s t rest hs
  unfold Parser.someUpTo at hs
  dsimp only at hs
  split at hs
  · contradiction
  · obtain ⟨rfl, -⟩ := Prod.mk.inj (Option.some.inj hs)
    exact notMem_splitBefore hstop s

end Parser.Yields

theorem lineText_yields : lineText.Yields fun t => '\n' ∉ t :=
  .someUpTo fun _ => rfl

theorem headingText_yields : headingText.Yields fun t => '\n' ∉ t := by
  refine .bind' fun _ => .bind lineText_yields.optional fun found hfound => .bind' fun _ => ?_
  refine .pure fun hmem => ?_
  cases found with
  | none => simp [Text.trimEnd] at hmem
  | some t => exact hfound t rfl ((Text.trimEnd_sublist t).subset hmem)

theorem word_yields (words : List Text) : (word words).Yields (· ∈ words) := by
  intro before s w rest hs
  unfold word at hs
  split at hs
  · rename_i found hfind
    obtain ⟨rfl, -⟩ := Prod.mk.inj (Option.some.inj hs)
    exact List.mem_of_find?_eq_some hfind
  · contradiction

theorem keyword_yields {words : List Text} (hwords : SingleLines words) :
    (keyword words).Yields fun w => '\n' ∉ w :=
  .bind' fun _ => (word_yields words).mono hwords

theorem tagName_yields : tagName.Yields fun t => '\n' ∉ t := by
  intro before s t rest hs
  unfold tagName at hs
  dsimp only at hs
  split at hs
  · contradiction
  · obtain ⟨rfl, -⟩ := Prod.mk.inj (Option.some.inj hs)
    intro hmem
    have hkept := List.mem_takeWhile_imp hmem
    contradiction

theorem tags_yields : tags.Yields SingleLines := by
  have htag : tag.Yields fun t => '\n' ∉ t := .bind' fun _ => tagName_yields
  exact .bind (.orEmpty_separated htag htag) fun _ hnames => .bind' fun _ => .bind' fun _ =>
    .pure hnames

theorem singleLines_map_name {names : List Text} (h : SingleLines names) :
    SingleLines ((names.map Tag.new).map Tag.name) := by
  intro t ht
  obtain ⟨tag, htag, rfl⟩ := List.mem_map.mp ht
  obtain ⟨name, hname, rfl⟩ := List.mem_map.mp htag
  have hsuffix : (Tag.new name).name ⊆ name := by
    unfold Tag.new
    split
    · exact List.subset_cons_self _ _
    · exact List.Subset.refl _
  exact fun hmem => h name hname (hsuffix hmem)

theorem cell_yields : cell.Yields fun t => '\n' ∉ t := by
  have hstop (s : Text) : atCellEnd ('\n' :: s) = true := by
    simp [atCellEnd, atLineBreak, lineBreak?]
  refine .bind' fun _ => .bind' fun _ => .bind' fun _ => .bind (.upTo hstop) fun t ht => ?_
  exact .pure fun hmem => ht ((Text.trim_sublist t).subset hmem)

theorem row_yields : row.Yields SingleLines :=
  .bind (.orEmpty_separated cell_yields cell_yields) fun _ hcells =>
    .bind' fun _ => .bind' fun _ => .bind' fun _ => .bind' fun _ => .pure hcells

theorem table_yields : table.Yields fun t => SingleLines t.inlineTexts := by
  refine .bind' fun _ => .bind (.separated row_yields row_yields) fun rows hrows => ?_
  refine .bind' fun _ => .pure ?_
  rw [Table.inlineTexts, SingleLines.flatten_iff]
  intro cut hcut
  obtain ⟨row, hrow, rfl⟩ := List.mem_map.mp hcut
  exact (hrows.2 row hrow).subset (List.take_subset _ row)

theorem optional_table_yields :
    (Parser.optional table).Yields fun found =>
      SingleLines (found.toList.flatMap Table.inlineTexts) :=
  table_yields.optional.mono fun found h => by
    simpa only [SingleLines.flatMap_iff, Option.mem_toList] using h

theorem stepWith_yields {words : List Text} (hwords : SingleLines words) (allowed : Bool) :
    (stepWith words allowed).Yields fun step => SingleLines step.inlineTexts := by
  refine .bind (keyword_yields hwords) fun keyword hkeyword => .bind' fun _ => ?_
  refine .bind lineText_yields fun text htext => .bind' fun _ => .bind' fun _ => .bind' fun _ => ?_
  refine .bind' fun _ => .bind optional_table_yields fun table htable => .bind' fun _ => .pure ?_
  have htrim : '\n' ∉ Text.trimEnd text :=
    fun hmem => htext ((Text.trimEnd_sublist text).subset hmem)
  simpa only [Step.inlineTexts, SingleLines.cons_iff] using ⟨hkeyword, htrim, htable⟩

namespace Language

/-- The words that a document keeps. -/
def keptWords (language : Language) : List Text :=
  language.givenWords ++ language.whenWords ++ language.thenWords ++ language.andWords ++
    language.butWords ++ language.examples

theorem singleLines_keptWords {code : Text} {language : Language}
    (h : ofCode? code = some language) : SingleLines language.keptWords := by
  intro word hword
  simp only [keptWords, List.mem_append] at hword
  rcases hword with ((((hword | hword) | hword) | hword) | hword) | hword <;>
    exact (unbroken_of_ofCode? h _ (by simp [wordLists]) word hword).1

end Language

theorem step_yields {language : Language} (hwords : SingleLines language.keptWords)
    (following : Bool) :
    (step language following).Yields fun step => SingleLines step.inlineTexts := by
  simp only [Language.keptWords, SingleLines.append_iff] at hwords
  obtain ⟨⟨⟨⟨⟨hgiven, hwhen⟩, hthen⟩, hand⟩, hbut⟩, -⟩ := hwords
  exact .either (.bind' fun _ => stepWith_yields hgiven _) <|
    .either (stepWith_yields hwhen _) <| .either (stepWith_yields hthen _) <|
    .either (stepWith_yields hand _) (stepWith_yields hbut _)

theorem steps_yields {language : Language} (hwords : SingleLines language.keptWords) :
    (steps language).Yields fun found => SingleLines (found.flatMap Step.inlineTexts) := by
  refine (Yields.orEmpty_separated (step_yields hwords false) (step_yields hwords true)).mono ?_
  exact fun found h => SingleLines.flatMap_iff.mpr h

theorem background_yields {language : Language} (hwords : SingleLines language.keptWords) :
    (background language).Yields fun node => SingleLines node.value.inlineTexts := by
  refine .bind' fun _ => .bind' fun _ => .located ?_
  refine .bind' fun _ => .bind' fun _ => .bind' fun _ => .bind' fun _ => ?_
  exact .bind (steps_yields hwords) fun _ hsteps => .pure fun _ => hsteps

theorem examples_yields {language : Language} (hwords : SingleLines language.keptWords) :
    (examples language).Yields fun node => SingleLines node.toExamples.inlineTexts := by
  have hexamples : SingleLines language.examples := (SingleLines.append_iff.mp hwords).2
  refine .bind' fun _ => .bind' fun _ => .bind' fun _ => .bind' fun _ => ?_
  refine .bind (keyword_yields hexamples) fun keyword hkeyword => ?_
  refine .bind' fun _ => .bind' fun _ => .bind' fun _ => ?_
  refine .bind optional_table_yields fun table htable => .pure ?_
  have htrim : '\n' ∉ Text.trimEndColons keyword :=
    fun hmem => hkeyword ((Text.trimEndColons_sublist keyword).subset hmem)
  exact SingleLines.cons_iff.mpr ⟨htrim, htable⟩

theorem scenarioWith_yields {language : Language} (hwords : SingleLines language.keptWords)
    (words : List Text) :
    (scenarioWith language words).Yields fun node =>
      SingleLines node.value.toScenario.inlineTexts := by
  refine .bind' fun _ => .bind' fun _ => .bind tags_yields fun tags htags => .bind' fun _ => ?_
  refine .located (.bind' fun _ => .bind' fun _ => ?_)
  refine .bind headingText_yields fun name hname => .bind' fun _ => ?_
  refine .bind (steps_yields hwords) fun steps hsteps => ?_
  refine .bind (examples_yields hwords).many fun nodes hnodes => .pure fun _ => ?_
  simp only [Scenario.inlineTexts, ScenarioNode.toScenario, SingleLines.append_iff,
    SingleLines.cons_iff, SingleLines.flatMap_iff, List.forall_mem_map] at hsteps ⊢
  exact ⟨⟨⟨hname, singleLines_map_name htags⟩, hsteps⟩, hnodes⟩

theorem scenarios_yields {language : Language} (hwords : SingleLines language.keptWords) :
    (scenarios language).Yields fun nodes =>
      ∀ node ∈ nodes, SingleLines node.value.toScenario.inlineTexts := by
  have hscenario : (scenario language).Yields fun node =>
      SingleLines node.value.toScenario.inlineTexts :=
    .either (scenarioWith_yields hwords _) (scenarioWith_yields hwords _)
  exact .bind' fun _ => .orEmpty_separated hscenario hscenario

theorem rule_yields {language : Language} (hwords : SingleLines language.keptWords) :
    (rule language).Yields fun node => SingleLines node.value.toRule.inlineTexts := by
  refine .bind' fun _ => .bind tags_yields fun tags htags => .bind' fun _ => ?_
  refine .located (.bind' fun _ => .bind' fun _ => ?_)
  refine .bind headingText_yields fun name hname => ?_
  refine .bind' fun _ => .bind (background_yields hwords).optional ?_
  intro background hbackground
  refine .bind' fun _ => .bind (scenarios_yields hwords) fun nodes hnodes => ?_
  refine .bind' fun _ => .pure fun _ => ?_
  simp only [Rule.inlineTexts, RuleNode.toRule, SingleLines.append_iff, SingleLines.cons_iff,
    SingleLines.flatMap_iff]
  refine ⟨⟨⟨hname, singleLines_map_name htags⟩, fun b hb => ?_⟩, fun s hs => ?_⟩
  · obtain ⟨node, rfl, rfl⟩ := Option.map_eq_some_iff.mp (Option.mem_toList.mp hb)
    exact hbackground node rfl
  · obtain ⟨node, hnode, rfl⟩ := List.mem_map.mp hs
    exact hnodes node hnode

theorem rules_yields {language : Language} (hwords : SingleLines language.keptWords) :
    (rules language).Yields fun nodes =>
      ∀ node ∈ nodes, SingleLines node.value.toRule.inlineTexts :=
  .bind' fun _ => .orEmpty_separated (rule_yields hwords) (rule_yields hwords)

theorem languageLine_yields_known :
    languageLine.Yields fun language => ∃ code, Language.ofCode? code = some language := by
  refine .bind' fun _ => .bind' fun _ => .bind' fun _ => .bind' fun _ => .bind' fun _ => ?_
  refine .bind' fun _ => .bind' fun _ => .bind' fun _ => .bind' fun code => .bind' fun _ => ?_
  refine .bind' fun _ => .bind .insist fun _ hknown => .pure ⟨code, ?_⟩
  obtain ⟨language, hlanguage⟩ := Option.isSome_iff_exists.mp hknown
  rw [hlanguage, Option.getD_some]

/-- The language that a file is read in, also if it names none, is a known one. -/
theorem optional_languageLine_yields_known :
    (Parser.optional languageLine).Yields fun found =>
      ∃ code, Language.ofCode? code = some (found.getD .english) := by
  refine languageLine_yields_known.optional.mono fun found hfound => ?_
  cases found with
  | none => exact ⟨"en".toList, rfl⟩
  | some language => exact hfound language rfl

namespace Outline

/-- The inline texts of a feature, wherever its parts come to stand. -/
structure HasSingleLines (outline : Outline) : Prop where
  name : '\n' ∉ outline.name
  tags : SingleLines outline.tags
  parts : ∀ part ∈ outline.parts, SingleLines part.value.inlineTexts

theorem HasSingleLines.toFeature {outline : Outline} (h : outline.HasSingleLines) :
    SingleLines outline.toFeature.inlineTexts := by
  simp only [Feature.inlineTexts, SingleLines.append_iff, SingleLines.cons_iff,
    SingleLines.flatMap_iff]
  refine ⟨⟨h.name, singleLines_map_name h.tags⟩, fun child hchild => ?_⟩
  obtain ⟨part, hpart, rfl⟩ := List.mem_map.mp hchild
  exact h.parts part ((sortBy_perm _ outline.parts).mem_iff.mp hpart)

end Outline

theorem featureBody_yields {language : Language} (hwords : SingleLines language.keptWords) :
    (featureBody language).Yields Outline.HasSingleLines := by
  refine .bind' fun _ => .bind tags_yields fun tags htags => .bind' fun _ => .bind' fun _ => ?_
  refine .bind headingText_yields fun name hname => .bind' fun _ => ?_
  refine .bind (background_yields hwords).optional fun background hbackground => ?_
  refine .bind' fun _ => .bind (scenarios_yields hwords) fun scenarios hscenarios => ?_
  refine .bind' fun _ => .bind (rules_yields hwords) fun rules hrules => ?_
  refine .bind' fun _ => .pure ⟨hname, htags, fun part hpart => ?_⟩
  simp only [Outline.parts, List.mem_append, List.mem_map, Option.mem_toList] at hpart
  rcases hpart with (⟨node, hnode, rfl⟩ | ⟨node, hnode, rfl⟩) | ⟨node, hnode, rfl⟩
  · exact hbackground node hnode
  · exact hscenarios node hnode
  · exact hrules node hnode

theorem feature_yields : feature.Yields Outline.HasSingleLines := by
  refine .unspoiled (.bind' fun _ => .bind optional_languageLine_yields_known fun _ hknown => ?_)
  obtain ⟨code, hcode⟩ := hknown
  exact featureBody_yields (Language.singleLines_keptWords hcode)

/-- Whatever text is read, nothing in its document goes over several lines but descriptions. -/
theorem parsed_texts_are_single_lines {text : Text} {document : Document}
    (h : parse text = .ok document) : SingleLines document.feature.inlineTexts := by
  obtain ⟨outline, houtline, rfl⟩ := parse_eq_ok h
  exact (feature_yields _ _ _ (outline?_eq_ok houtline)).toFeature

theorem parsed_texts_are_single_lines_beside_description :
    ∃ document,
      parse "@t\nFeature: F\ntwo\nlines\nRule: R\nScenario: S\nGiven g\n|a|\n|1|2|\n".toList =
        .ok document ∧
      document.feature.description = some "two\nlines".toList ∧
      document.feature.inlineTexts =
        ["F", "t", "R", "S", "Given ", "g", "a", "1"].map String.toList ∧
      SingleLines document.feature.inlineTexts := by
  generalize htext :
    "@t\nFeature: F\ntwo\nlines\nRule: R\nScenario: S\nGiven g\n|a|\n|1|2|\n".toList = text
  have hread : (parse text).toOption.map
      (fun document => (document.feature.description, document.feature.inlineTexts)) =
      some (some "two\nlines".toList,
        ["F", "t", "R", "S", "Given ", "g", "a", "1"].map String.toList) := by
    subst text
    decide +kernel
  obtain ⟨document, hdocument, hparts⟩ := Option.map_eq_some_iff.mp hread
  obtain ⟨hdescription, htexts⟩ := Prod.mk.inj hparts
  have hparse := eq_ok_of_toOption hdocument
  exact ⟨document, hparse, hdescription, htexts, parsed_texts_are_single_lines hparse⟩

end FeatureMarkdown.Gherkin
