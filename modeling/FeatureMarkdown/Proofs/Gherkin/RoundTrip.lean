import FeatureMarkdown.Proofs.Gherkin.LineOrder
import FeatureMarkdown.Proofs.Gherkin.PlainParts

namespace FeatureMarkdown

namespace Gherkin

open FeatureMarkdown.Gherkin.Parser
open FeatureMarkdown.Gherkin.Layout

variable {s : Text} {more : List Text}

section Examples

theorem ahead_examplesLines (e : Examples) (more : List Text) :
    ahead (examplesLines e ++ more) = "Examples".toList ++ (":".toList ++
      '\n' :: LineEnding.lf.endLines (e.table.toList.flatMap tableLines ++ more)) := by
  rw [examplesLines, List.cons_append, ahead_blank, List.cons_append,
    ahead_indented (by decide) (by decide)]
  rfl

theorem examples_reads {e : Examples} (h : e.IsPlain) (hmore : HeadIn examplesHeads (ahead more)) :
    (examples .english).ReadsAs ExamplesNode.toExamples (ahead (examplesLines e ++ more)) e
      (ahead more) := by
  obtain ⟨t, ht, hplain⟩ := h.table
  have htable : ∀ other ∈ e.table, other.IsPlain := by
    rw [ht]
    rintro other ⟨⟩
    exact hplain
  have hbar : "|".toList <+: ahead (e.table.toList.flatMap tableLines ++ more) := by
    rw [ht, Option.toList_some, List.flatMap_singleton]
    exact bar_prefix_tableLines hplain more
  have hrow := headIn_optionalTable htable (hmore.mono (by decide))
  have hpure : (Pure.pure ⟨"Examples".toList, e.table⟩ : Parser ExamplesNode).ReadsAs
      ExamplesNode.toExamples (ahead more) e (ahead more) := by
    have hnode : ExamplesNode.toExamples ⟨"Examples".toList, e.table⟩ = e := by
      have hcolons : Text.trimEndColons "Examples".toList = "Examples".toList := by decide
      rw [ExamplesNode.toExamples, hcolons, ← h.keyword]
    exact hnode ▸ .pure _ _
  rw [ahead_examplesLines]
  have hs (rest : Text) : Settled ("Examples".toList ++ rest) :=
    Settled.append (by decide) (by decide) rest
  exact .bind (.skip (hs _).skipComments) <| .bind (.skip (hs _).skipSpaces) <|
    .bind (tags_reads_nil (hs _) (not_prefix_of_clash (by decide) _)) <|
    .bind (.skip (hs _).skipSpaces) <|
    .bind (keyword_reads (by decide) (by decide) (by decide) _) <| .bind (.literal _ _) <|
    .bind (headingText_reads_nil _) <|
    .bind (description_reads_none (settled_of_headIn hrow) (.inr ⟨"|".toList, by decide, hbar⟩)) <|
    .bind (optional_table_reads htable (hmore.mono (by decide))) hpure

theorem examples_readsLines {e : Examples} (h : e.IsPlain) :
    ReadsLines (examples .english) examplesLines (fun more => HeadIn examplesHeads (ahead more))
      ExamplesNode.toExamples id e where
  fits more := by
    rw [ahead_examplesLines]
    exact HeadIn.append (by decide) (by decide) _
  shorter more := by
    rw [examplesLines, List.cons_append, ahead_blank]
    exact length_ahead_lt (by decide) (by decide) 4 _ more
  reads _ hmore := examples_reads h hmore

end Examples

section Scenarios

theorem scenarioKeyword_cases (scenario : Scenario) :
    (scenario.examples = [] ∧ scenarioKeyword scenario = "Scenario".toList) ∨
      scenario.examples ≠ [] ∧ scenarioKeyword scenario = "Scenario Outline".toList := by
  by_cases h : scenario.examples = [] <;> simp [scenarioKeyword, h]

theorem headIn_scenarioKeyword (scenario : Scenario) :
    HeadIn ['S'] (scenarioKeyword scenario) := by
  rcases scenarioKeyword_cases scenario with ⟨-, heq⟩ | ⟨-, heq⟩ <;> rw [heq] <;> decide

theorem scenarioKeyword_ne_nil (scenario : Scenario) : scenarioKeyword scenario ≠ [] := by
  rcases scenarioKeyword_cases scenario with ⟨-, heq⟩ | ⟨-, heq⟩ <;> rw [heq] <;> decide

theorem settled_scenarioHeading (scenario : Scenario) : Settled (scenarioHeading scenario) :=
  (headIn_scenarioKeyword scenario).append (scenarioKeyword_ne_nil scenario) _ |>.settled
    (by decide)

theorem scenarioHeading_ne_nil (scenario : Scenario) : scenarioHeading scenario ≠ [] := by
  simp [scenarioHeading]

theorem ahead_scenarioLines (scenario : Scenario) (more : List Text) :
    ahead (scenarioLines scenario ++ more) =
      ahead (tagLines 2 scenario.tags ++ indented 2 (scenarioHeading scenario) ::
        (scenario.steps.flatMap stepLines ++
          (scenario.examples.flatMap examplesLines ++ more))) := by
  rw [scenarioLines, List.cons_append, ahead_blank]
  simp

theorem scenario_prefix_scenarioKeyword (scenario : Scenario) :
    "Scenario".toList <+: scenarioKeyword scenario := by
  rcases scenarioKeyword_cases scenario with ⟨-, heq⟩ | ⟨-, heq⟩
  · exact heq ▸ List.prefix_rfl
  · rw [heq]
    decide

/-- A scenario begins with its tags or with its heading. -/
theorem prefix_scenarioLines (scenario : Scenario) (more : List Text) :
    "@".toList <+: ahead (scenarioLines scenario ++ more) ∨
      "Scenario".toList <+: ahead (scenarioLines scenario ++ more) := by
  rw [ahead_scenarioLines]
  cases scenario.tags with
  | nil =>
      rw [tagLines, if_pos rfl, List.nil_append, ahead_indented (settled_scenarioHeading scenario)
        (scenarioHeading_ne_nil scenario), scenarioHeading, List.append_assoc]
      exact .inr ((scenario_prefix_scenarioKeyword scenario).trans (List.prefix_append _ _))
  | cons tag tags =>
      rw [ahead_tagLines_cons]
      exact .inl ⟨_, rfl⟩

theorem headIn_scenarioLines (scenario : Scenario) (more : List Text) :
    HeadIn scenarioHeads (ahead (scenarioLines scenario ++ more)) := by
  rcases prefix_scenarioLines scenario more with ⟨rest, heq⟩ | ⟨rest, heq⟩
  · exact heq ▸ HeadIn.append (by decide) (by decide) rest
  · exact heq ▸ HeadIn.append (by decide) (by decide) rest

/-- What is left of a scenario behind its tags. -/
def fromHeading (scenario : Scenario) (more : List Text) : Text :=
  scenarioKeyword scenario ++ (":".toList ++ ' ' :: (scenario.name ++ '\n' ::
    LineEnding.lf.endLines (scenario.steps.flatMap stepLines ++
      (scenario.examples.flatMap examplesLines ++ more))))

theorem settled_fromHeading (scenario : Scenario) (more : List Text) :
    Settled (fromHeading scenario more) :=
  ((headIn_scenarioKeyword scenario).settled (by decide)).append (scenarioKeyword_ne_nil scenario) _

/-- The tags of a scenario, up to its heading. -/
theorem scenario_tags_reads {scenario : Scenario} (h : scenario.IsPlain) (more : List Text) :
    ∃ left, tags.Reads (ahead (scenarioLines scenario ++ more)) (scenario.tags.map Tag.name) left ∧
      skipSpaces left = fromHeading scenario more := by
  have hs := settled_scenarioHeading scenario
  have hne := scenarioHeading_ne_nil scenario
  have hat : ¬ "@".toList <+: scenarioHeading scenario :=
    not_prefix_of_headIn ((headIn_scenarioKeyword scenario).append (scenarioKeyword_ne_nil _) _)
      (by decide) (by decide)
  obtain ⟨depth, -, hreads⟩ := tags_reads h.tags hs hne hat 2
    (scenario.steps.flatMap stepLines ++ (scenario.examples.flatMap examplesLines ++ more))
  rw [← ahead_scenarioLines] at hreads
  refine ⟨_, hreads, (skipSpaces_replicate depth _).trans ?_⟩
  rw [(hs.append hne _).skipSpaces, scenarioHeading, List.append_assoc, List.append_assoc]
  rfl

section Heading

variable {α γ : Type} {scenario : Scenario} {f : List Text → Parser α} {g : α → γ} {c : γ}
  {rest : Text}

/-- A parser that reads the tags first goes on at the heading. -/
theorem reads_behind_tags (h : scenario.IsPlain)
    (hf : (f (scenario.tags.map Tag.name)).ReadsAs g (fromHeading scenario more) c rest) :
    (do skip skipComments; skip skipSpaces; let names ← tags; skip skipSpaces; f names).ReadsAs g
      (ahead (scenarioLines scenario ++ more)) c rest := by
  have hs : Settled (ahead (scenarioLines scenario ++ more)) :=
    (headIn_scenarioLines scenario more).settled (by decide)
  obtain ⟨left, htags, hleft⟩ := scenario_tags_reads h more
  exact .bind (.skip hs.skipComments) <| .bind (.skip hs.skipSpaces) <| .bind htags <|
    .bind (.skip hleft) hf

theorem declines_behind_tags (h : scenario.IsPlain)
    (hf : (f (scenario.tags.map Tag.name)).Declines (fromHeading scenario more)) :
    (do skip skipComments; skip skipSpaces; let names ← tags; skip skipSpaces; f names).Declines
      (ahead (scenarioLines scenario ++ more)) := by
  have hs : Settled (ahead (scenarioLines scenario ++ more)) :=
    (headIn_scenarioLines scenario more).settled (by decide)
  obtain ⟨left, htags, hleft⟩ := scenario_tags_reads h more
  exact .bind_of_reads (.skip hs.skipComments) <| .bind_of_reads (.skip hs.skipSpaces) <|
    .bind_of_reads htags <| .bind_of_reads (.skip hleft) hf

end Heading

/-- A heading of a scenario is none of examples. -/
theorem examples_declines_scenario {scenario : Scenario} (h : scenario.IsPlain)
    (more : List Text) :
    (examples .english).Declines (ahead (scenarioLines scenario ++ more)) := by
  have hs := settled_fromHeading scenario more
  refine declines_behind_tags h (.bind (keyword_declines hs fun word hword => ?_))
  rw [fromHeading, ← List.append_assoc]
  have hclash : ∀ word ∈ Language.english.examples,
      clash word (scenarioKeyword scenario ++ ":".toList) = true := by
    rcases scenarioKeyword_cases scenario with ⟨-, heq⟩ | ⟨-, heq⟩ <;> rw [heq] <;> decide
  exact not_prefix_of_clash (hclash word hword) _

theorem examples_declines_nil : (examples .english).Declines [] := by
  have hs : Settled [] := settled_nil
  exact .bind_of_reads (.skip hs.skipComments) <| .bind_of_reads (.skip hs.skipSpaces) <|
    .bind_of_reads (tags_reads_nil hs (by decide)) <| .bind_of_reads (.skip hs.skipSpaces) <|
    .bind (keyword_declines hs (by decide))

/-- Where a scenario begins or the text ends. -/
def AtScenario (more : List Text) : Prop :=
  HeadIn scenarioHeads (ahead more) ∧ (examples .english).Declines (ahead more)

theorem map_tag_new {tags : List Tag} (h : ∀ tag ∈ tags, tag.name.IsWord) :
    (tags.map Tag.name).map Tag.new = tags := by
  rw [List.map_map]
  refine (List.map_congr_left fun tag htag => ?_).trans (List.map_id tags)
  obtain ⟨c, rest, heq, hc⟩ := (h tag htag).isTight.first
  have hnew : Tag.new tag.name = ⟨tag.name⟩ := by
    unfold Tag.new
    split
    next name hname =>
      rw [heq] at hname
      obtain rfl := (List.cons.inj hname).1
      contradiction
    next => rfl
  exact hnew

/-- A step ends the description before it. -/
theorem description_reads_none_of_steps {found : List Step} (hne : found ≠ [])
    (h : ∀ step ∈ found, step.IsPlain) (hmore : HeadIn stepHeads (ahead more)) :
    (description Language.english.scenarioEnds).Reads (ahead (found.flatMap stepLines ++ more)) none
      (ahead (found.flatMap stepLines ++ more)) := by
  have hs : HeadIn stepHeads (ahead (found.flatMap stepLines ++ more)) :=
    fits_flatMap (fun step hstep => step_readsLines (h step hstep) false) hmore
  obtain ⟨first, others, rfl⟩ := List.exists_cons_of_ne_nil hne
  have hfirst := h first List.mem_cons_self
  refine description_reads_none (hs.settled (by decide)) (.inr ⟨spaced first.keyword, ?_, ?_⟩)
  · rcases spaced_keyword_cases hfirst with heq | heq | heq <;> rw [heq] <;> decide
  · rw [List.flatMap_cons, List.append_assoc, ahead_stepLines hfirst]
    exact List.prefix_append _ _

/-- What a scenario is in the document, wherever it stands. -/
def scenarioOf : Located ScenarioNode → Scenario :=
  ScenarioNode.toScenario ∘ Located.value

theorem scenarioWith_reads {scenario : Scenario} (h : scenario.IsPlain) {words : List Text}
    (hwords : words.find? (fun other => !clash other (scenarioKeyword scenario)) =
      some (scenarioKeyword scenario)) (hmore : AtScenario more) :
    (scenarioWith .english words).ReadsAs scenarioOf (ahead (scenarioLines scenario ++ more))
      (scenario.mapKeywords spaced) (ahead more) := by
  have hexamples := fun e he => examples_readsLines (h.examples e he)
  have hheads : HeadIn examplesHeads (ahead more) := hmore.1.mono (by decide)
  have hfit := fits_flatMap hexamples hheads
  have hblocks := many_reads_lines hexamples hheads hmore.2
  have hnode (nodes : List ExamplesNode)
      (hnodes : nodes.map ExamplesNode.toExamples = scenario.examples.map id) :
      ScenarioNode.toScenario ⟨scenario.name, none, scenario.tags.map Tag.name,
        scenario.steps.map (Step.mapKeyword spaced), nodes⟩ = scenario.mapKeywords spaced := by
    rw [ScenarioNode.toScenario, hnodes, map_tag_new h.tags, Scenario.mapKeywords, h.description,
      List.map_id]
  refine reads_behind_tags h <| .located <|
    .bind (keyword_reads hwords ((headIn_scenarioKeyword scenario).settled (by decide))
      (scenarioKeyword_ne_nil scenario) _) <| .bind (.literal _ _) <|
    .bind (headingText_reads h.name.isTight _) <|
    .bind (description_reads_none_of_steps h.steps_ne_nil h.steps (hfit.mono (by decide))) <|
    .bind (steps_reads h.steps_ne_nil h.steps hfit) <| .bindAs hblocks fun nodes hnodes => ?_
  exact hnode nodes hnodes ▸ .pure _ _

/-- The word of a scenario is found in the heading of an outline, but no colon after it. -/
theorem scenarioWith_declines_outline {scenario : Scenario} (h : scenario.IsPlain)
    (hkeyword : scenarioKeyword scenario = "Scenario Outline".toList) (more : List Text) :
    (scenarioWith .english Language.english.scenario).Declines
      (ahead (scenarioLines scenario ++ more)) := by
  refine declines_behind_tags h <| .located ?_
  have houtline : "Scenario Outline".toList = "Scenario".toList ++ " Outline".toList := by decide
  rw [fromHeading, hkeyword, houtline, List.append_assoc]
  exact .bind_of_reads (keyword_reads (by decide) (by decide) (by decide) _) <|
    .bind (.literal (not_prefix_of_clash (by decide) _))

theorem scenario_reads {scenario : Scenario} (h : scenario.IsPlain) (hmore : AtScenario more) :
    (Gherkin.scenario .english).ReadsAs scenarioOf (ahead (scenarioLines scenario ++ more))
      (scenario.mapKeywords spaced) (ahead more) := by
  rcases scenarioKeyword_cases scenario with ⟨-, heq⟩ | ⟨-, heq⟩
  · have hwords : Language.english.scenario.find? (fun other =>
        !clash other (scenarioKeyword scenario)) = some (scenarioKeyword scenario) := by
      rw [heq]
      decide
    exact .either (scenarioWith_reads h hwords hmore)
  · have hwords : Language.english.scenarioOutline.find? (fun other =>
        !clash other (scenarioKeyword scenario)) = some (scenarioKeyword scenario) := by
      rw [heq]
      decide
    exact .either_of_declines (scenarioWith_declines_outline h heq more)
      (scenarioWith_reads h hwords hmore)

theorem scenario_readsLines {scenario : Scenario} (h : scenario.IsPlain) :
    ReadsLines (Gherkin.scenario .english) scenarioLines AtScenario scenarioOf
      (Scenario.mapKeywords spaced) scenario where
  fits more := ⟨headIn_scenarioLines scenario more, examples_declines_scenario h more⟩
  shorter more := by
    rw [ahead_scenarioLines]
    cases scenario.tags with
    | nil =>
        rw [tagLines, if_pos rfl, List.nil_append, ← List.append_assoc]
        exact length_ahead_lt (settled_scenarioHeading scenario) (scenarioHeading_ne_nil scenario) 2
          _ more
    | cons tag tags =>
        rw [tagLines, if_neg (List.cons_ne_nil tag tags), List.singleton_append,
          ← List.append_assoc, ← List.cons_append]
        exact length_ahead_lt (settled_tagText tag tags) (tagText_ne_nil tag tags) 2 _ more
  reads _ hmore := scenario_reads h hmore

theorem scenario_declines_nil : (scenario .english).Declines [] := by
  have hs : Settled [] := settled_nil
  have hwith {words : List Text} (hwords : ∀ word ∈ words, ¬ word <+: []) :
      (scenarioWith .english words).Declines [] :=
    .bind_of_reads (.skip hs.skipComments) <| .bind_of_reads (.skip hs.skipSpaces) <|
      .bind_of_reads (tags_reads_nil hs (by decide)) <| .bind_of_reads (.skip hs.skipSpaces) <|
      .located (.bind (keyword_declines hs hwords))
  exact .either (hwith (by decide)) (hwith (by decide))

theorem headIn_scenarios {found : List Scenario} (hne : found ≠ []) :
    HeadIn scenarioHeads (ahead (found.flatMap scenarioLines)) := by
  obtain ⟨first, others, rfl⟩ := List.exists_cons_of_ne_nil hne
  rw [List.flatMap_cons]
  exact headIn_scenarioLines first _

theorem scenarios_reads {found : List Scenario} (hne : found ≠ [])
    (h : ∀ scenario ∈ found, scenario.IsPlain) :
    (scenarios .english).ReadsAs (List.map scenarioOf) (ahead (found.flatMap scenarioLines))
      (found.map (Scenario.mapKeywords spaced)) [] := by
  have hlines : ∀ member ∈ found, ReadsLines (scenario .english) scenarioLines
      AtScenario scenarioOf (Scenario.mapKeywords spaced) member :=
    fun member hmember => scenario_readsLines (h member hmember)
  have hend : AtScenario [] := ⟨by simp [HeadIn], by simpa using examples_declines_nil⟩
  have hreads := separated_reads_lines hne hlines hlines
    (fun _ hfit => hfit.1.settled (by decide)) hend (by simpa using scenario_declines_nil)
  have hs : Settled (ahead (found.flatMap scenarioLines)) :=
    (headIn_scenarios hne).settled (by decide)
  rw [List.append_nil, ahead_nil] at hreads
  exact .bind (.skip hs.skipSpaces) (.orEmpty hreads)

end Scenarios

section Features

theorem ahead_backgroundLines (b : Background) (more : List Text) :
    ahead (backgroundLines b ++ more) = "Background".toList ++ (":".toList ++
      '\n' :: LineEnding.lf.endLines (b.steps.flatMap stepLines ++ more)) := by
  rw [backgroundLines, List.cons_append, ahead_blank, List.cons_append,
    ahead_indented (by decide) (by decide)]
  rfl

theorem background_reads {b : Background} (h : b.IsPlain)
    (hmore : HeadIn scenarioHeads (ahead more)) :
    (background .english).ReadsAs Located.value (ahead (backgroundLines b ++ more))
      (b.mapKeywords spaced) (ahead more) := by
  have hs (rest : Text) : Settled ("Background".toList ++ rest) :=
    Settled.append (by decide) (by decide) rest
  rw [ahead_backgroundLines]
  refine .bind (.skip (hs _).skipComments) <| .bind (.skip (hs _).skipSpaces) <|
    ReadsAs.located (g := id) ?_
  exact .bind (keyword_reads (by decide) (by decide) (by decide) _) <| .bind (.literal _ _) <|
    .bind (headingText_reads_nil _) <|
    .bind (description_reads_none_of_steps h.steps_ne_nil h.steps (hmore.mono (by decide))) <|
    .bind (steps_reads h.steps_ne_nil h.steps (hmore.mono (by decide))) <| .pure _ _

theorem optional_background_reads {found : Option Background}
    (h : ∀ b ∈ found, b.IsPlain) (hmore : HeadIn scenarioHeads (ahead more)) :
    (Parser.optional (background .english)).ReadsAs (Option.map Located.value)
      (ahead (found.toList.flatMap backgroundLines ++ more))
      (found.map (Background.mapKeywords spaced)) (ahead more) := by
  cases found with
  | none =>
      have hs : Settled (ahead more) := hmore.settled (by decide)
      have hkeyword : (keyword Language.english.background).Declines (ahead more) :=
        keyword_declines_of_headIn hmore (by decide) (by decide)
      exact .optional_of_declines <| .bind_of_reads (.skip hs.skipComments) <|
        .bind_of_reads (.skip hs.skipSpaces) <| .located (.bind hkeyword)
  | some b =>
      rw [Option.toList_some, List.flatMap_singleton]
      exact (background_reads (h b rfl) hmore).optional

theorem rules_reads_nil : (rules .english).Reads [] [] [] := by
  have hs : Settled [] := settled_nil
  have hrule : (rule .english).Declines [] :=
    .bind_of_reads (.skip hs.skipSpaces) <| .bind_of_reads (tags_reads_nil hs (by decide)) <|
      .bind_of_reads (.skip hs.skipSpaces) <| .located (.bind (keyword_declines hs (by decide)))
  exact .bind (.skip hs.skipSpaces) (.orEmpty_of_declines (.separated hrule))

/-- A document begins with its tags or with its heading. -/
theorem headIn_print (document : Document) : HeadIn ['@', 'F'] (print document) := by
  rw [print, documentLines]
  cases document.feature.tags with
  | nil =>
      rw [tagLines, if_pos rfl, List.nil_append, endLines_cons, List.append_assoc]
      exact HeadIn.append (by decide) (by decide) _
  | cons first tags =>
      rw [tagLines, if_neg (List.cons_ne_nil first tags), List.singleton_append, endLines_cons]
      exact ((headIn_tagText first tags).mono (by decide)).append (tagText_ne_nil first tags) _

theorem ahead_documentLines (document : Document) :
    ahead (documentLines document) = print document :=
  ((headIn_print document).settled (by decide)).skipBlankLines

theorem getLast?_print (document : Document) : (print document).getLast? = some '\n' := by
  have hne : documentLines document ≠ [] := by simp [documentLines]
  obtain ⟨front, line, heq⟩ := (List.eq_nil_or_concat (documentLines document)).resolve_left hne
  rw [print, heq, List.concat_eq_append, LineEnding.endLines_append, endLines_cons,
    LineEnding.endLines_nil]
  simp

theorem flatMap_childLines (background : Option Background) (scenarios : List Scenario) :
    (background.toList.map Child.background ++ scenarios.map Child.scenario).flatMap childLines =
      background.toList.flatMap backgroundLines ++ scenarios.flatMap scenarioLines := by
  rw [List.flatMap_append, List.flatMap_map, List.flatMap_map]
  rfl

theorem description_reads_none_of_children {found : Option Background} {scenarios : List Scenario}
    (hne : scenarios ≠ []) :
    (description Language.english.featureEnds).Reads
      (ahead (found.toList.flatMap backgroundLines ++ scenarios.flatMap scenarioLines)) none
      (ahead (found.toList.flatMap backgroundLines ++ scenarios.flatMap scenarioLines)) := by
  cases found with
  | none =>
      obtain ⟨first, others, rfl⟩ := List.exists_cons_of_ne_nil hne
      refine description_reads_none ((headIn_scenarios hne).settled (by decide)) ?_
      rw [Option.toList_none, List.flatMap_nil, List.nil_append, List.flatMap_cons]
      refine (prefix_scenarioLines first _).imp_right fun hword => ?_
      exact ⟨"Scenario".toList, by decide, hword⟩
  | some b =>
      rw [Option.toList_some, List.flatMap_singleton, ahead_backgroundLines]
      refine description_reads_none (Settled.append (by decide) (by decide) _) (.inr ?_)
      exact ⟨"Background".toList, by decide, List.prefix_append _ _⟩

/-- The tags of a feature, up to its heading. -/
theorem feature_tags_reads {document : Document} (h : document.feature.IsPlain) :
    tags.Reads (print document) (document.feature.tags.map Tag.name)
      ("Feature".toList ++ (":".toList ++ ' ' :: (document.feature.name ++
        '\n' :: LineEnding.lf.endLines (document.feature.children.flatMap childLines)))) := by
  have hs : Settled ("Feature".toList ++ (":".toList ++ ' ' :: document.feature.name)) :=
    Settled.append (by decide) (by decide) _
  obtain ⟨left, hleft, hreads⟩ := tags_reads h.tags hs (by simp) (not_prefix_of_clash (by decide) _)
    0 (document.feature.children.flatMap childLines)
  obtain rfl := Nat.le_zero.mp hleft
  have htext : print document = ahead (tagLines 0 document.feature.tags ++
      indented 0 ("Feature".toList ++ (":".toList ++ ' ' :: document.feature.name)) ::
        document.feature.children.flatMap childLines) := by
    rw [← ahead_documentLines, documentLines]
    rfl
  rw [indented, List.replicate_zero, List.nil_append, List.append_assoc, List.append_assoc]
    at hreads
  exact htext ▸ hreads

theorem map_value_parts {outline : Outline} {background : Option Background}
    {found : List Scenario}
    (hbackground : outline.background.map Located.value =
      background.map (Background.mapKeywords spaced))
    (hscenarios : outline.scenarios.map scenarioOf = found.map (Scenario.mapKeywords spaced))
    (hrules : outline.rules = []) :
    outline.parts.map Located.value = (background.toList.map Child.background ++
      found.map Child.scenario).map (Child.mapKeywords spaced) := by
  have hfirst : outline.background.toList.map Located.value =
      background.toList.map (Background.mapKeywords spaced) := by
    rw [← Option.toList_map, hbackground, Option.toList_map]
  have hchildren := congrArg (List.map Child.background) hfirst
  have hothers := congrArg (List.map Child.scenario) hscenarios
  rw [List.map_map, List.map_map] at hchildren hothers
  simp only [Outline.parts, hrules, List.map_append, List.map_map, List.map_nil, List.append_nil]
  exact congr (congrArg (· ++ ·) hchildren) hothers

/-- The feature is found with its background and its scenarios in their places. -/
theorem featureBody_reads {document : Document} (h : document.feature.IsPlain) :
    (featureBody .english).ReadsAs Outline.unsorted (print document)
      (document.mapKeywords spaced).feature [] := by
  obtain ⟨background, found, hchildren, hbackground, hne, hfound⟩ := h.children
  have hheads := headIn_scenarios hne
  have hs : Settled (print document) := (headIn_print document).settled (by decide)
  have hend : Settled [] := settled_nil
  have htags := feature_tags_reads h
  rw [hchildren, flatMap_childLines] at htags
  have hkeyword (rest : Text) :
      (keyword Language.english.feature).Reads ("Feature".toList ++ rest) "Feature".toList rest :=
    keyword_reads (by decide) (by decide) (by decide) rest
  refine .bind (.skip hs.skipLineEnds) <| .bind htags <| .bind (hkeyword _) <|
    .bind (.literal _ _) <| .bind (headingText_reads h.name.isTight _) <|
    .bind (description_reads_none_of_children hne) <|
    .bindAs (optional_background_reads hbackground hheads) fun node hnode =>
    .bind (.skip (hheads.settled (by decide)).skipLineEnds) <|
    .bindAs (scenarios_reads hne hfound) fun nodes hnodes => .bind (.skip hend.skipLineEnds) <|
    .bind rules_reads_nil <| .bind (.skip hend.skipLineEnds) ?_
  let outline : Outline := ⟨document.feature.name, none, document.feature.tags.map Tag.name, node,
    nodes, []⟩
  have hparts : outline.parts.map Located.value = _ := map_value_parts hnode hnodes rfl
  have htags' : outline.tags.map Tag.new = document.feature.tags := map_tag_new h.tags
  have hfeature : outline.unsorted = (document.mapKeywords spaced).feature := by
    rw [Outline.unsorted, hparts, htags', ← hchildren]
    exact congrArg (Feature.mk _ · _ _) h.description.symm
  exact hfeature ▸ .pure outline _

end Features

/-- A plain document that is printed in the usual layout is read back with its keywords spaced. -/
theorem parse_print_eq {document : Document} (h : document.feature.IsPlain) :
    parse (print document) = .ok (document.mapKeywords spaced) := by
  have hs : Settled (print document) := (headIn_print document).settled (by decide)
  have hlanguage : languageLine.Declines (print document) :=
    .bind_of_reads (.skipUnrecorded hs.skipSpacesAndBreaks) <| .bind_of_reads (.note _ _) <|
      .bind (.literal (not_prefix_of_headIn (headIn_print document) (by decide) (by decide)))
  have hreads : feature.ReadsAs Outline.unsorted (print document)
      (document.mapKeywords spaced).feature [] :=
    .unspoiled <| .bind (.skip hs.skipSpaces) <|
      .bind (.optional_of_declines hlanguage) (featureBody_reads h)
  obtain ⟨outline, misses, breaks, hunsorted, hreply⟩ := hreads [(print document).length]
  have houtline : outline? (print document) = .ok outline := by
    rw [outline?, hreply]
  have hend : endWithLineFeed (print document) = print document := if_pos (getLast?_print document)
  rw [parse, hend, houtline]
  simp only [toFeature_of_outline? houtline, hunsorted]

theorem trim_spaced (keyword : Text) : Text.trim (spaced keyword) = Text.trim keyword :=
  Text.trim_trim_append_space keyword

/-- A plain document that is printed in the usual layout is read back as it was but for the blanks
around the keywords of its steps. -/
theorem parse_print {document : Document} (h : document.feature.IsPlain) :
    ∃ parsed, parse (print document) = .ok parsed ∧
      parsed.mapKeywords Text.trim = document.mapKeywords Text.trim := by
  refine ⟨document.mapKeywords spaced, parse_print_eq h, ?_⟩
  rw [Document.mapKeywords_mapKeywords]
  exact congrArg (document.mapKeywords ·) (funext trim_spaced)

theorem parse_print_pantry :
    pantry.feature.IsPlain ∧ ∃ parsed, parse (print pantry) = .ok parsed ∧
      parsed.mapKeywords Text.trim = pantry.mapKeywords Text.trim := by
  have hshelves : ∀ table ∈ some (Table.mk [["item".toList, "count".toList],
      ["red apples".toList, "3".toList]]), table.IsPlain := by
    rintro _ ⟨⟩
    exact ⟨⟨_, _, rfl, by decide⟩, by decide, by decide⟩
  have hnumbers : Table.IsPlain ⟨[["n".toList], ["1".toList]]⟩ :=
    ⟨⟨_, _, rfl, by decide⟩, by decide, by decide⟩
  have hheader : Table.IsPlain ⟨[["n".toList]]⟩ :=
    ⟨⟨_, _, rfl, by decide⟩, by decide, by decide⟩
  have hplain : pantry.feature.IsPlain := by
    refine ⟨by decide, rfl, by decide, some _, [_, _], rfl, ?_, by decide,
      List.forall_mem_cons.mpr ⟨?_, List.forall_mem_singleton.mpr ?_⟩⟩
    case refine_1 =>
      rintro _ ⟨⟩
      exact ⟨by decide, List.forall_mem_singleton.mpr ⟨by decide, by decide, hshelves⟩⟩
    case refine_2 =>
      exact ⟨by decide, rfl, by decide, by decide, List.forall_mem_cons.mpr
        ⟨⟨by decide, by decide, nofun⟩,
          List.forall_mem_singleton.mpr ⟨by decide, by decide, nofun⟩⟩, nofun⟩
    case refine_3 =>
      exact ⟨by decide, rfl, by decide, by decide,
        List.forall_mem_singleton.mpr ⟨by decide, by decide, nofun⟩, List.forall_mem_cons.mpr
          ⟨⟨rfl, _, rfl, hnumbers⟩, List.forall_mem_singleton.mpr ⟨rfl, _, rfl, hheader⟩⟩⟩
  exact ⟨hplain, parse_print hplain⟩

end Gherkin

end FeatureMarkdown
