import FeatureMarkdown.Proofs.Gherkin.Advances
import FeatureMarkdown.Proofs.Gherkin.EvenTables
import FeatureMarkdown.Proofs.Gherkin.Merging

/-!
The lines of the parts of a feature. They are looked up among the line breaks that have been
recorded, and readings that are given up leave theirs, so a line need not be the one in the file.
But line breaks are only ever added, and each part is looked up behind the one before it, so lines
never decrease and sorting by them leaves the parts where they are.
-/

namespace FeatureMarkdown

theorem sortBy_eq_self {α : Type} {le : α → α → Bool} {l : List α} (h : l.Pairwise (le · ·)) :
    sortBy le l = l := by
  induction l with
  | nil => rfl
  | cons a rest ih =>
      obtain ⟨ha, hrest⟩ := List.pairwise_cons.mp h
      rw [sortBy, ih hrest]
      cases rest with
      | nil => rfl
      | cons b rest => rw [insertBy, if_pos (ha b List.mem_cons_self)]

namespace Gherkin

open FeatureMarkdown.Gherkin.Parser

variable {α β γ : Type}

/-- A place further on is on no earlier line, whatever has been recorded in between. -/
theorem lineAt_mono {before after : List Nat} {left further : Nat} (hgrown : before <:+ after)
    (hle : further ≤ left) : lineAt before left ≤ lineAt after further := by
  obtain ⟨recent, rfl⟩ := hgrown
  have hfurther : before.reverse.findIdx (· < left) ≤ before.reverse.findIdx (· < further) := by
    refine List.findIdx_le_findIdx fun known _ hknown => ?_
    rw [decide_eq_true_eq] at hknown ⊢
    exact Nat.lt_of_lt_of_le hknown hle
  rw [lineAt, lineAt, List.reverse_append, List.findIdx_append]
  split
  · exact hfurther
  · exact Nat.le_trans List.findIdx_le_length (Nat.le_add_left _ _)

/-- The nodes stand in the text between `s` and `rest`, each behind the end of the one before it.
The line of each is that of its place among the line breaks recorded at its end. -/
inductive Along : List Nat → Text → List (Located α) → List Nat → Text → Prop where
  | nil {before after : List Nat} {s rest : Text} (grown : before <:+ after) (left : rest <:+ s) :
      Along before s [] after rest
  | cons {before known after : List Nat} {s here behind rest : Text} {node : Located α}
      {nodes : List (Located α)} (grown : before <:+ known) (place : here <:+ s)
      (line : node.line = lineAt known here.length) (body : behind <:+ here ∧ behind ≠ here)
      (others : Along known behind nodes after rest) : Along before s (node :: nodes) after rest

namespace Along

variable {earlier before between after : List Nat} {s middle rest : Text}
  {nodes others : List (Located α)}

theorem suffix (h : Along before s nodes after rest) : rest <:+ s := by
  induction h with
  | nil grown left => exact left
  | cons grown place line body others ih => exact ih.trans (body.1.trans place)

theorem of_suffix (h : Along before middle nodes after rest) (hgrown : earlier <:+ before)
    (hs : middle <:+ s) : Along earlier s nodes after rest := by
  cases h with
  | nil grown left => exact .nil (hgrown.trans grown) (left.trans hs)
  | cons grown place line body others =>
      exact .cons (hgrown.trans grown) (place.trans hs) line body others

theorem append (h : Along before s nodes between middle)
    (hothers : Along between middle others after rest) :
    Along before s (nodes ++ others) after rest := by
  induction h with
  | nil grown left => exact hothers.of_suffix grown left
  | cons grown place line body _ ih => exact .cons grown place line body (ih hothers)

theorem map (h : Along before s nodes after rest) (f : α → β) :
    Along before s (nodes.map (Located.map f)) after rest := by
  induction h with
  | nil grown left => exact .nil grown left
  | cons grown place line body _ ih => exact .cons grown place line body ih

/-- A node is on no later line than its end. -/
theorem line_le {known : List Nat} {here behind : Text} {node : Located α}
    (hline : node.line = lineAt known here.length) (hbehind : behind <:+ here) :
    node.line ≤ lineAt known behind.length :=
  hline ▸ lineAt_mono List.suffix_rfl hbehind.length_le

theorem lineAt_le (h : Along before s nodes after rest) :
    ∀ node ∈ nodes, lineAt before s.length ≤ node.line := by
  induction h with
  | nil => simp
  | @cons before known after s here behind rest node nodes grown place line body others ih =>
      have hplace : lineAt before s.length ≤ node.line := line ▸ lineAt_mono grown place.length_le
      have hbehind := line_le line body.1
      rintro other hother
      rcases List.mem_cons.mp hother with rfl | hother
      · exact hplace
      · exact Nat.le_trans hplace (Nat.le_trans hbehind (ih other hother))

/-- However many line breaks are recorded twice or too late, the lines never decrease. -/
theorem byLine (h : Along before s nodes after rest) : ByLine nodes := by
  induction h with
  | nil => exact .nil
  | @cons before known after s here behind rest node nodes grown place line body others ih =>
      refine List.pairwise_cons.mpr ⟨fun other hother => ?_, ih⟩
      exact Nat.le_trans (line_le line body.1) (others.lineAt_le other hother)

end Along

namespace Parser

/-- The parser adds to the nodes in front, and those that it adds stand in order between the place
where it begins and the one where it ends. -/
def Collects (p : Parser α) (front : List (Located β)) (nodesOf : α → List (Located β)) : Prop :=
  ∀ ⦃before⦄ s a rest, (p before s).result = some (a, rest) →
    ∃ others, nodesOf a = front ++ others ∧ Along before s others (p.recorded before s) rest

namespace Collects

variable {p q : Parser α} {f : α → Parser β} {front : List (Located γ)}
  {nodesOf : α → List (Located γ)} {nodesOf' : β → List (Located γ)}

theorem along (hp : p.Collects [] nodesOf) {before : List Nat} {s rest : Text} {a : α}
    (h : (p before s).result = some (a, rest)) :
    Along before s (nodesOf a) (p.recorded before s) rest := by
  obtain ⟨others, hothers, halong⟩ := hp s a rest h
  exact hothers ▸ halong

theorem advances (hp : p.Collects [] nodesOf) : p.Advances :=
  fun _ _ _ _ h => (hp.along h).suffix

theorem pure {a : α} (h : nodesOf a = front) : (Pure.pure a : Parser α).Collects front nodesOf := by
  intro before s b rest hs
  obtain ⟨rfl, rfl⟩ := Prod.mk.inj (Option.some.inj hs)
  exact ⟨[], by rw [h, List.append_nil], .nil List.suffix_rfl List.suffix_rfl⟩

/-- A first part in which no nodes are looked for. -/
theorem behind (hp : p.Advances) (hf : ∀ a, (f a).Collects front nodesOf') :
    (p >>= f).Collects front nodesOf' := by
  intro before s b rest h
  obtain ⟨a, middle, hmiddle, hrest⟩ := bind_eq_some h
  obtain ⟨others, hothers, halong⟩ := hf a middle b rest hrest
  refine ⟨others, hothers, ?_⟩
  rw [recorded, bind_of_some hmiddle, List.append_assoc]
  exact halong.of_suffix (suffix_recorded p before s) (hp s a middle hmiddle)

theorem bind (hp : p.Collects [] nodesOf)
    (hf : ∀ a, (f a).Collects (front ++ nodesOf a) nodesOf') :
    (p >>= f).Collects front nodesOf' := by
  intro before s b rest h
  obtain ⟨a, middle, hmiddle, hrest⟩ := bind_eq_some h
  obtain ⟨others, hothers, halong⟩ := hf a middle b rest hrest
  refine ⟨nodesOf a ++ others, by rw [hothers, List.append_assoc], ?_⟩
  rw [recorded, bind_of_some hmiddle, List.append_assoc]
  exact (hp.along hmiddle).append halong

theorem map (hp : p.Collects [] nodesOf) (g : γ → β) :
    p.Collects [] fun a => (nodesOf a).map (Located.map g) :=
  fun _ _ _ _ h => ⟨_, rfl, (hp.along h).map g⟩

theorem either (hp : p.Collects front nodesOf) (hq : q.Collects front nodesOf) :
    (Parser.either p q).Collects front nodesOf := by
  intro before s a rest h
  rcases either_eq_some h with h | ⟨hnone, h⟩
  · rw [recorded, either_of_some h]
    exact hp s a rest h
  · obtain ⟨others, hothers, halong⟩ := hq s a rest h
    refine ⟨others, hothers, ?_⟩
    rw [recorded, either_of_none hnone, List.append_assoc]
    exact halong.of_suffix (suffix_recorded p before s) List.suffix_rfl

theorem located (hp : p.Consumes) : (Parser.located p).Collects [] fun node => [node] := by
  intro before s node rest h
  obtain ⟨hvalue, hline⟩ := located_eq_some h
  exact ⟨[node], rfl, .cons (suffix_recorded p before s) List.suffix_rfl hline
    (hp s node.value rest hvalue) (.nil List.suffix_rfl List.suffix_rfl)⟩

section Lists

variable {p : Parser (Located γ)}

theorem optional (hp : p.Collects [] fun node => [node]) :
    (Parser.optional p).Collects [] Option.toList := by
  intro before s found rest h
  rcases optional_eq_some h with ⟨node, rfl, hnode⟩ | ⟨rfl, rfl⟩
  · refine ⟨[node], rfl, ?_⟩
    rw [recorded, optional_of_some hnode]
    exact hp.along hnode
  · exact ⟨[], rfl, .nil (suffix_recorded _ before _) List.suffix_rfl⟩

theorem many (hp : p.Collects [] fun node => [node]) :
    Parser.Collects (Parser.many p) [] id := by
  intro before s nodes rest h
  refine ⟨nodes, rfl, ?_⟩
  induction nodes generalizing before s with
  | nil =>
      rcases many_eq_some h with ⟨-, rfl⟩ | ⟨_, _, _, hcons, -⟩
      · exact .nil (suffix_recorded _ before _) List.suffix_rfl
      · contradiction
  | cons node others ih =>
      rcases many_eq_some h with ⟨hnil, -⟩ | ⟨_, _, middle, hcons, hfirst, hlt, hothers⟩
      · contradiction
      · obtain ⟨rfl, rfl⟩ := List.cons.inj hcons
        unfold recorded
        rw [many_of_some hfirst hlt, List.append_assoc]
        exact (hp.along hfirst).append (ih middle hothers)

theorem separated {blank : Text → Text} (hblank : ∀ s, blank s <:+ s)
    (hp : p.Collects [] fun node => [node]) : (Parser.separated blank p p).Collects [] id :=
  .bind hp fun _ => .bind (.many (.behind (.skip hblank) fun _ => hp)) fun _ => .pure rfl

theorem orEmpty {p : Parser (List (Located γ))} (hp : p.Collects [] id) :
    (Parser.orEmpty p).Collects [] id :=
  .either hp (.pure rfl)

end Lists

theorem unspoiled (hp : p.Collects front nodesOf) :
    (Parser.unspoiled p).Collects front nodesOf := by
  intro before s a rest h
  have hsame := unspoiled_eq_some h
  rw [recorded, hsame]
  exact hp s a rest (hsame ▸ h)

end Collects

end Parser

variable (language : Language)

theorem background_collects : (background language).Collects [] fun node => [node] := by
  refine .behind (.skip skipComments_suffix) fun _ => .behind (.skip skipSpaces_suffix) fun _ => ?_
  exact .located <| .behind (keyword_advances _) fun _ => .bind (.literal (by decide)) fun _ =>
    .bind headingText_advances fun _ => .bind (description_advances _) fun _ =>
      .bind (steps_advances language) fun _ => .pure _

theorem scenario_collects : (scenario language).Collects [] fun node => [node] := by
  have hwith (words : List Text) :
      (scenarioWith language words).Collects [] fun node => [node] := by
    refine .behind (.skip skipComments_suffix) fun _ => ?_
    refine .behind (.skip skipSpaces_suffix) fun _ => .behind tags_advances fun _ => ?_
    refine .behind (.skip skipSpaces_suffix) fun _ => ?_
    exact .located <| .behind (keyword_advances _) fun _ => .bind (.literal (by decide)) fun _ =>
      .bind headingText_advances fun _ => .bind (description_advances _) fun _ =>
        .bind (steps_advances language) fun _ =>
          .bind (.many (examples_advances language)) fun _ => .pure _
  exact .either (hwith _) (hwith _)

theorem scenarios_collects : (scenarios language).Collects [] id :=
  .behind (.skip skipSpaces_suffix) fun _ =>
    .orEmpty (.separated skipSpaces_suffix (scenario_collects language))

theorem rule_collects : (rule language).Collects [] fun node => [node] := by
  have hbackground := (background_collects language).advances
  have hscenarios := (scenarios_collects language).advances
  refine .behind (.skip skipSpaces_suffix) fun _ => .behind tags_advances fun _ => ?_
  refine .behind (.skip skipSpaces_suffix) fun _ => .located ?_
  exact .behind (keyword_advances _) fun _ => .bind (.literal (by decide)) fun _ =>
    .bind headingText_advances fun _ => .bind (description_advances _) fun _ =>
      .bind hbackground.optional fun _ => .bind (.skip skipLineEnds_suffix) fun _ =>
        .bind hscenarios fun _ => .bind (.skip skipLineEnds_suffix) fun _ => .pure _

theorem rules_collects : (rules language).Collects [] id :=
  .behind (.skip skipSpaces_suffix) fun _ =>
    .orEmpty (.separated skipSpaces_suffix (rule_collects language))

/-- What the body of a feature finds stands in the text as the list of its parts has it. -/
theorem featureBody_collects : (featureBody language).Collects [] Outline.parts := by
  have hbreaks : (skip skipLineEnds).Advances := .skip skipLineEnds_suffix
  refine .behind hbreaks fun _ => .behind tags_advances fun _ => ?_
  refine .behind (keyword_advances _) fun _ => .behind (.literal _) fun _ => ?_
  refine .behind headingText_advances fun _ => .behind (description_advances _) fun _ => ?_
  refine .bind ((background_collects language).optional.map Child.background) fun _ => ?_
  refine .behind hbreaks fun _ => .bind ((scenarios_collects language).map fun node =>
    Child.scenario node.toScenario) fun _ => ?_
  refine .behind hbreaks fun _ => .bind ((rules_collects language).map fun node =>
    Child.rule node.toRule) fun _ => ?_
  exact .behind hbreaks fun _ => .pure rfl

theorem feature_collects : feature.Collects [] Outline.parts :=
  .unspoiled <| .behind (.skip skipSpaces_suffix) fun _ =>
    .behind languageLine_advances.optional fun _ => featureBody_collects _

variable {language : Language}

theorem along_parts_of_outline? {text : Text} {outline : Outline}
    (h : outline? text = .ok outline) :
    Along [text.length] text outline.parts (feature.recorded [text.length] text) [] :=
  feature_collects.along (outline?_eq_ok h)

/-- The feature with its parts in the order in which they have been found. -/
def Outline.unsorted (outline : Outline) : Feature :=
  { name := outline.name
    description := outline.description
    tags := outline.tags.map Tag.new
    children := outline.parts.map Located.value }

/-- Sorting by line leaves the parts of a feature in the order in which they have been found. -/
theorem toFeature_of_outline? {text : Text} {outline : Outline}
    (h : outline? text = .ok outline) : outline.toFeature = outline.unsorted := by
  have hsorted : outline.sortedParts = outline.parts :=
    sortBy_eq_self ((along_parts_of_outline? h).byLine.imp fun hle => decide_eq_true hle)
  rw [Outline.toFeature, hsorted, Outline.unsorted]

/-- Whatever comments, blank lines and given up readings stand before them, the children of a
feature come in the order in which the grammar has found them, which is that of their places in the
text: the background if there is one, the scenarios, and the rules. Their recorded lines never
decrease, though they need not be those of the file. -/
theorem children_in_source_order {text : Text} {document : Document}
    (h : parse text = .ok document) :
    ∃ outline, outline? (endWithLineFeed text) = .ok outline ∧
      document.feature.children = outline.background.toList.map (Child.background ·.value) ++
        outline.scenarios.map (Child.scenario ·.value.toScenario) ++
        outline.rules.map (Child.rule ·.value.toRule) ∧
      ByLine outline.parts ∧
      Along [(endWithLineFeed text).length] (endWithLineFeed text) outline.parts
        (feature.recorded [(endWithLineFeed text).length] (endWithLineFeed text)) [] := by
  obtain ⟨outline, houtline, rfl⟩ := parse_eq_ok h
  have halong := along_parts_of_outline? houtline
  refine ⟨outline, houtline, ?_, halong.byLine, halong⟩
  rw [toFeature_of_outline? houtline, Outline.unsorted, Outline.parts]
  simp only [List.map_append, List.map_map]
  rfl

/-- A feature with comments and blank lines before its parts, an outline that is first tried as a
scenario, and a tag of a rule that is first taken for one of a scenario. -/
def annotated : Text :=
  ("Feature: F\n\n#a\nBackground:\n* g\n\n#b\nScenario Outline: o\n* x\nScenario: s\n* y\n" ++
    "@u\n#c\nRule: R\n").toList

/-- The line breaks around the comment before the rule have been recorded time and again when the
rule is found, which stands on line 14 of the text. -/
theorem children_in_source_order_of_annotated :
    ∃ document outline, parse annotated = .ok document ∧
      outline? (endWithLineFeed annotated) = .ok outline ∧
      outline.parts.map (fun part => (part.value.kind, part.line)) =
        [("background".toList, 4), ("scenario".toList, 8), ("scenario".toList, 10),
          ("rule".toList, 28)] ∧
      document.feature.children = outline.background.toList.map (Child.background ·.value) ++
        outline.scenarios.map (Child.scenario ·.value.toScenario) ++
        outline.rules.map (Child.rule ·.value.toRule) ∧
      ByLine outline.parts ∧
      Along [(endWithLineFeed annotated).length] (endWithLineFeed annotated) outline.parts
        (feature.recorded [(endWithLineFeed annotated).length] (endWithLineFeed annotated)) [] := by
  have hread : (outline? (endWithLineFeed annotated)).toOption.map
      (fun outline => outline.parts.map fun part => (part.value.kind, part.line)) =
      some [("background".toList, 4), ("scenario".toList, 8), ("scenario".toList, 10),
        ("rule".toList, 28)] := by
    decide +kernel
  obtain ⟨found, hfound, hparts⟩ := Option.map_eq_some_iff.mp hread
  have hparse := parse_of_outline? (eq_ok_of_toOption hfound)
  obtain ⟨outline, houtline, hchildren, hbyLine, halong⟩ := children_in_source_order hparse
  obtain rfl : found = outline := by simpa [houtline, Except.toOption] using hfound.symm
  exact ⟨_, found, hparse, houtline, hparts, hchildren, hbyLine, halong⟩

end Gherkin

end FeatureMarkdown
