import FeatureMarkdown.Gherkin.Outline

namespace FeatureMarkdown

variable {α : Type} {le : α → α → Bool} {p : α → Bool}

theorem filter_insertBy_of_neg {a : α} (ha : p a = false) (l : List α) :
    (insertBy le a l).filter p = l.filter p := by
  induction l with
  | nil => simp [insertBy, ha]
  | cons b rest ih =>
      rw [insertBy]
      split
      · exact List.filter_cons_of_neg (by simp [ha])
      · rw [List.filter_cons, List.filter_cons, ih]

/-- A member goes before all others that it may precede. -/
theorem filter_insertBy_of_pos (hle : ∀ a b, p a = true → p b = true → le a b = true) {a : α}
    (ha : p a = true) (l : List α) : (insertBy le a l).filter p = a :: l.filter p := by
  induction l with
  | nil => simp [insertBy, ha]
  | cons b rest ih =>
      rw [insertBy]
      split
      next => exact List.filter_cons_of_pos ha
      next hab =>
        have hb : ¬ p b = true := fun hb => hab (hle a b ha hb)
        rw [List.filter_cons_of_neg hb, List.filter_cons_of_neg hb, ih]

/-- Members that may all precede one another keep their order. -/
theorem filter_sortBy (hle : ∀ a b, p a = true → p b = true → le a b = true) (l : List α) :
    (sortBy le l).filter p = l.filter p := by
  induction l with
  | nil => rfl
  | cons a rest ih =>
      rw [sortBy]
      cases ha : p a with
      | true => rw [filter_insertBy_of_pos hle ha, ih, List.filter_cons_of_pos ha]
      | false => rw [filter_insertBy_of_neg ha, ih, List.filter_cons_of_neg (by simp [ha])]

namespace Gherkin

variable {nodes others : List (Located α)}

/-- The nodes that stand on the given line, in order. -/
def onLine (line : Nat) (nodes : List (Located α)) : List (Located α) :=
  nodes.filter (·.line = line)

theorem mem_onLine_line {node : Located α} : node ∈ onLine node.line nodes ↔ node ∈ nodes := by
  simp [onLine]

theorem onLine_cons_line (node : Located α) (nodes : List (Located α)) :
    onLine node.line (node :: nodes) = node :: onLine node.line nodes := by
  simp [onLine]

theorem onLine_append (line : Nat) (first second : List (Located α)) :
    onLine line (first ++ second) = onLine line first ++ onLine line second :=
  List.filter_append ..

theorem onLine_map {β : Type} (f : α → β) (line : Nat) (nodes : List (Located α)) :
    onLine line (nodes.map (Located.map f)) = (onLine line nodes).map (Located.map f) :=
  List.filter_map ..

/-- The lines of the nodes never decrease. -/
def ByLine (nodes : List (Located α)) : Prop :=
  nodes.Pairwise fun a b => a.line ≤ b.line

theorem ByLine.line_le {node : Located α} (h : ByLine (node :: nodes)) :
    ∀ other ∈ node :: nodes, node.line ≤ other.line := by
  intro other hother
  rcases List.mem_cons.mp hother with rfl | hother
  · exact Nat.le_refl _
  · exact (List.pairwise_cons.mp h).1 other hother

theorem mem_iff_of_onLine_eq (h : ∀ line, onLine line nodes = onLine line others)
    (node : Located α) : node ∈ nodes ↔ node ∈ others := by
  rw [← mem_onLine_line, h, mem_onLine_line]

/-- Nodes in the order of their lines are told by what stands on each line. -/
theorem ByLine.eq_of_onLine_eq (hnodes : ByLine nodes) (hothers : ByLine others)
    (h : ∀ line, onLine line nodes = onLine line others) : nodes = others := by
  induction nodes generalizing others with
  | nil =>
      refine (List.eq_nil_iff_forall_not_mem.mpr fun node hnode => ?_).symm
      exact List.not_mem_nil ((mem_iff_of_onLine_eq h node).mpr hnode)
  | cons node nodes ih =>
      have hmem := mem_iff_of_onLine_eq h
      cases others with
      | nil => exact absurd ((hmem node).mp List.mem_cons_self) List.not_mem_nil
      | cons other others =>
          have hline : node.line = other.line := Nat.le_antisymm
            (hnodes.line_le other ((hmem other).mpr List.mem_cons_self))
            (hothers.line_le node ((hmem node).mp List.mem_cons_self))
          obtain rfl : node = other := by
            have hfirst := h node.line
            rw [onLine_cons_line, hline, onLine_cons_line] at hfirst
            exact (List.cons.inj hfirst).1
          have hrest (line : Nat) : onLine line nodes = onLine line others := by
            have hboth : onLine line ([node] ++ nodes) = onLine line ([node] ++ others) := h line
            rw [onLine_append, onLine_append] at hboth
            exact List.append_cancel_left hboth
          rw [ih (List.pairwise_cons.mp hnodes).2 (List.pairwise_cons.mp hothers).2 hrest]

namespace Outline

variable (outline : Outline)

theorem byLine_sortedParts : ByLine outline.sortedParts := by
  have htrans (a b c : Located Child) (hab : decide (a.line ≤ b.line) = true)
      (hbc : decide (b.line ≤ c.line) = true) : decide (a.line ≤ c.line) = true := by
    rw [decide_eq_true_eq] at hab hbc ⊢
    exact Nat.le_trans hab hbc
  have htotal (a b : Located Child) :
      decide (a.line ≤ b.line) = true ∨ decide (b.line ≤ a.line) = true := by
    simpa using Nat.le_total a.line b.line
  exact (pairwise_sortBy htrans htotal outline.parts).imp fun h => of_decide_eq_true h

theorem onLine_sortedParts (line : Nat) :
    onLine line outline.sortedParts = onLine line outline.parts := by
  refine filter_sortBy (fun a b ha hb => ?_) outline.parts
  rw [decide_eq_true_eq] at ha hb ⊢
  exact Nat.le_of_eq (ha.trans hb.symm)

theorem onLine_parts (line : Nat) :
    onLine line outline.parts =
      (onLine line outline.background.toList).map (Located.map .background) ++
        (onLine line outline.scenarios).map (Located.map fun node => .scenario node.toScenario) ++
        (onLine line outline.rules).map (Located.map fun node => .rule node.toRule) := by
  rw [parts, onLine_append, onLine_append, onLine_map, onLine_map, onLine_map]

/-- The children of a feature are its background, scenarios and rules, converted and each of them
once, in the order of their lines. On one line the background comes first, then the scenarios and
then the rules, each in the order in which they are given. No other list of them is so ordered. -/
theorem children_merge_by_line :
    ∃ merged : List (Located Child),
      outline.toFeature.children = merged.map Located.value ∧
      merged.Perm (outline.background.toList.map (Located.map .background) ++
        outline.scenarios.map (Located.map fun node => .scenario node.toScenario) ++
        outline.rules.map (Located.map fun node => .rule node.toRule)) ∧
      ByLine merged ∧
      (∀ line, onLine line merged =
        (onLine line outline.background.toList).map (Located.map .background) ++
          (onLine line outline.scenarios).map (Located.map fun node => .scenario node.toScenario) ++
          (onLine line outline.rules).map (Located.map fun node => .rule node.toRule)) ∧
      ∀ other, ByLine other → (∀ line, onLine line other = onLine line merged) →
        other = merged := by
  refine ⟨outline.sortedParts, rfl, sortBy_perm _ outline.parts, outline.byLine_sortedParts,
    fun line => ?_, fun other hother hsame => ?_⟩
  · rw [onLine_sortedParts, onLine_parts]
  · exact hother.eq_of_onLine_eq outline.byLine_sortedParts hsame

/-- A rule above all else, and a background and two scenarios that share a line. -/
example :
    let scenario (name : Text) : Located ScenarioNode := ⟨7, ⟨name, none, [], [], []⟩⟩
    let rule : Located RuleNode := ⟨2, ⟨[], none, [], none, []⟩⟩
    let outline : Outline :=
      ⟨[], none, [], some ⟨7, ⟨[]⟩⟩, [scenario ['b'], scenario ['a']], [rule]⟩
    outline.toFeature.children = [.rule rule.value.toRule, .background ⟨[]⟩,
      .scenario (scenario ['b']).value.toScenario,
      .scenario (scenario ['a']).value.toScenario] := by
  decide

end Outline

end Gherkin

end FeatureMarkdown
