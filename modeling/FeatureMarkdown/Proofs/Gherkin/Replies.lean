import FeatureMarkdown.Gherkin.Parser

namespace FeatureMarkdown.Gherkin.Parser

variable {α β : Type}

/-- The line breaks that are recorded when the parser is through, those before it included. -/
def recorded (p : Parser α) (before : List Nat) (s : Text) : List Nat :=
  (p before s).breaks ++ before

variable {p q : Parser α} {f : α → Parser β} {before : List Nat} {s middle rest : Text} {a : α}

theorem suffix_recorded (p : Parser α) (before : List Nat) (s : Text) :
    before <:+ p.recorded before s :=
  List.suffix_append _ _

theorem bind_of_none (h : (p before s).result = none) :
    (p >>= f) before s =
      ⟨none, (p before s).misses, (p before s).breaks, (p before s).spoiled⟩ := by
  change andThen p f before s = _
  unfold andThen
  split <;> rename_i heq
  · rw [heq]
  · simp [heq] at h

theorem bind_of_some (h : (p before s).result = some (a, middle)) :
    (p >>= f) before s =
      let reply := f a (p.recorded before s) middle
      ⟨reply.result, (p before s).misses ++ reply.misses, reply.breaks ++ (p before s).breaks,
        (p before s).spoiled || reply.spoiled⟩ := by
  change andThen p f before s = _
  unfold andThen
  split <;> rename_i heq
  · simp [heq] at h
  · obtain ⟨rfl, rfl⟩ := Prod.mk.inj (Option.some.inj ((congrArg Reply.result heq).symm.trans h))
    rw [recorded, heq]

theorem either_of_some {found : α × Text} (h : (p before s).result = some found) :
    either p q before s = p before s := by
  unfold either
  split <;> rename_i heq
  · rw [heq]
  · simp [heq] at h

theorem either_of_none (h : (p before s).result = none) :
    either p q before s =
      let reply := q (p.recorded before s) s
      ⟨reply.result, (p before s).misses ++ reply.misses, reply.breaks ++ (p before s).breaks,
        (p before s).spoiled || reply.spoiled⟩ := by
  unfold either
  split <;> rename_i heq
  · simp [heq] at h
  · rw [recorded, heq]

theorem optional_of_none (h : (p before s).result = none) :
    Parser.optional p before s =
      ⟨some (none, s), (p before s).misses, (p before s).breaks, (p before s).spoiled⟩ := by
  unfold Parser.optional
  split <;> rename_i heq
  · simp [heq] at h
  · rw [heq]

theorem optional_of_some (h : (p before s).result = some (a, rest)) :
    Parser.optional p before s =
      ⟨some (some a, rest), (p before s).misses, (p before s).breaks, (p before s).spoiled⟩ := by
  unfold Parser.optional
  split <;> rename_i heq
  · obtain ⟨rfl, rfl⟩ := Prod.mk.inj (Option.some.inj ((congrArg Reply.result heq).symm.trans h))
    rw [heq]
  · simp [heq] at h

theorem many_of_none (h : (p before s).result = none) :
    many p before s =
      ⟨some ([], s), (p before s).misses, (p before s).breaks, (p before s).spoiled⟩ := by
  rw [many]
  split <;> rename_i heq
  · rw [heq]
  · simp [heq] at h

theorem many_of_some (h : (p before s).result = some (a, middle))
    (hlt : middle.length < s.length) :
    many p before s =
      let reply := many p (p.recorded before s) middle
      ⟨reply.result.map fun found => (a :: found.1, found.2), (p before s).misses ++ reply.misses,
        reply.breaks ++ (p before s).breaks, (p before s).spoiled || reply.spoiled⟩ := by
  rw [many]
  split <;> rename_i heq
  · simp [heq] at h
  · obtain ⟨rfl, rfl⟩ := Prod.mk.inj (Option.some.inj ((congrArg Reply.result heq).symm.trans h))
    rw [if_pos hlt, recorded, heq]

theorem many_of_idle (h : (p before s).result = some (a, middle))
    (hle : ¬ middle.length < s.length) :
    many p before s =
      ⟨some ([], s), (p before s).misses, (p before s).breaks, (p before s).spoiled⟩ := by
  rw [many]
  split <;> rename_i heq
  · simp [heq] at h
  · obtain ⟨rfl, rfl⟩ := Prod.mk.inj (Option.some.inj ((congrArg Reply.result heq).symm.trans h))
    rw [if_neg hle, heq]

theorem literal_append (word s : Text) (before : List Nat) :
    literal word before (word ++ s) = ⟨some ((), s), [], [], false⟩ := by
  have hprefix : word.isPrefixOf (word ++ s) = true :=
    List.isPrefixOf_iff_prefix.mpr (List.prefix_append word s)
  rw [literal, if_pos hprefix, List.drop_left]

theorem literal_eq_none {word : Text} (h : ¬ word <+: s) (before : List Nat) :
    literal word before s = ⟨none, [⟨s.length, .literal word⟩], [], false⟩ := by
  have hprefix : ¬ word.isPrefixOf s = true := fun h' => h (List.isPrefixOf_iff_prefix.mp h')
  rw [literal, if_neg hprefix]

theorem bind_eq_some {b : β} (h : ((p >>= f) before s).result = some (b, rest)) :
    ∃ a middle, (p before s).result = some (a, middle) ∧
      (f a (p.recorded before s) middle).result = some (b, rest) := by
  cases hfirst : (p before s).result with
  | none =>
      rw [bind_of_none hfirst] at h
      contradiction
  | some found =>
      rw [bind_of_some hfirst] at h
      exact ⟨found.1, found.2, rfl, h⟩

theorem either_eq_some (h : (either p q before s).result = some (a, rest)) :
    (p before s).result = some (a, rest) ∨
      ((p before s).result = none ∧ (q (p.recorded before s) s).result = some (a, rest)) := by
  cases hfirst : (p before s).result with
  | none =>
      rw [either_of_none hfirst] at h
      exact .inr ⟨rfl, h⟩
  | some found =>
      rw [either_of_some hfirst] at h
      exact .inl (hfirst ▸ h)

theorem optional_eq_some {found : Option α}
    (h : (Parser.optional p before s).result = some (found, rest)) :
    (∃ a, found = some a ∧ (p before s).result = some (a, rest)) ∨
      (found = none ∧ rest = s) := by
  cases hfirst : (p before s).result with
  | none =>
      rw [optional_of_none hfirst] at h
      obtain ⟨rfl, rfl⟩ := Prod.mk.inj (Option.some.inj h)
      exact .inr ⟨rfl, rfl⟩
  | some first =>
      rw [optional_of_some hfirst] at h
      obtain ⟨rfl, rfl⟩ := Prod.mk.inj (Option.some.inj h)
      exact .inl ⟨first.1, rfl, rfl⟩

theorem many_eq_some {l : List α} (h : (many p before s).result = some (l, rest)) :
    (l = [] ∧ rest = s) ∨ ∃ a others middle, l = a :: others ∧
      (p before s).result = some (a, middle) ∧ middle.length < s.length ∧
      (many p (p.recorded before s) middle).result = some (others, rest) := by
  have hnone (heq : some (([] : List α), s) = some (l, rest)) : l = [] ∧ rest = s := by
    obtain ⟨rfl, rfl⟩ := Prod.mk.inj (Option.some.inj heq)
    exact ⟨rfl, rfl⟩
  cases hfirst : (p before s).result with
  | none =>
      rw [many_of_none hfirst] at h
      exact .inl (hnone h)
  | some first =>
      obtain ⟨a, middle⟩ := first
      by_cases hlt : middle.length < s.length
      · rw [many_of_some hfirst hlt] at h
        obtain ⟨⟨others, behind⟩, hothers, hresult⟩ := Option.map_eq_some_iff.mp h
        obtain ⟨rfl, rfl⟩ := Prod.mk.inj hresult
        exact .inr ⟨a, others, middle, rfl, rfl, hlt, hothers⟩
      · rw [many_of_idle hfirst hlt] at h
        exact .inl (hnone h)

theorem located_eq_some {node : Located α}
    (h : (located p before s).result = some (node, rest)) :
    (p before s).result = some (node.value, rest) ∧
      node.line = lineAt (p.recorded before s) s.length := by
  obtain ⟨⟨a, left⟩, ha, hnode⟩ := Option.map_eq_some_iff.mp h
  obtain ⟨rfl, rfl⟩ := Prod.mk.inj hnode
  exact ⟨ha, rfl⟩

theorem unspoiled_of_spoiled (h : (p before s).spoiled = true) :
    (unspoiled p before s).result = none ∧
      (unspoiled p before s).breaks = (p before s).breaks ∧
      (unspoiled p before s).spoiled = true := by
  rcases heq : p before s with ⟨_ | ⟨a, rest⟩, misses, breaks, spoiled⟩
  · obtain rfl : spoiled = true := by rwa [heq] at h
    rw [unspoiled, heq]
    exact ⟨rfl, rfl, rfl⟩
  · obtain rfl : spoiled = true := by rwa [heq] at h
    rw [unspoiled, heq]
    exact ⟨rfl, rfl, rfl⟩

theorem unspoiled_of_sound (h : (p before s).spoiled = false) :
    unspoiled p before s = p before s := by
  rcases heq : p before s with ⟨result, misses, breaks, spoiled⟩
  obtain rfl : spoiled = false := by rwa [heq] at h
  rw [unspoiled, heq]
  rcases result with _ | ⟨a, rest⟩ <;> rfl

theorem unspoiled_eq_some (h : (unspoiled p before s).result = some (a, rest)) :
    unspoiled p before s = p before s := by
  cases hspoiled : (p before s).spoiled with
  | true => simp [(unspoiled_of_spoiled hspoiled).1] at h
  | false => exact unspoiled_of_sound hspoiled

end FeatureMarkdown.Gherkin.Parser
