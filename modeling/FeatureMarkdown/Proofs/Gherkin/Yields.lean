import FeatureMarkdown.Gherkin.Parser

namespace FeatureMarkdown.Gherkin

variable {α β : Type}

/-- Every value that the parser yields, on whatever text, has the property. -/
def Parser.Yields (p : Parser α) (P : α → Prop) : Prop :=
  ∀ ⦃before⦄ s a rest, (p before s).result = some (a, rest) → P a

namespace Parser.Yields

variable {P : α → Prop} {Q : β → Prop} {p q : Parser α}

theorem trivial (p : Parser α) : p.Yields fun _ => True :=
  fun _ _ _ _ _ => True.intro

theorem mono {P' : α → Prop} (hp : p.Yields P) (h : ∀ a, P a → P' a) : p.Yields P' :=
  fun _ s a rest hs => h a (hp s a rest hs)

theorem pure {a : α} (h : P a) : (Pure.pure a : Parser α).Yields P := by
  intro before s b rest hs
  obtain ⟨rfl, -⟩ := Prod.mk.inj (Option.some.inj hs)
  exact h

theorem bind {f : α → Parser β} (hp : p.Yields P) (hf : ∀ a, P a → (f a).Yields Q) :
    (p >>= f).Yields Q := by
  intro before s b rest hs
  change (andThen p f before s).result = some (b, rest) at hs
  unfold andThen at hs
  split at hs
  · contradiction
  · rename_i a left misses breaks spoiled heq
    exact hf a (hp s a left (by rw [heq])) left b rest hs

theorem bind' {f : α → Parser β} (hf : ∀ a, (f a).Yields Q) : (p >>= f).Yields Q :=
  bind (trivial p) fun a _ => hf a

theorem either (hp : p.Yields P) (hq : q.Yields P) : (Parser.either p q).Yields P := by
  intro before s a rest hs
  unfold Parser.either at hs
  split at hs
  · rename_i r misses breaks spoiled heq
    exact hp s a rest (by rw [heq]; exact hs)
  · exact hq s a rest hs

theorem optional (hp : p.Yields P) :
    (Parser.optional p).Yields fun found => ∀ a, found = some a → P a := by
  intro before s found rest hs
  unfold Parser.optional at hs
  split at hs
  · rename_i a left misses breaks spoiled heq
    obtain ⟨rfl, -⟩ := Prod.mk.inj (Option.some.inj hs)
    rintro b hb
    exact Option.some.inj hb ▸ hp s a left (by rw [heq])
  · obtain ⟨rfl, -⟩ := Prod.mk.inj (Option.some.inj hs)
    simp

theorem many (hp : p.Yields P) : Parser.Yields (Parser.many p) fun l => ∀ a ∈ l, P a := by
  intro before s
  induction before, s using many.induct p with
  | case1 before s misses breaks spoiled heq =>
      intro l rest hs
      rw [Parser.many, heq] at hs
      obtain ⟨rfl, -⟩ := Prod.mk.inj (Option.some.inj hs)
      simp
  | case2 before s a left misses breaks spoiled heq hlt ih =>
      intro l rest hs
      rw [Parser.many, heq] at hs
      simp only [hlt, if_true] at hs
      obtain ⟨⟨others, end'⟩, hothers, heq'⟩ := Option.map_eq_some_iff.mp hs
      obtain ⟨rfl, -⟩ := Prod.mk.inj heq'
      intro b hb
      rcases List.mem_cons.mp hb with rfl | hb
      · exact hp s b left (by rw [heq])
      · exact ih others end' hothers b hb
  | case3 before s a left misses breaks spoiled heq hlt =>
      intro l rest hs
      rw [Parser.many, heq] at hs
      simp only [hlt, if_false] at hs
      obtain ⟨rfl, -⟩ := Prod.mk.inj (Option.some.inj hs)
      simp

theorem separated {blank : Text → Text} (hp : p.Yields P) (hq : q.Yields P) :
    (Parser.separated blank p q).Yields fun l => l ≠ [] ∧ ∀ a ∈ l, P a := by
  refine bind hp fun a ha => bind (many (bind' fun _ => hq)) fun rest hrest => pure ?_
  refine ⟨List.cons_ne_nil a rest, fun b hb => ?_⟩
  rcases List.mem_cons.mp hb with rfl | hb
  · exact ha
  · exact hrest b hb

theorem orEmpty {p : Parser (List α)} (hp : p.Yields fun l => ∀ a ∈ l, P a) :
    (Parser.orEmpty p).Yields fun l => ∀ a ∈ l, P a :=
  either hp (pure (by simp))

theorem orEmpty_separated {blank : Text → Text} (hp : p.Yields P) (hq : q.Yields P) :
    (Parser.orEmpty (Parser.separated blank p q)).Yields fun l => ∀ a ∈ l, P a :=
  orEmpty ((separated hp hq).mono fun _ h => h.2)

theorem insist {condition : Bool} {expected : Expectation} :
    (Parser.insist condition expected).Yields fun _ => condition = true := by
  intro before s a rest hs
  unfold Parser.insist at hs
  split at hs
  · assumption
  · contradiction

/-- On whatever line it is found. -/
theorem located {P : Located α → Prop} (hp : p.Yields fun a => ∀ line, P ⟨line, a⟩) :
    (Parser.located p).Yields P := by
  intro before s node rest hs
  obtain ⟨⟨a, left⟩, ha, hnode⟩ := Option.map_eq_some_iff.mp hs
  obtain ⟨rfl, -⟩ := Prod.mk.inj hnode
  exact hp s a left ha _

theorem unspoiled (hp : p.Yields P) : (Parser.unspoiled p).Yields P := by
  intro before s a rest hs
  unfold Parser.unspoiled at hs
  split at hs
  · contradiction
  · exact hp s a rest hs

end Parser.Yields

end FeatureMarkdown.Gherkin
