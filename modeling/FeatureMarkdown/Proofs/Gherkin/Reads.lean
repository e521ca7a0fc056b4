import FeatureMarkdown.Proofs.Gherkin.Blanks
import FeatureMarkdown.Proofs.Gherkin.Replies

/-!
What a parser does on a given text, one rule for each way to make a parser: it reads a value and
leaves the rest, or it declines. In both cases it leaves the text unspoiled, so that a choice that
is given up leaves nothing behind but misses and line breaks.
-/

namespace FeatureMarkdown.Gherkin

namespace Parser

variable {α β γ δ : Type}

/-- Whatever line breaks have been recorded before, the parser reads a value that `g` tells as `c`,
and leaves the rest. -/
def ReadsAs (p : Parser α) (g : α → γ) (s : Text) (c : γ) (rest : Text) : Prop :=
  ∀ before, ∃ a misses breaks, g a = c ∧ p before s = ⟨some (a, rest), misses, breaks, false⟩

abbrev Reads (p : Parser α) (s : Text) (a : α) (rest : Text) : Prop :=
  p.ReadsAs id s a rest

def Declines (p : Parser α) (s : Text) : Prop :=
  ∀ before, ∃ misses breaks, p before s = ⟨none, misses, breaks, false⟩

variable {p q : Parser α} {f : α → Parser β} {g : α → γ} {h : β → δ} {s middle rest : Text}
  {a : α} {c : γ} {d : δ}

namespace ReadsAs

theorem pure (a : α) (s : Text) : (Pure.pure a : Parser α).ReadsAs g s (g a) s :=
  fun _ => ⟨a, [], [], rfl, rfl⟩

theorem bindAs (hp : p.ReadsAs g s c middle)
    (hf : ∀ a, g a = c → (f a).ReadsAs h middle d rest) : (p >>= f).ReadsAs h s d rest := by
  intro before
  obtain ⟨a, misses, breaks, ha, hfirst⟩ := hp before
  obtain ⟨b, misses', breaks', hb, hnext⟩ := hf a ha (breaks ++ before)
  refine ⟨b, misses ++ misses', breaks' ++ breaks, hb, ?_⟩
  change andThen p f before s = _
  rw [andThen, hfirst]
  simp only [hnext, Bool.or_self]

theorem bind (hp : p.Reads s a middle) (hf : (f a).ReadsAs h middle d rest) :
    (p >>= f).ReadsAs h s d rest := by
  refine hp.bindAs fun b hb => ?_
  obtain rfl : b = a := hb
  exact hf

theorem either (hp : p.ReadsAs g s c rest) : (Parser.either p q).ReadsAs g s c rest := by
  intro before
  obtain ⟨a, misses, breaks, ha, heq⟩ := hp before
  exact ⟨a, misses, breaks, ha, by rw [Parser.either, heq]⟩

theorem either_of_declines (hp : p.Declines s) (hq : q.ReadsAs g s c rest) :
    (Parser.either p q).ReadsAs g s c rest := by
  intro before
  obtain ⟨misses, breaks, hfirst⟩ := hp before
  obtain ⟨a, misses', breaks', ha, hnext⟩ := hq (breaks ++ before)
  refine ⟨a, misses ++ misses', breaks' ++ breaks, ha, ?_⟩
  rw [Parser.either, hfirst]
  simp only [hnext, Bool.or_self]

theorem optional (hp : p.ReadsAs g s c rest) :
    (Parser.optional p).ReadsAs (Option.map g) s (some c) rest := by
  intro before
  obtain ⟨a, misses, breaks, ha, heq⟩ := hp before
  exact ⟨some a, misses, breaks, congrArg some ha, by rw [Parser.optional, heq]⟩

theorem optional_of_declines {g : Option α → γ} (hp : p.Declines s) :
    (Parser.optional p).ReadsAs g s (g none) s := by
  intro before
  obtain ⟨misses, breaks, heq⟩ := hp before
  exact ⟨none, misses, breaks, rfl, by rw [Parser.optional, heq]⟩

theorem many_nil {g : List α → γ} (hp : p.Declines s) : ReadsAs (many p) g s (g []) s := by
  intro before
  obtain ⟨misses, breaks, heq⟩ := hp before
  exact ⟨[], misses, breaks, rfl, by rw [many, heq]⟩

theorem many_cons {l : List γ} (hp : p.ReadsAs g s c middle) (hlt : middle.length < s.length)
    (hrest : ReadsAs (many p) (List.map g) middle l rest) :
    ReadsAs (many p) (List.map g) s (c :: l) rest := by
  intro before
  obtain ⟨a, misses, breaks, rfl, hfirst⟩ := hp before
  obtain ⟨others, misses', breaks', rfl, hothers⟩ := hrest (breaks ++ before)
  refine ⟨a :: others, misses ++ misses', breaks' ++ breaks, rfl, ?_⟩
  rw [many, hfirst]
  simp only [hlt, if_true, hothers, Option.map_some, Bool.or_self]

theorem skip {f : Text → Text} (hf : f s = rest) : (Parser.skip f).Reads s () rest :=
  fun _ => ⟨(), [], breaksBetween s rest, rfl, by rw [Parser.skip, hf]⟩

theorem skipUnrecorded {f : Text → Text} (hf : f s = rest) :
    (Parser.skipUnrecorded f).Reads s () rest :=
  fun _ => ⟨(), [], [], rfl, by rw [Parser.skipUnrecorded, hf]⟩

theorem require {f : Text → Option Text} (hf : f s = some rest) :
    (Parser.require f).Reads s () rest :=
  fun _ => ⟨(), [], breaksBetween s rest, rfl, by rw [Parser.require, hf]; rfl⟩

theorem absent {f : Text → Bool} (hf : f s = false) : (Parser.absent f).Reads s () s :=
  fun _ => ⟨(), [], [], rfl, by rw [Parser.absent, hf]; rfl⟩

theorem literal (word s : Text) : (Parser.literal word).Reads (word ++ s) () s :=
  fun before => ⟨(), [], [], rfl, literal_append word s before⟩

theorem check (expected : Expectation) (s : Text) : (Parser.check true expected).Reads s () s :=
  fun _ => ⟨(), [], [], rfl, rfl⟩

theorem note (expected : Expectation) (s : Text) : (Parser.note expected).Reads s () s :=
  fun _ => ⟨(), _, [], rfl, rfl⟩

theorem insist {condition : Bool} (h : condition = true) (expected : Expectation) (s : Text) :
    (Parser.insist condition expected).Reads s () s :=
  fun _ => ⟨(), [], [], rfl, by rw [Parser.insist, h]; rfl⟩

theorem upTo {stop : Text → Bool} {t : Text} (h : splitBefore stop s = (t, rest)) :
    (Parser.upTo stop).Reads s t rest :=
  fun _ => ⟨t, _, [], rfl, by rw [Parser.upTo, h]⟩

theorem someUpTo {stop : Text → Bool} {t : Text} (h : splitBefore stop s = (t, rest))
    (ht : t ≠ []) : (Parser.someUpTo stop).Reads s t rest :=
  fun _ => ⟨t, _, [], rfl, by rw [Parser.someUpTo, h, if_neg ht]⟩

/-- The line, which is looked up among the recorded line breaks, is left open. -/
theorem located (hp : p.ReadsAs g s c rest) :
    (Parser.located p).ReadsAs (g ∘ Located.value) s c rest := by
  intro before
  obtain ⟨a, misses, breaks, ha, heq⟩ := hp before
  exact ⟨⟨lineAt (breaks ++ before) s.length, a⟩, misses, breaks, ha, by
    rw [Parser.located, heq]; rfl⟩

theorem separated {blank : Text → Text} {l : List γ} (hp : p.ReadsAs g s c middle)
    (hrest : ReadsAs (many (do Parser.skip blank; q)) (List.map g) middle l rest) :
    (Parser.separated blank p q).ReadsAs (List.map g) s (c :: l) rest := by
  refine hp.bindAs fun a ha => hrest.bindAs fun others hothers => ?_
  exact ha ▸ hothers ▸ .pure (a :: others) rest

theorem orEmpty {p : Parser (List α)} {g : List α → γ} (hp : p.ReadsAs g s c rest) :
    (Parser.orEmpty p).ReadsAs g s c rest :=
  hp.either

theorem orEmpty_of_declines {p : Parser (List α)} {g : List α → γ} (hp : p.Declines s) :
    (Parser.orEmpty p).ReadsAs g s (g []) s :=
  either_of_declines hp (.pure [] s)

theorem unspoiled (hp : p.ReadsAs g s c rest) : (Parser.unspoiled p).ReadsAs g s c rest := by
  intro before
  obtain ⟨a, misses, breaks, ha, heq⟩ := hp before
  exact ⟨a, misses, breaks, ha, by rw [Parser.unspoiled, heq]⟩

end ReadsAs

namespace Reads

theorem optional (hp : p.Reads s a rest) : (Parser.optional p).Reads s (some a) rest := by
  have hfound := ReadsAs.optional hp
  rwa [Option.map_id] at hfound

theorem many_cons {l : List α} (hp : p.Reads s a middle) (hlt : middle.length < s.length)
    (hrest : Parser.Reads (many p) middle l rest) : Parser.Reads (many p) s (a :: l) rest := by
  have hall : ReadsAs (many p) (List.map id) s (a :: l) rest :=
    ReadsAs.many_cons hp hlt (List.map_id_fun.symm ▸ hrest)
  rwa [List.map_id_fun] at hall

theorem separated {blank : Text → Text} {l : List α} (hp : p.Reads s a middle)
    (hrest : Parser.Reads (many (do Parser.skip blank; q)) middle l rest) :
    (Parser.separated blank p q).Reads s (a :: l) rest :=
  hp.bind (hrest.bind (.pure _ _))

end Reads

namespace Declines

theorem bind (hp : p.Declines s) : (p >>= f).Declines s := by
  intro before
  obtain ⟨misses, breaks, heq⟩ := hp before
  refine ⟨misses, breaks, ?_⟩
  change andThen p f before s = _
  rw [andThen, heq]

theorem bind_of_reads (hp : p.Reads s a middle) (hf : (f a).Declines middle) :
    (p >>= f).Declines s := by
  intro before
  obtain ⟨b, misses, breaks, rfl, hfirst⟩ := hp before
  obtain ⟨misses', breaks', hnext⟩ := hf (breaks ++ before)
  refine ⟨misses ++ misses', breaks' ++ breaks, ?_⟩
  change andThen p f before s = _
  rw [andThen, hfirst]
  simp only [id_eq] at hnext
  simp only [hnext, Bool.or_self]

theorem either (hp : p.Declines s) (hq : q.Declines s) : (Parser.either p q).Declines s := by
  intro before
  obtain ⟨misses, breaks, hfirst⟩ := hp before
  obtain ⟨misses', breaks', hnext⟩ := hq (breaks ++ before)
  refine ⟨misses ++ misses', breaks' ++ breaks, ?_⟩
  rw [Parser.either, hfirst]
  simp only [hnext, Bool.or_self]

theorem absent {f : Text → Bool} (h : f s = true) : (Parser.absent f).Declines s :=
  fun _ => ⟨[], [], by rw [Parser.absent, h]; rfl⟩

theorem forbid (hp : p.ReadsAs g s c rest) : (Parser.forbid p).Declines s := by
  intro before
  obtain ⟨a, misses, breaks, -, heq⟩ := hp before
  exact ⟨[], breaks, by rw [Parser.forbid, heq]; rfl⟩

theorem literal {word : Text} (h : ¬ word <+: s) : (Parser.literal word).Declines s :=
  fun before => ⟨_, [], literal_eq_none h before⟩

theorem someUpTo {stop : Text → Bool} (h : (splitBefore stop s).1 = []) :
    (Parser.someUpTo stop).Declines s :=
  fun _ => ⟨_, [], by rw [Parser.someUpTo, if_pos h]⟩

theorem located (hp : p.Declines s) : (Parser.located p).Declines s := by
  intro before
  obtain ⟨misses, breaks, heq⟩ := hp before
  exact ⟨misses, breaks, by rw [Parser.located, heq]; rfl⟩

theorem separated {blank : Text → Text} (hp : p.Declines s) :
    (Parser.separated blank p q).Declines s :=
  hp.bind

end Declines

end Parser

end FeatureMarkdown.Gherkin
