import FeatureMarkdown.Gherkin.Grammar.Feature
import FeatureMarkdown.Proofs.Gherkin.Blanks
import FeatureMarkdown.Proofs.Gherkin.Replies

namespace FeatureMarkdown.Gherkin

variable {α β : Type}

namespace Parser

/-- What the parser leaves is an end of the text that it was given. -/
def Advances (p : Parser α) : Prop :=
  ∀ ⦃before⦄ s a rest, (p before s).result = some (a, rest) → rest <:+ s

variable {p q : Parser α} {f : α → Parser β} {before : List Nat} {s rest : Text} {a : α}

namespace Advances

theorem pure (a : α) : (Pure.pure a : Parser α).Advances := by
  intro before s b rest h
  obtain ⟨-, rfl⟩ := Prod.mk.inj (Option.some.inj h)
  exact List.suffix_refl _

theorem bind (hp : p.Advances) (hf : ∀ a, (f a).Advances) : (p >>= f).Advances := by
  intro before s b rest h
  obtain ⟨a, middle, hmiddle, hrest⟩ := bind_eq_some h
  exact (hf a middle b rest hrest).trans (hp s a middle hmiddle)

theorem either (hp : p.Advances) (hq : q.Advances) : (Parser.either p q).Advances := by
  intro before s a rest h
  rcases either_eq_some h with h | ⟨-, h⟩
  · exact hp s a rest h
  · exact hq s a rest h

theorem optional (hp : p.Advances) : (Parser.optional p).Advances := by
  intro before s found rest h
  rcases optional_eq_some h with ⟨a, -, h⟩ | ⟨-, rfl⟩
  · exact hp s a rest h
  · exact List.suffix_refl _

theorem many (hp : p.Advances) : Parser.Advances (Parser.many p) := by
  intro before s l rest h
  induction l generalizing before s with
  | nil =>
      rcases many_eq_some h with ⟨-, rfl⟩ | ⟨_, _, _, hcons, -⟩
      · exact List.suffix_refl _
      · contradiction
  | cons a l ih =>
      rcases many_eq_some h with ⟨hnil, -⟩ | ⟨_, _, middle, hcons, hfirst, -, hothers⟩
      · contradiction
      · obtain ⟨rfl, rfl⟩ := List.cons.inj hcons
        exact (ih middle hothers).trans (hp s a middle hfirst)

theorem skip {f : Text → Text} (h : ∀ s, f s <:+ s) : (Parser.skip f).Advances := by
  intro before s a rest hs
  obtain ⟨-, rfl⟩ := Prod.mk.inj (Option.some.inj hs)
  exact h s

theorem separated {blank : Text → Text} (hblank : ∀ s, blank s <:+ s) (hp : p.Advances)
    (hq : q.Advances) : (Parser.separated blank p q).Advances :=
  .bind hp fun _ => .bind (.many (.bind (.skip hblank) fun _ => hq)) fun _ => .pure _

theorem orEmpty {p : Parser (List α)} (hp : p.Advances) : (Parser.orEmpty p).Advances :=
  .either hp (.pure _)

theorem skipUnrecorded {f : Text → Text} (h : ∀ s, f s <:+ s) :
    (Parser.skipUnrecorded f).Advances := by
  intro before s a rest hs
  obtain ⟨-, rfl⟩ := Prod.mk.inj (Option.some.inj hs)
  exact h s

theorem require {f : Text → Option Text} (h : ∀ {s rest}, f s = some rest → rest <:+ s) :
    (Parser.require f).Advances := by
  intro before s a rest hs
  obtain ⟨behind, hbehind, hresult⟩ := Option.map_eq_some_iff.mp hs
  exact (Prod.mk.inj hresult).2 ▸ h hbehind

theorem absent (f : Text → Bool) : (Parser.absent f).Advances := by
  intro before s a rest hs
  unfold Parser.absent at hs
  split at hs
  · contradiction
  · obtain ⟨-, rfl⟩ := Prod.mk.inj (Option.some.inj hs)
    exact List.suffix_refl _

theorem forbid (p : Parser α) : (Parser.forbid p).Advances := by
  intro before s a rest hs
  unfold Parser.forbid at hs
  dsimp only at hs
  split at hs
  · contradiction
  · obtain ⟨-, rfl⟩ := Prod.mk.inj (Option.some.inj hs)
    exact List.suffix_refl _

theorem literal (word : Text) : (Parser.literal word).Advances := by
  intro before s a rest hs
  unfold Parser.literal at hs
  split at hs
  · obtain ⟨-, rfl⟩ := Prod.mk.inj (Option.some.inj hs)
    exact List.drop_suffix _ _
  · contradiction

theorem check (condition : Bool) (expected : Expectation) :
    (Parser.check condition expected).Advances := by
  intro before s a rest hs
  unfold Parser.check at hs
  split at hs
  · obtain ⟨-, rfl⟩ := Prod.mk.inj (Option.some.inj hs)
    exact List.suffix_refl _
  · contradiction

theorem insist (condition : Bool) (expected : Expectation) :
    (Parser.insist condition expected).Advances := by
  intro before s a rest hs
  unfold Parser.insist at hs
  split at hs
  · obtain ⟨-, rfl⟩ := Prod.mk.inj (Option.some.inj hs)
    exact List.suffix_refl _
  · contradiction

theorem note (expected : Expectation) : (Parser.note expected).Advances := by
  intro before s a rest hs
  obtain ⟨-, rfl⟩ := Prod.mk.inj (Option.some.inj hs)
  exact List.suffix_refl _

theorem upTo (stop : Text → Bool) : (Parser.upTo stop).Advances := by
  intro before s a rest hs
  obtain ⟨-, rfl⟩ := Prod.mk.inj (Option.some.inj hs)
  exact splitBefore_suffix stop s

theorem someUpTo (stop : Text → Bool) : (Parser.someUpTo stop).Advances := by
  intro before s a rest hs
  unfold Parser.someUpTo at hs
  dsimp only at hs
  split at hs
  · contradiction
  · obtain ⟨-, rfl⟩ := Prod.mk.inj (Option.some.inj hs)
    exact splitBefore_suffix stop s

end Advances

/-- What the parser leaves is a shorter end of the text that it was given. -/
def Consumes (p : Parser α) : Prop :=
  ∀ ⦃before⦄ s a rest, (p before s).result = some (a, rest) → rest <:+ s ∧ rest ≠ s

namespace Consumes

theorem bind (hp : p.Consumes) (hf : ∀ a, (f a).Advances) : (p >>= f).Consumes := by
  intro before s b rest h
  obtain ⟨a, middle, hmiddle, hrest⟩ := bind_eq_some h
  obtain ⟨hsuffix, hne⟩ := hp s a middle hmiddle
  have hbehind := hf a middle b rest hrest
  refine ⟨hbehind.trans hsuffix, ?_⟩
  rintro rfl
  exact hne (hsuffix.eq_of_length_le hbehind.length_le)

theorem behind (hp : p.Advances) (hf : ∀ a, (f a).Consumes) : (p >>= f).Consumes := by
  intro before s b rest h
  obtain ⟨a, middle, hmiddle, hrest⟩ := bind_eq_some h
  obtain ⟨hbehind, hne⟩ := hf a middle b rest hrest
  have hsuffix := hp s a middle hmiddle
  refine ⟨hbehind.trans hsuffix, ?_⟩
  rintro rfl
  exact hne (hbehind.eq_of_length_le hsuffix.length_le)

theorem literal {word : Text} (hne : word ≠ []) : (Parser.literal word).Consumes := by
  intro before s a rest h
  refine ⟨Advances.literal word s a rest h, ?_⟩
  unfold Parser.literal at h
  split at h
  · rename_i hprefix
    obtain ⟨-, rfl⟩ := Prod.mk.inj (Option.some.inj h)
    obtain ⟨behind, rfl⟩ := List.isPrefixOf_iff_prefix.mp hprefix
    simpa using hne
  · contradiction

end Consumes

end Parser

open FeatureMarkdown.Gherkin.Parser

theorem word_advances (words : List Text) : (word words).Advances := by
  intro before s w rest hs
  unfold word at hs
  split at hs
  · obtain ⟨-, rfl⟩ := Prod.mk.inj (Option.some.inj hs)
    exact List.drop_suffix _ _
  · contradiction

theorem keyword_advances (words : List Text) : (keyword words).Advances :=
  .bind (.skip skipComments_suffix) fun _ => word_advances words

theorem headingText_advances : headingText.Advances :=
  .bind (.skip skipSpaces_suffix) fun _ => .bind (.optional (.someUpTo _)) fun _ =>
    .bind (.require suffix_of_lineRest?) fun _ => .pure _

theorem descriptionLine_advances (ends : List Text) : (descriptionLine ends).Advances :=
  .bind (.skip skipSpaces_suffix) fun _ => .bind (.absent _) fun _ => .bind (.forbid _) fun _ =>
    .bind (.skip skipSpaces_suffix) fun _ => .bind (.someUpTo _) fun _ =>
      .bind (.require suffix_of_lineRest?) fun _ => .pure _

theorem description_advances (ends : List Text) : (description ends).Advances :=
  .bind (.orEmpty (.separated skipSpaces_suffix (descriptionLine_advances ends)
    (descriptionLine_advances ends))) fun _ =>
      .bind (.skip skipBlankLines_suffix) fun _ => .pure _

theorem tagName_advances : tagName.Advances := by
  intro before s name rest hs
  unfold tagName at hs
  dsimp only at hs
  split at hs
  · contradiction
  · obtain ⟨-, rfl⟩ := Prod.mk.inj (Option.some.inj hs)
    exact List.dropWhile_suffix _

theorem tags_advances : tags.Advances := by
  have htag : tag.Advances := .bind (.literal _) fun _ => tagName_advances
  exact .bind (.orEmpty (.separated skipBlankLines_suffix htag htag)) fun _ =>
    .bind (.skip skipSpaces_suffix) fun _ => .bind (.skip skipLineEnds_suffix) fun _ => .pure _

theorem table_advances : table.Advances := by
  have hcell : cell.Advances := .bind (.literal _) fun _ => .bind (.skip skipSpaces_suffix) fun _ =>
    .bind (.absent _) fun _ => .bind (.upTo _) fun _ => .pure _
  have hrow : row.Advances := .bind (.orEmpty (.separated skipSpaces_suffix hcell hcell)) fun _ =>
    .bind (.skip skipSpaces_suffix) fun _ => .bind (.literal _) fun _ =>
      .bind (.skip skipSpaces_suffix) fun _ => .bind (.require suffix_of_lineRest?) fun _ => .pure _
  exact .bind (.skip skipSpaces_suffix) fun _ =>
    .bind (.separated skipSpaces_suffix hrow hrow) fun _ => .bind (.insist _ _) fun _ => .pure _

theorem skipToQuotes_suffix (quotes s : Text) : skipToQuotes quotes s <:+ s := by
  fun_induction skipToQuotes quotes s with
  | case1 => exact List.suffix_refl _
  | case2 c s hquotes => exact List.suffix_refl _
  | case3 c s hquotes rest hend ih => exact ih.trans (suffix_of_lineEnd? hend)
  | case4 c s hquotes hend ih => exact ih.trans (List.suffix_cons c s)

theorem docstring_advances : docstring.Advances := by
  have hbody (quotes : Text) : (docstringBody quotes).Advances := by
    intro before s a rest hs
    obtain ⟨-, rfl⟩ := Prod.mk.inj (Option.some.inj hs)
    exact skipToQuotes_suffix quotes s
  have hin (quotes : Text) : (docstringIn quotes).Advances :=
    .bind (.literal _) fun _ => .bind (hbody quotes) fun _ => .bind (.literal _) fun _ =>
      .require suffix_of_lineRest?
  exact .either (hin _) (hin _)

theorem stepWith_advances (words : List Text) (allowed : Bool) :
    (stepWith words allowed).Advances :=
  .bind (keyword_advances words) fun _ => .bind (.skip skipSpaces_suffix) fun _ =>
    .bind (.someUpTo _) fun _ => .bind (.skip skipSpaces_suffix) fun _ =>
      .bind (.require suffix_of_lineRest?) fun _ => .bind (.skip skipSpaces_suffix) fun _ =>
        .bind docstring_advances.optional fun _ => .bind table_advances.optional fun _ =>
          .bind (.check _ _) fun _ => .pure _

theorem steps_advances (language : Language) : (steps language).Advances := by
  have hstep (following : Bool) : (step language following).Advances :=
    .either (.bind (.skip skipComments_suffix) fun _ => stepWith_advances _ _) <|
      .either (stepWith_advances _ _) <| .either (stepWith_advances _ _) <|
      .either (stepWith_advances _ _) (stepWith_advances _ _)
  exact .orEmpty (.separated skipSpaces_suffix (hstep false) (hstep true))

theorem examples_advances (language : Language) : (examples language).Advances :=
  .bind (.skip skipComments_suffix) fun _ => .bind (.skip skipSpaces_suffix) fun _ =>
    .bind tags_advances fun _ => .bind (.skip skipSpaces_suffix) fun _ =>
      .bind (keyword_advances _) fun _ => .bind (.literal _) fun _ =>
        .bind headingText_advances fun _ => .bind (description_advances _) fun _ =>
          .bind table_advances.optional fun _ => .pure _

theorem skipSpacesAndBreaks_suffix (s : Text) : skipSpacesAndBreaks s <:+ s := by
  fun_induction skipSpacesAndBreaks s with
  | case1 => exact List.suffix_refl _
  | case2 s ih => exact ih.trans ((List.suffix_cons _ _).trans (List.suffix_cons _ _))
  | case3 c s hfeed hspace ih => exact ih.trans (List.suffix_cons c s)
  | case4 c s hfeed hspace => exact List.suffix_refl _

theorem languageLine_advances : languageLine.Advances :=
  .bind (.skipUnrecorded skipSpacesAndBreaks_suffix) fun _ => .bind (.note _) fun _ =>
    .bind (.literal _) fun _ => .bind (.skip skipSpaces_suffix) fun _ =>
      .bind (.literal _) fun _ => .bind (.skip skipSpaces_suffix) fun _ =>
        .bind (.literal _) fun _ => .bind (.skip skipSpaces_suffix) fun _ =>
          .bind (.someUpTo _) fun _ => .bind (.skip skipSpaces_suffix) fun _ =>
            .bind (.require suffix_of_lineEnd?) fun _ => .bind (.insist _ _) fun _ => .pure _

end FeatureMarkdown.Gherkin
