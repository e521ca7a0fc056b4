import FeatureMarkdown.Markdown.Render
import FeatureMarkdown.Proofs.Gherkin.Breaks
import FeatureMarkdown.Proofs.Gherkin.Reads
import FeatureMarkdown.Proofs.Gherkin.SingleLines
import FeatureMarkdown.Proofs.Markdown.OtherEnding

namespace FeatureMarkdown.Gherkin

variable {α β : Type}

namespace Parser

/-- What the parser finds in a text with its carriage returns and without them. -/
structure FindsInBoth (p : Parser α) (before before' : List Nat) (l : List Sign)
    (found : Option (α × List Sign)) : Prop where
  left : ∀ a k, found = some (a, k) → k <:+ l
  inBare : (p before (bare l)).result = found.map (Prod.map id bare)
  inFull : (p before' (full l)).result = found.map (Prod.map id full)
  spoiled : (p before' (full l)).spoiled = (p before (bare l)).spoiled
  breaks : SameBreaks l (p before (bare l)).breaks (p before' (full l)).breaks

/-- The parser finds the same in a text with its carriage returns as without them, and records the
same line breaks, if the same ones have been recorded before. -/
def IgnoresReturns (p : Parser α) : Prop :=
  ∀ ⦃whole before before'⦄, SameBreaks whole before before' → ∀ l, l <:+ whole →
    ∃ found, p.FindsInBoth before before' l found

namespace FindsInBoth

variable {p : Parser α} {before before' : List Nat} {whole l : List Sign}
  {found : Option (α × List Sign)}

theorem of_replies {inBare inFull : Reply α} (hbare : p before (bare l) = inBare)
    (hfull : p before' (full l) = inFull) (hleft : ∀ a k, found = some (a, k) → k <:+ l)
    (hresult : inBare.result = found.map (Prod.map id bare))
    (hresult' : inFull.result = found.map (Prod.map id full))
    (hspoiled : inFull.spoiled = inBare.spoiled)
    (hbreaks : SameBreaks l inBare.breaks inFull.breaks) :
    p.FindsInBoth before before' l found := by
  subst hbare hfull
  exact ⟨hleft, hresult, hresult', hspoiled, hbreaks⟩

theorem recorded (h : p.FindsInBoth before before' l found)
    (hbefore : SameBreaks whole before before') (hl : l <:+ whole) :
    SameBreaks whole (p.recorded before (bare l)) (p.recorded before' (full l)) :=
  (h.breaks.of_suffix hl).append hbefore

end FindsInBoth

namespace IgnoresReturns

variable {p q : Parser α} {f : α → Parser β}

theorem pure (a : α) : (Pure.pure a : Parser α).IgnoresReturns := fun _ _ _ _ l _ =>
  ⟨some (a, l), by simp, rfl, rfl, rfl, .nil l⟩

theorem bindOn {P : α → Prop} (hp : p.IgnoresReturns) (hyields : p.Yields P)
    (hf : ∀ a, P a → (f a).IgnoresReturns) : (p >>= f).IgnoresReturns := by
  intro whole before before' hbefore l hl
  obtain ⟨found, h⟩ := hp hbefore l hl
  cases found with
  | none =>
      exact ⟨none, .of_replies (bind_of_none h.inBare) (bind_of_none h.inFull) (by simp) rfl rfl
        h.spoiled h.breaks⟩
  | some found =>
      obtain ⟨a, k⟩ := found
      have hk := h.left a k rfl
      obtain ⟨found', h'⟩ := hf a (hyields _ _ _ h.inBare) (h.recorded hbefore hl) k (hk.trans hl)
      exact ⟨found', .of_replies (bind_of_some h.inBare) (bind_of_some h.inFull)
        (fun b k' heq => (h'.left b k' heq).trans hk) h'.inBare h'.inFull
        (congrArg₂ or h.spoiled h'.spoiled) ((h'.breaks.of_suffix hk).append h.breaks)⟩

theorem bind (hp : p.IgnoresReturns) (hf : ∀ a, (f a).IgnoresReturns) :
    (p >>= f).IgnoresReturns :=
  hp.bindOn (.trivial p) fun a _ => hf a

theorem either (hp : p.IgnoresReturns) (hq : q.IgnoresReturns) :
    (Parser.either p q).IgnoresReturns := by
  intro whole before before' hbefore l hl
  obtain ⟨found, h⟩ := hp hbefore l hl
  cases found with
  | none =>
      obtain ⟨found', h'⟩ := hq (h.recorded hbefore hl) l hl
      exact ⟨found', .of_replies (either_of_none h.inBare) (either_of_none h.inFull) h'.left
        h'.inBare h'.inFull (congrArg₂ or h.spoiled h'.spoiled) (h'.breaks.append h.breaks)⟩
  | some found =>
      exact ⟨some found, .of_replies (either_of_some h.inBare) (either_of_some h.inFull) h.left
        h.inBare h.inFull h.spoiled h.breaks⟩

theorem optional (hp : p.IgnoresReturns) : (Parser.optional p).IgnoresReturns := by
  intro whole before before' hbefore l hl
  obtain ⟨found, h⟩ := hp hbefore l hl
  cases found with
  | none =>
      exact ⟨some (none, l), .of_replies (optional_of_none h.inBare) (optional_of_none h.inFull)
        (by simp) rfl rfl h.spoiled h.breaks⟩
  | some found =>
      obtain ⟨a, k⟩ := found
      have hk := h.left a k rfl
      exact ⟨some (some a, k), .of_replies (optional_of_some h.inBare) (optional_of_some h.inFull)
        (by simpa using hk) rfl rfl h.spoiled h.breaks⟩

theorem many (hp : p.IgnoresReturns) : Parser.IgnoresReturns (Parser.many p) := by
  intro whole before before' hbefore l hl
  induction hlength : l.length using Nat.strongRecOn generalizing before before' l with
  | ind n ih =>
      subst hlength
      obtain ⟨found, h⟩ := hp hbefore l hl
      cases found with
      | none =>
          exact ⟨some ([], l), .of_replies (many_of_none h.inBare) (many_of_none h.inFull) (by simp)
            rfl rfl h.spoiled h.breaks⟩
      | some found =>
          obtain ⟨a, k⟩ := found
          have hk := h.left a k rfl
          have hbare : (bare k).length < (bare l).length ↔ k.length < l.length := by simp
          by_cases hlt : k.length < l.length
          · obtain ⟨others, h'⟩ := ih k.length hlt (h.recorded hbefore hl) k (hk.trans hl) rfl
            refine ⟨others.map fun found => (a :: found.1, found.2),
              .of_replies (many_of_some h.inBare (hbare.mpr hlt))
                (many_of_some h.inFull ((length_full_lt_iff hk).mpr hlt)) ?_ ?_ ?_
                (congrArg₂ or h.spoiled h'.spoiled)
                ((h'.breaks.of_suffix hk).append h.breaks)⟩
            · intro as k' heq
              obtain ⟨⟨others, last⟩, rfl, hcons⟩ := Option.map_eq_some_iff.mp heq
              obtain ⟨rfl, rfl⟩ := Prod.mk.inj hcons
              exact (h'.left others last rfl).trans hk
            · refine (congrArg (Option.map _) h'.inBare).trans ?_
              cases others <;> rfl
            · refine (congrArg (Option.map _) h'.inFull).trans ?_
              cases others <;> rfl
          · exact ⟨some ([], l), .of_replies (many_of_idle h.inBare (mt hbare.mp hlt))
              (many_of_idle h.inFull (mt (length_full_lt_iff hk).mp hlt)) (by simp) rfl rfl
              h.spoiled h.breaks⟩

theorem skip {g : Text → Text} (hg : InStep g) : (Parser.skip g).IgnoresReturns := by
  intro _ _ _ _ l _
  obtain ⟨k, hk, hbare, hfull⟩ := hg l
  refine ⟨some ((), k), by simpa using hk, ?_, ?_, rfl, ?_⟩ <;> unfold Parser.skip
  · rw [hbare]
    rfl
  · rw [hfull]
    rfl
  · rw [hbare, hfull]
    exact sameBreaks_between hk

theorem skipUnrecorded {g : Text → Text} (hg : InStep g) :
    (Parser.skipUnrecorded g).IgnoresReturns := by
  intro _ _ _ _ l _
  obtain ⟨k, hk, hbare, hfull⟩ := hg l
  refine ⟨some ((), k), by simpa using hk, ?_, ?_, rfl, .nil l⟩
  · exact congrArg (fun rest => some ((), rest)) hbare
  · exact congrArg (fun rest => some ((), rest)) hfull

theorem require {g : Text → Option Text} (hg : InStep? g) : (Parser.require g).IgnoresReturns := by
  intro _ _ _ _ l _
  obtain ⟨left, hleft, hbare, hfull⟩ := hg l
  cases left with
  | none =>
      refine ⟨none, by simp, ?_, ?_, rfl, ?_⟩ <;> simp only [Parser.require, hbare, hfull]
      · rfl
      · rfl
      · exact .nil l
  | some k =>
      have hk := hleft k rfl
      refine ⟨some ((), k), by simpa using hk, ?_, ?_, rfl, ?_⟩ <;>
        simp only [Parser.require, hbare, hfull]
      · rfl
      · rfl
      · exact sameBreaks_between hk

theorem absent {g : Text → Bool} (hg : Agrees g) : (Parser.absent g).IgnoresReturns := by
  intro _ _ _ _ l _
  by_cases h : g (bare l) = true
  · exact ⟨none, by simp, if_pos h, if_pos ((hg l).trans h), rfl, .nil l⟩
  · exact ⟨some ((), l), by simp, if_neg h, if_neg (hg l ▸ h), rfl, .nil l⟩

theorem forbid (hp : p.IgnoresReturns) : (Parser.forbid p).IgnoresReturns := by
  intro whole before before' hbefore l hl
  obtain ⟨found, h⟩ := hp hbefore l hl
  cases found with
  | none =>
      refine ⟨some ((), l), by simp, ?_, ?_, h.spoiled, h.breaks⟩
      · rw [Parser.forbid, h.inBare]
        rfl
      · rw [Parser.forbid, h.inFull]
        rfl
  | some found =>
      refine ⟨none, by simp, ?_, ?_, h.spoiled, h.breaks⟩
      · rw [Parser.forbid, h.inBare]
        rfl
      · rw [Parser.forbid, h.inFull]
        rfl

theorem literal {word : Text} (h : Unbroken word) : (Parser.literal word).IgnoresReturns := by
  intro _ before before' _ l _
  rcases prefix_inStep h l with ⟨k, hk, hbare, hfull⟩ | ⟨hbare, hfull⟩
  · have hreply := literal_append word (bare k) before
    have hreply' := literal_append word (full k) before'
    rw [← hbare] at hreply
    rw [← hfull] at hreply'
    exact ⟨some ((), k), .of_replies hreply hreply' (by simpa using hk) rfl rfl rfl (.nil l)⟩
  · exact ⟨none, .of_replies (literal_eq_none hbare before)
      (literal_eq_none hfull before') (by simp) rfl rfl rfl (.nil l)⟩

theorem check (condition : Bool) (expected : Expectation) :
    (Parser.check condition expected).IgnoresReturns := by
  intro _ _ _ _ l _
  cases condition with
  | false => exact ⟨none, by simp, rfl, rfl, rfl, .nil l⟩
  | true => exact ⟨some ((), l), by simp, rfl, rfl, rfl, .nil l⟩

theorem insist (condition : Bool) (expected : Expectation) :
    (Parser.insist condition expected).IgnoresReturns := by
  intro _ _ _ _ l _
  cases condition with
  | false => exact ⟨none, by simp, rfl, rfl, rfl, .nil l⟩
  | true => exact ⟨some ((), l), by simp, rfl, rfl, rfl, .nil l⟩

theorem note (expected : Expectation) : (Parser.note expected).IgnoresReturns := fun _ _ _ _ l _ =>
  ⟨some ((), l), by simp, rfl, rfl, rfl, .nil l⟩

theorem upTo {stop : Text → Bool} (hstop : Agrees stop) (hfeed : ∀ s, stop ('\n' :: s) = true) :
    (Parser.upTo stop).IgnoresReturns := by
  intro _ _ _ _ l _
  obtain ⟨t, k, hk, hbare, hfull⟩ := splitBefore_inStep hstop hfeed l
  exact ⟨some (t, k), by simpa using hk, congrArg some hbare, congrArg some hfull, rfl, .nil l⟩

theorem someUpTo {stop : Text → Bool} (hstop : Agrees stop)
    (hfeed : ∀ s, stop ('\n' :: s) = true) : (Parser.someUpTo stop).IgnoresReturns := by
  intro _ _ _ _ l _
  obtain ⟨t, k, hk, hbare, hfull⟩ := splitBefore_inStep hstop hfeed l
  by_cases ht : t = []
  · refine ⟨none, by simp, ?_, ?_, rfl, .nil l⟩
    · simp [Parser.someUpTo, hbare, ht]
    · simp [Parser.someUpTo, hfull, ht]
  · refine ⟨some (t, k), by simpa using hk, ?_, ?_, rfl, .nil l⟩
    · simp [Parser.someUpTo, hbare, ht]
    · simp [Parser.someUpTo, hfull, ht]

/-- The place is looked up among the same line breaks, so it is on the same line. -/
theorem located (hp : p.IgnoresReturns) : (Parser.located p).IgnoresReturns := by
  intro whole before before' hbefore l hl
  obtain ⟨found, h⟩ := hp hbefore l hl
  have hline := (h.recorded hbefore hl).lineAt_eq hl
  cases found with
  | none =>
      refine ⟨none, by simp, ?_, ?_, h.spoiled, h.breaks⟩
      · rw [Parser.located, h.inBare]
        rfl
      · rw [Parser.located, h.inFull]
        rfl
  | some found =>
      have hk := h.left found.1 found.2 rfl
      refine ⟨some (⟨lineAt (p.recorded before (bare l)) (bare l).length, found.1⟩, found.2),
        by simpa using hk, ?_, ?_, h.spoiled, h.breaks⟩
      · rw [Parser.located, h.inBare]
        rfl
      · rw [hline, Parser.located, h.inFull]
        rfl

theorem separated {blank : Text → Text} (hblank : InStep blank) (hp : p.IgnoresReturns)
    (hq : q.IgnoresReturns) : (Parser.separated blank p q).IgnoresReturns :=
  .bind hp fun _ => .bind (.many (.bind (.skip hblank) fun _ => hq)) fun _ => .pure _

theorem orEmpty {p : Parser (List α)} (hp : p.IgnoresReturns) :
    (Parser.orEmpty p).IgnoresReturns :=
  .either hp (.pure _)

theorem unspoiled (hp : p.IgnoresReturns) : (Parser.unspoiled p).IgnoresReturns := by
  intro whole before before' hbefore l hl
  obtain ⟨found, h⟩ := hp hbefore l hl
  cases hspoiled : (p before (bare l)).spoiled with
  | true =>
      obtain ⟨hresult, hbreaks, hkept⟩ := unspoiled_of_spoiled hspoiled
      obtain ⟨hresult', hbreaks', hkept'⟩ := unspoiled_of_spoiled (h.spoiled.trans hspoiled)
      exact ⟨none, by simp, hresult, hresult', hkept'.trans hkept.symm,
        hbreaks ▸ hbreaks' ▸ h.breaks⟩
  | false =>
      exact ⟨found, .of_replies (unspoiled_of_sound hspoiled)
        (unspoiled_of_sound (h.spoiled.trans hspoiled)) h.left h.inBare h.inFull h.spoiled h.breaks⟩

end IgnoresReturns

end Parser

open FeatureMarkdown.Gherkin.Parser

theorem find?_isPrefixOf_full {words : List Text} (h : ∀ word ∈ words, Unbroken word)
    (l : List Sign) :
    words.find? (·.isPrefixOf (full l)) = words.find? (·.isPrefixOf (bare l)) := by
  induction words with
  | nil => rfl
  | cons word words ih =>
      have hothers := ih fun other hother => h other (List.mem_cons_of_mem word hother)
      rw [List.find?_cons, List.find?_cons, isPrefixOf_full (h word List.mem_cons_self), hothers]

theorem word_ignoresReturns {words : List Text} (h : ∀ word ∈ words, Unbroken word) :
    (word words).IgnoresReturns := by
  intro _ _ _ _ l _
  have hsame := find?_isPrefixOf_full h l
  cases hfind : words.find? (·.isPrefixOf (bare l)) with
  | none =>
      refine ⟨none, by simp, ?_, ?_, ?_, ?_⟩ <;> simp only [word, hsame, hfind]
      · rfl
      · rfl
      · exact .nil l
  | some found =>
      have hprefix := (List.find?_eq_some_iff_append.mp hfind).1
      rcases prefix_inStep (h found (List.mem_of_find?_eq_some hfind)) l with
        ⟨k, hk, hbare, hfull⟩ | ⟨hnot, -⟩
      · refine ⟨some (found, k), by simpa using hk, ?_, ?_, ?_, ?_⟩ <;>
          simp only [word, hsame, hfind]
        · rw [hbare, List.drop_left]
          rfl
        · rw [hfull, List.drop_left]
          rfl
        · exact .nil l
      · exact absurd (List.isPrefixOf_iff_prefix.mp hprefix) hnot

theorem keyword_ignoresReturns {words : List Text} (h : ∀ word ∈ words, Unbroken word) :
    (keyword words).IgnoresReturns :=
  .bind (.skip skipComments_inStep) fun _ => word_ignoresReturns h

theorem lineText_ignoresReturns : lineText.IgnoresReturns :=
  .someUpTo atLineBreak_agrees fun _ => rfl

theorem headingText_ignoresReturns : headingText.IgnoresReturns :=
  .bind (.skip skipSpaces_inStep) fun _ => .bind lineText_ignoresReturns.optional fun _ =>
    .bind (.require lineRest?_inStep) fun _ => .pure _

theorem description_ignoresReturns {ends : List Text} (h : ∀ word ∈ ends, Unbroken word) :
    (description ends).IgnoresReturns := by
  have hline : (descriptionLine ends).IgnoresReturns :=
    .bind (.skip skipSpaces_inStep) fun _ => .bind (.absent (isPrefixOf_full (by decide))) fun _ =>
      .bind (.forbid (keyword_ignoresReturns h)) fun _ => .bind (.skip skipSpaces_inStep) fun _ =>
        .bind lineText_ignoresReturns fun _ => .bind (.require lineRest?_inStep) fun _ => .pure _
  exact .bind (.orEmpty (.separated skipSpaces_inStep hline hline)) fun _ =>
    .bind (.skip skipBlankLines_inStep) fun _ => .pure _

theorem tagName_ignoresReturns : tagName.IgnoresReturns := by
  have hspan (l : List Sign) : ∃ t k, k <:+ l ∧
      (bare l).takeWhile isTagCharacter = t ∧ (bare l).dropWhile isTagCharacter = bare k ∧
      (full l).takeWhile isTagCharacter = t ∧ (full l).dropWhile isTagCharacter = full k := by
    induction l with
    | nil => exact ⟨[], [], List.suffix_refl _, rfl, rfl, rfl, rfl⟩
    | cons sign l ih =>
        cases sign with
        | returnAndFeed => exact ⟨[], _, List.suffix_refl _, rfl, rfl, rfl, rfl⟩
        | character c hreturn =>
            obtain ⟨t, k, hk, hbare⟩ := ih
            by_cases hc : isTagCharacter c = true
            · refine ⟨c :: t, k, hk.trans (List.suffix_cons _ _), ?_⟩
              simpa [hc] using hbare
            · exact ⟨[], _, List.suffix_refl _, by simp [hc], by simp [hc], by simp [hc],
                by simp [hc]⟩
  intro _ _ _ _ l _
  obtain ⟨t, k, hk, hname, hrest, hname', hrest'⟩ := hspan l
  by_cases ht : t = []
  · refine ⟨none, by simp, ?_, ?_, rfl, .nil l⟩
    · simp [tagName, hname, ht]
    · simp [tagName, hname', ht]
  · refine ⟨some (t, k), by simpa using hk, ?_, ?_, rfl, .nil l⟩
    · simp [tagName, hname, hrest, ht]
    · simp [tagName, hname', hrest', ht]

theorem tags_ignoresReturns : tags.IgnoresReturns := by
  have htag : tag.IgnoresReturns := .bind (.literal (by decide)) fun _ => tagName_ignoresReturns
  exact .bind (.orEmpty (.separated skipBlankLines_inStep htag htag)) fun _ =>
    .bind (.skip skipSpaces_inStep) fun _ => .bind (.skip skipLineEnds_inStep) fun _ => .pure _

theorem table_ignoresReturns : table.IgnoresReturns := by
  have hbar : Unbroken "|".toList := by decide
  have hclosed : Agrees fun s => atLineBreak s || s.isEmpty := by
    intro l
    dsimp only
    rw [atLineBreak_agrees l, Bool.eq_iff_iff]
    simp [bare_eq_nil_iff, full_eq_nil_iff]
  have hends : Agrees atCellEnd := by
    intro l
    rw [atCellEnd, atCellEnd, isPrefixOf_full hbar, atLineBreak_agrees l]
  have hfeed (s : Text) : atCellEnd ('\n' :: s) = true := by
    simp [atCellEnd, atLineBreak, lineBreak?]
  have hcell : cell.IgnoresReturns :=
    .bind (.literal hbar) fun _ => .bind (.skip skipSpaces_inStep) fun _ =>
      .bind (.absent hclosed) fun _ => .bind (.upTo hends hfeed) fun _ => .pure _
  have hrow : row.IgnoresReturns :=
    .bind (.orEmpty (.separated skipSpaces_inStep hcell hcell)) fun _ =>
      .bind (.skip skipSpaces_inStep) fun _ => .bind (.literal hbar) fun _ =>
        .bind (.skip skipSpaces_inStep) fun _ => .bind (.require lineRest?_inStep) fun _ => .pure _
  exact .bind (.skip skipSpaces_inStep) fun _ =>
    .bind (.separated skipSpaces_inStep hrow hrow) fun _ => .bind (.insist _ _) fun _ => .pure _

theorem docstring_ignoresReturns : docstring.IgnoresReturns := by
  have hbody {quotes : Text} (h : Unbroken quotes) : (docstringBody quotes).IgnoresReturns := by
    intro _ _ _ _ l _
    obtain ⟨k, hk, hbare, hfull⟩ := skipToQuotes_inStep h l
    refine ⟨some ((), k), by simpa using hk, ?_, ?_, rfl, ?_⟩ <;> unfold docstringBody
    · rw [hbare]
      rfl
    · rw [hfull]
      rfl
    · rw [hbare, hfull]
      exact sameBreaks_between hk
  have hin {quotes : Text} (h : Unbroken quotes) : (docstringIn quotes).IgnoresReturns :=
    .bind (.literal h) fun _ => .bind (hbody h) fun _ => .bind (.literal h) fun _ =>
      .require lineRest?_inStep
  exact .either (hin (by decide)) (hin (by decide))

theorem stepWith_ignoresReturns {words : List Text} (h : ∀ word ∈ words, Unbroken word)
    (allowed : Bool) : (stepWith words allowed).IgnoresReturns :=
  .bind (keyword_ignoresReturns h) fun _ => .bind (.skip skipSpaces_inStep) fun _ =>
    .bind lineText_ignoresReturns fun _ => .bind (.skip skipSpaces_inStep) fun _ =>
      .bind (.require lineRest?_inStep) fun _ => .bind (.skip skipSpaces_inStep) fun _ =>
        .bind docstring_ignoresReturns.optional fun _ =>
          .bind table_ignoresReturns.optional fun _ => .bind (.check _ _) fun _ => .pure _

section Language

variable {language : Language} (h : ∀ words ∈ language.wordLists, ∀ word ∈ words, Unbroken word)

include h

theorem steps_ignoresReturns : (steps language).IgnoresReturns := by
  have hwith {words : List Text} (hwords : words ∈ language.wordLists) (allowed : Bool) :
      (stepWith words allowed).IgnoresReturns :=
    stepWith_ignoresReturns (h words hwords) allowed
  have hstep (following : Bool) : (step language following).IgnoresReturns :=
    .either (.bind (.skip skipComments_inStep) fun _ => hwith (by simp [Language.wordLists]) _) <|
      .either (hwith (by simp [Language.wordLists]) _) <|
      .either (hwith (by simp [Language.wordLists]) _) <|
      .either (hwith (by simp [Language.wordLists]) _) (hwith (by simp [Language.wordLists]) _)
  exact .orEmpty (.separated skipSpaces_inStep (hstep false) (hstep true))

theorem unbroken_scenarioEnds : ∀ word ∈ language.scenarioEnds, Unbroken word := by
  intro word hword
  simp only [Language.scenarioEnds, List.mem_append] at hword
  rcases hword with (((((hword | hword) | hword) | hword) | hword) | hword) | hword <;>
    exact h _ (by simp [Language.wordLists]) word hword

theorem background_ignoresReturns : (background language).IgnoresReturns :=
  .bind (.skip skipComments_inStep) fun _ => .bind (.skip skipSpaces_inStep) fun _ =>
    .located <| .bind (keyword_ignoresReturns (h _ (by simp [Language.wordLists]))) fun _ =>
      .bind (.literal (by decide)) fun _ => .bind headingText_ignoresReturns fun _ =>
        .bind (description_ignoresReturns (unbroken_scenarioEnds h)) fun _ =>
          .bind (steps_ignoresReturns h) fun _ => .pure _

theorem examples_ignoresReturns : (examples language).IgnoresReturns := by
  have hends : ∀ word ∈ language.scenarioEnds ++ ["|".toList], Unbroken word :=
    List.forall_mem_append.mpr ⟨unbroken_scenarioEnds h, by decide⟩
  exact .bind (.skip skipComments_inStep) fun _ => .bind (.skip skipSpaces_inStep) fun _ =>
    .bind tags_ignoresReturns fun _ => .bind (.skip skipSpaces_inStep) fun _ =>
      .bind (keyword_ignoresReturns (h _ (by simp [Language.wordLists]))) fun _ =>
        .bind (.literal (by decide)) fun _ => .bind headingText_ignoresReturns fun _ =>
          .bind (description_ignoresReturns hends) fun _ =>
            .bind table_ignoresReturns.optional fun _ => .pure _

theorem scenarios_ignoresReturns : (scenarios language).IgnoresReturns := by
  have hwith {words : List Text} (hwords : words ∈ language.wordLists) :
      (scenarioWith language words).IgnoresReturns :=
    .bind (.skip skipComments_inStep) fun _ => .bind (.skip skipSpaces_inStep) fun _ =>
      .bind tags_ignoresReturns fun _ => .bind (.skip skipSpaces_inStep) fun _ =>
        .located <| .bind (keyword_ignoresReturns (h _ hwords)) fun _ =>
          .bind (.literal (by decide)) fun _ => .bind headingText_ignoresReturns fun _ =>
            .bind (description_ignoresReturns (unbroken_scenarioEnds h)) fun _ =>
              .bind (steps_ignoresReturns h) fun _ =>
                .bind (.many (examples_ignoresReturns h)) fun _ => .pure _
  have hscenario : (scenario language).IgnoresReturns :=
    .either (hwith (by simp [Language.wordLists])) (hwith (by simp [Language.wordLists]))
  exact .bind (.skip skipSpaces_inStep) fun _ =>
    .orEmpty (.separated skipSpaces_inStep hscenario hscenario)

theorem rules_ignoresReturns : (rules language).IgnoresReturns := by
  have hends : ∀ word ∈ language.ruleEnds, Unbroken word := by
    intro word hword
    simp only [Language.ruleEnds, List.mem_append] at hword
    rcases hword with (hword | hword) | hword <;>
      exact h _ (by simp [Language.wordLists]) word hword
  have hrule : (rule language).IgnoresReturns :=
    .bind (.skip skipSpaces_inStep) fun _ => .bind tags_ignoresReturns fun _ =>
      .bind (.skip skipSpaces_inStep) fun _ => .located <|
        .bind (keyword_ignoresReturns (h _ (by simp [Language.wordLists]))) fun _ =>
          .bind (.literal (by decide)) fun _ => .bind headingText_ignoresReturns fun _ =>
            .bind (description_ignoresReturns hends) fun _ =>
              .bind (background_ignoresReturns h).optional fun _ =>
                .bind (.skip skipLineEnds_inStep) fun _ =>
                  .bind (scenarios_ignoresReturns h) fun _ =>
                    .bind (.skip skipLineEnds_inStep) fun _ => .pure _
  exact .bind (.skip skipSpaces_inStep) fun _ =>
    .orEmpty (.separated skipSpaces_inStep hrule hrule)

theorem featureBody_ignoresReturns : (featureBody language).IgnoresReturns := by
  have hends : ∀ word ∈ language.featureEnds, Unbroken word := by
    intro word hword
    simp only [Language.featureEnds, List.mem_append] at hword
    rcases hword with ((hword | hword) | hword) | hword <;>
      exact h _ (by simp [Language.wordLists]) word hword
  exact .bind (.skip skipLineEnds_inStep) fun _ => .bind tags_ignoresReturns fun _ =>
    .bind (keyword_ignoresReturns (h _ (by simp [Language.wordLists]))) fun _ =>
      .bind (.literal (by decide)) fun _ => .bind headingText_ignoresReturns fun _ =>
        .bind (description_ignoresReturns hends) fun _ =>
          .bind (background_ignoresReturns h).optional fun _ =>
            .bind (.skip skipLineEnds_inStep) fun _ =>
              .bind (scenarios_ignoresReturns h) fun _ =>
                .bind (.skip skipLineEnds_inStep) fun _ =>
                  .bind (rules_ignoresReturns h) fun _ =>
                    .bind (.skip skipLineEnds_inStep) fun _ => .pure _

end Language

theorem languageLine_ignoresReturns : languageLine.IgnoresReturns :=
  .bind (.skipUnrecorded skipSpacesAndBreaks_inStep) fun _ => .bind (.note _) fun _ =>
    .bind (.literal (by decide)) fun _ => .bind (.skip skipSpaces_inStep) fun _ =>
      .bind (.literal (by decide)) fun _ => .bind (.skip skipSpaces_inStep) fun _ =>
        .bind (.literal (by decide)) fun _ => .bind (.skip skipSpaces_inStep) fun _ =>
          .bind lineText_ignoresReturns fun _ => .bind (.skip skipSpaces_inStep) fun _ =>
            .bind (.require lineEnd?_inStep) fun _ => .bind (.insist _ _) fun _ => .pure _

theorem feature_ignoresReturns : feature.IgnoresReturns := by
  refine .unspoiled (.bind (.skip skipSpaces_inStep) fun _ => ?_)
  refine .bindOn languageLine_ignoresReturns.optional optional_languageLine_yields_known ?_
  rintro found ⟨code, hcode⟩
  exact featureBody_ignoresReturns (Language.unbroken_of_ofCode? hcode)

theorem outline?_full {l : List Sign} {outline : Outline} (h : outline? (bare l) = .ok outline) :
    outline? (full l) = .ok outline := by
  have hbegin : SameBreaks l [(bare l).length] [(full l).length] :=
    ⟨[l], by simp, rfl, rfl⟩
  obtain ⟨found, hfound⟩ := feature_ignoresReturns hbegin l List.suffix_rfl
  have hbare := hfound.inBare
  rw [outline?_eq_ok h] at hbare
  obtain ⟨⟨a, k⟩, rfl, hpair⟩ := Option.map_eq_some_iff.mp hbare.symm
  obtain ⟨rfl, hk⟩ := Prod.mk.inj hpair
  obtain rfl := bare_eq_nil_iff.mp hk
  exact outline?_of_result hfound.inFull

/-- A line feed that is missing at the end is missing with carriage returns as well. -/
theorem exists_signs_endWithLineFeed (l : List Sign) :
    ∃ k, bare k = endWithLineFeed (bare l) ∧ full k = endWithLineFeed (full l) := by
  have hlast : (full l).getLast? = (bare l).getLast? := by
    rcases List.eq_nil_or_concat l with rfl | ⟨front, sign, rfl⟩
    · rfl
    · rw [List.concat_eq_append, bare_append, full_append]
      cases sign <;> simp
  have hfeed : '\n' ≠ '\r' := by decide
  unfold endWithLineFeed
  rw [hlast]
  split
  · exact ⟨l, rfl, rfl⟩
  · exact ⟨l ++ [.character '\n' hfeed], bare_append _ _, full_append _ _⟩

theorem exists_signs_of_notMem {text : Text} (h : '\r' ∉ text) :
    ∃ l, bare l = text ∧ full l = Text.replaceChar '\n' ['\r', '\n'] text := by
  induction text with
  | nil => exact ⟨[], rfl, rfl⟩
  | cons c text ih =>
      obtain ⟨l, rfl, hfull⟩ := ih (List.not_mem_of_not_mem_cons h)
      by_cases hfeed : c = '\n'
      · subst hfeed
        refine ⟨.returnAndFeed :: l, rfl, ?_⟩
        rw [full_returnAndFeed_cons, hfull]
        rfl
      · have hreturn : c ≠ '\r' := (List.ne_of_not_mem_cons h).symm
        refine ⟨.character c hreturn :: l, rfl, ?_⟩
        rw [full_character_cons, hfull, Text.replaceChar, Text.replaceChar, List.flatMap_cons,
          if_neg hfeed]
        rfl

theorem parse_full {l : List Sign} {document : Document} (h : parse (bare l) = .ok document) :
    parse (full l) = .ok document := by
  obtain ⟨k, hbare, hfull⟩ := exists_signs_endWithLineFeed l
  obtain ⟨outline, houtline, rfl⟩ := parse_eq_ok h
  rw [← hbare] at houtline
  exact parse_of_outline? (hfull ▸ outline?_full houtline)

/-- A text without carriage returns is accepted after one has been put before each line feed, and
it gives the same Markdown then. Nothing need be asked of the tables, since no cell that is read
holds a line feed. -/
theorem source_with_returns_renders_alike {text : Text} {document : Document} (htext : '\r' ∉ text)
    (h : parse text = .ok document) :
    ∃ other, parse (Text.replaceChar '\n' ['\r', '\n'] text) = .ok other ∧
      ∀ options : RenderOptions,
        options.renderDocument other = options.renderDocument document := by
  obtain ⟨l, rfl, hfull⟩ := exists_signs_of_notMem htext
  rw [← hfull]
  exact ⟨document, parse_full h, fun _ => rfl⟩

/-- A description of two lines, a docstring, comments and tables, and no line feed at the end. -/
def described : Text :=
  ("@t\nFeature: F\n a\n\n b\nScenario: s\n* x\n|c|\n#d\n* y\n```\n#e\n```\n" ++
    "Examples:\n|n|\n|1|").toList

theorem source_with_returns_renders_alike_of_described :
    '\r' ∉ described ∧ ∃ document, parse described = .ok document ∧
      document.feature.description = some "a\nb".toList ∧
      ∃ other, parse (Text.replaceChar '\n' ['\r', '\n'] described) = .ok other ∧
        ∀ options : RenderOptions,
          options.renderDocument other = options.renderDocument document := by
  have hreturn : '\r' ∉ described := by decide
  have hread : (parse described).toOption.map (·.feature.description) =
      some (some "a\nb".toList) := by
    decide +kernel
  obtain ⟨document, hdocument, hdescription⟩ := Option.map_eq_some_iff.mp hread
  have hparse := eq_ok_of_toOption hdocument
  exact ⟨hreturn, document, hparse, hdescription, source_with_returns_renders_alike hreturn hparse⟩

end FeatureMarkdown.Gherkin
