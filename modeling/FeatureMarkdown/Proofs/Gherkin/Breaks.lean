import FeatureMarkdown.Gherkin.Grammar.Step
import FeatureMarkdown.Gherkin.Parser
import FeatureMarkdown.Proofs.Gherkin.Blanks
import Mathlib.Data.List.Induction

namespace FeatureMarkdown.Gherkin

/-- A character of a text in which carriage returns stand before line feeds only; such a pair counts
as one. -/
inductive Sign where
  | character (c : Char) (h : c ≠ '\r')
  | returnAndFeed

/-- The text without its carriage returns. -/
def bare (l : List Sign) : Text :=
  l.map fun
    | .character c _ => c
    | .returnAndFeed => '\n'

/-- The text with its carriage returns. -/
def full (l : List Sign) : Text :=
  l.flatMap fun
    | .character c _ => [c]
    | .returnAndFeed => ['\r', '\n']

section Signs

variable {l k : List Sign} {c : Char}

@[simp] theorem bare_nil : bare [] = [] := rfl

@[simp] theorem full_nil : full [] = [] := rfl

@[simp] theorem bare_character_cons (h : c ≠ '\r') :
    bare (.character c h :: l) = c :: bare l := rfl

@[simp] theorem full_character_cons (h : c ≠ '\r') :
    full (.character c h :: l) = c :: full l := rfl

@[simp] theorem bare_returnAndFeed_cons : bare (.returnAndFeed :: l) = '\n' :: bare l := rfl

@[simp] theorem full_returnAndFeed_cons : full (.returnAndFeed :: l) = '\r' :: '\n' :: full l := rfl

@[simp] theorem length_bare (l : List Sign) : (bare l).length = l.length :=
  List.length_map _

theorem bare_append (l k : List Sign) : bare (l ++ k) = bare l ++ bare k :=
  List.map_append

theorem full_append (l k : List Sign) : full (l ++ k) = full l ++ full k :=
  List.flatMap_append

theorem length_le_length_full (l : List Sign) : l.length ≤ (full l).length := by
  induction l with
  | nil => exact Nat.le_refl 0
  | cons sign l ih => cases sign <;> simp <;> omega

theorem length_full_le_of_suffix (h : k <:+ l) : (full k).length ≤ (full l).length := by
  obtain ⟨front, rfl⟩ := h
  rw [full_append, List.length_append]
  exact Nat.le_add_left _ _

theorem length_full_lt_iff (h : k <:+ l) :
    (full k).length < (full l).length ↔ k.length < l.length := by
  obtain ⟨front, rfl⟩ := h
  have hfront := length_le_length_full front
  rw [full_append, List.length_append, List.length_append]
  constructor
  · intro hlt
    cases front with
    | nil => simp at hlt
    | cons sign front => simp
  · omega

theorem bare_eq_nil_iff : bare l = [] ↔ l = [] :=
  List.map_eq_nil_iff

theorem full_eq_nil_iff : full l = [] ↔ l = [] := by
  cases l with
  | nil => simp
  | cons sign l => cases sign <;> simp

end Signs

/-- The line breaks recorded in a text without its carriage returns and in one with them: both lie
before the same ends of the text. -/
def SameBreaks (l : List Sign) (inBare inFull : List Nat) : Prop :=
  ∃ ends : List (List Sign), (∀ k ∈ ends, k <:+ l) ∧
    inBare = ends.map (fun k => (bare k).length) ∧ inFull = ends.map (fun k => (full k).length)

namespace SameBreaks

variable {l k : List Sign} {inBare inFull inBare' inFull' : List Nat}

theorem nil (l : List Sign) : SameBreaks l [] [] :=
  ⟨[], by simp, rfl, rfl⟩

theorem append (h : SameBreaks l inBare inFull) (h' : SameBreaks l inBare' inFull') :
    SameBreaks l (inBare ++ inBare') (inFull ++ inFull') := by
  obtain ⟨ends, hends, rfl, rfl⟩ := h
  obtain ⟨ends', hends', rfl, rfl⟩ := h'
  exact ⟨ends ++ ends', List.forall_mem_append.mpr ⟨hends, hends'⟩, by rw [List.map_append],
    by rw [List.map_append]⟩

theorem of_suffix (h : SameBreaks k inBare inFull) (hk : k <:+ l) : SameBreaks l inBare inFull := by
  obtain ⟨ends, hends, rfl, rfl⟩ := h
  exact ⟨ends, fun end' hend => (hends end' hend).trans hk, rfl, rfl⟩

/-- A place lies on the same line, with carriage returns and without them. -/
theorem lineAt_eq (h : SameBreaks l inBare inFull) (hk : k <:+ l) :
    lineAt inBare (bare k).length = lineAt inFull (full k).length := by
  obtain ⟨ends, hends, rfl, rfl⟩ := h
  have hsame (behind : List Sign) (hbehind : behind ∈ ends) :
      (bare behind).length < (bare k).length ↔ (full behind).length < (full k).length := by
    rw [length_bare, length_bare]
    rcases List.suffix_or_suffix_of_suffix (hends behind hbehind) hk with hsuffix | hsuffix
    · exact (length_full_lt_iff hsuffix).symm
    · have hle := hsuffix.length_le
      have hfull := (length_full_le_of_suffix hsuffix)
      omega
  simp only [lineAt, ← List.map_reverse, List.findIdx_map]
  refine Nat.le_antisymm (List.findIdx_le_findIdx ?_) (List.findIdx_le_findIdx ?_) <;>
    intro behind hbehind hlt <;> have hiff := hsame behind (List.mem_reverse.mp hbehind)
  · simpa using hiff.mpr (by simpa using hlt)
  · simpa using hiff.mp (by simpa using hlt)

end SameBreaks

theorem breaksBetween_append (front rest : Text) :
    breaksBetween (front ++ rest) rest = breaksIn front.reverse rest.length := by
  rw [breaksBetween, List.length_append, Nat.add_sub_cancel, List.take_left]

theorem sameBreaks_between {l k : List Sign} (hk : k <:+ l) :
    SameBreaks l (breaksBetween (bare l) (bare k)) (breaksBetween (full l) (full k)) := by
  obtain ⟨front, rfl⟩ := hk
  rw [bare_append, full_append, breaksBetween_append, breaksBetween_append]
  induction front using List.reverseRecOn generalizing k with
  | nil => exact .nil _
  | append_singleton front sign ih =>
      have hbehind : SameBreaks (front ++ sign :: k) [(bare k).length] [(full k).length] :=
        ⟨[k], by simpa using (List.suffix_cons sign k).trans (List.suffix_append _ _), rfl, rfl⟩
      have hfront := ih (k := sign :: k)
      rw [bare_append, full_append, List.reverse_append, List.reverse_append, List.append_assoc,
        List.singleton_append]
      cases sign with
      | returnAndFeed => exact hbehind.append hfront
      | character c hreturn =>
          by_cases hfeed : c = '\n'
          · subst hfeed
            exact hbehind.append hfront
          · simpa [breaksIn, hfeed] using hfront

/-- The function leaves the same signs of a text with its carriage returns and without them. -/
def InStep (f : Text → Text) : Prop :=
  ∀ l, ∃ k, k <:+ l ∧ f (bare l) = bare k ∧ f (full l) = full k

/-- The same of a function that can fail. -/
def InStep? (f : Text → Option Text) : Prop :=
  ∀ l, ∃ left : Option (List Sign), (∀ k ∈ left, k <:+ l) ∧
    f (bare l) = left.map bare ∧ f (full l) = left.map full

/-- The condition does not ask for carriage returns. -/
def Agrees (p : Text → Bool) : Prop :=
  ∀ l, p (full l) = p (bare l)

/-- A word within one line. -/
def Unbroken (word : Text) : Prop :=
  '\n' ∉ word ∧ '\r' ∉ word

instance (word : Text) : Decidable (Unbroken word) :=
  inferInstanceAs (Decidable (_ ∧ _))

namespace InStep

variable {f g : Text → Text} {f? : Text → Option Text} {stop : Text → Bool}

/-- A function that goes on as long as something can be taken off. -/
theorem loop (hf : InStep? f?) (hlt : ∀ {s rest}, f? s = .some rest → rest.length < s.length)
    (hg : ∀ s, g s = ((f? s).map g).getD s) : InStep g := by
  intro l
  induction hlength : l.length using Nat.strongRecOn generalizing l with
  | ind n ih =>
      subst hlength
      obtain ⟨left, hleft, hbare, hfull⟩ := hf l
      cases left with
      | none => exact ⟨l, List.suffix_refl l, by rw [hg, hbare]; rfl, by rw [hg, hfull]; rfl⟩
      | some k =>
          have hshorter : k.length < l.length := by simpa using hlt hbare
          obtain ⟨last, hlast, hbare', hfull'⟩ := ih k.length hshorter k rfl
          refine ⟨last, hlast.trans (hleft k rfl), ?_, ?_⟩
          · rw [hg, hbare]
            exact hbare'
          · rw [hg, hfull]
            exact hfull'

end InStep

namespace InStep?

variable {f g : Text → Option Text}

theorem bind (hf : InStep? f) (hg : InStep? g) : InStep? fun s => (f s).bind g := by
  intro l
  dsimp only
  obtain ⟨left, hleft, hbare, hfull⟩ := hf l
  cases left with
  | none => exact ⟨none, by simp, by rw [hbare]; rfl, by rw [hfull]; rfl⟩
  | some k =>
      obtain ⟨left', hleft', hbare', hfull'⟩ := hg k
      refine ⟨left', fun k' hk' => (hleft' k' hk').trans (hleft k rfl), ?_, ?_⟩
      · rw [hbare]
        exact hbare'
      · rw [hfull]
        exact hfull'

/-- Takes something off before `g` if there is something to take off. -/
theorem orSelf (hf : InStep? f) (hg : InStep? g) : InStep? fun s => g ((f s).getD s) := by
  intro l
  dsimp only
  obtain ⟨left, hleft, hbare, hfull⟩ := hf l
  have hk : left.getD l <:+ l := by
    cases left with
    | none => exact List.suffix_refl l
    | some k => exact hleft k rfl
  obtain ⟨left', hleft', hbare', hfull'⟩ := hg (left.getD l)
  refine ⟨left', fun k' hk' => (hleft' k' hk').trans hk, ?_, ?_⟩
  · rw [hbare, ← hbare', Option.getD_map]
  · rw [hfull, ← hfull', Option.getD_map]

theorem agrees_isSome (hf : InStep? f) : Agrees fun s => (f s).isSome := by
  intro l
  obtain ⟨left, -, hbare, hfull⟩ := hf l
  change (f (full l)).isSome = (f (bare l)).isSome
  rw [hbare, hfull, Option.isSome_map, Option.isSome_map]

end InStep?

section Blanks

theorem lineBreak?_inStep : InStep? lineBreak? := by
  rintro (_ | ⟨⟨c, hreturn⟩ | _, l⟩)
  · exact ⟨none, by simp, rfl, rfl⟩
  · by_cases hfeed : c = '\n'
    · subst hfeed
      exact ⟨some l, by simp, rfl, rfl⟩
    · have hnone (s : Text) : lineBreak? (c :: s) = none :=
        Option.not_isSome_iff_eq_none.mp <| by
          simpa [atLineBreak] using atLineBreak_cons hfeed hreturn s
      exact ⟨none, by simp, hnone _, hnone _⟩
  · exact ⟨some l, by simp, rfl, rfl⟩

theorem atLineBreak_agrees : Agrees atLineBreak :=
  lineBreak?_inStep.agrees_isSome

theorem skipSpaces_inStep : InStep skipSpaces := by
  intro l
  induction l with
  | nil => exact ⟨[], List.suffix_refl _, rfl, rfl⟩
  | cons sign l ih =>
      cases sign with
      | returnAndFeed => exact ⟨_, List.suffix_refl _, rfl, rfl⟩
      | character c hreturn =>
          by_cases hspace : isSpace c = true
          · obtain ⟨k, hk, hbare, hfull⟩ := ih
            refine ⟨k, hk.trans (List.suffix_cons _ _), ?_, ?_⟩
            · exact (List.dropWhile_cons_of_pos hspace).trans hbare
            · exact (List.dropWhile_cons_of_pos hspace).trans hfull
          · exact ⟨_, List.suffix_refl _, List.dropWhile_cons_of_neg hspace,
              List.dropWhile_cons_of_neg hspace⟩

/-- What stands before the end of a line, or before something earlier, has no carriage return. -/
theorem splitBefore_inStep {stop : Text → Bool} (hstop : Agrees stop)
    (hfeed : ∀ s, stop ('\n' :: s) = true) (l : List Sign) :
    ∃ t k, k <:+ l ∧ splitBefore stop (bare l) = (t, bare k) ∧
      splitBefore stop (full l) = (t, full k) := by
  induction l with
  | nil => exact ⟨[], [], List.suffix_refl _, rfl, rfl⟩
  | cons sign l ih =>
      by_cases hends : stop (bare (sign :: l)) = true
      · have hfull : stop (full (sign :: l)) = true := (hstop _).trans hends
        refine ⟨[], sign :: l, List.suffix_refl _, ?_, ?_⟩
        · exact splitBefore_of_stop (t := []) (by simp) hends
        · exact splitBefore_of_stop (t := []) (by simp) hfull
      · cases sign with
        | returnAndFeed => exact absurd (hfeed _) hends
        | character c hreturn =>
            have hgoes : ¬ stop (c :: bare l) = true := hends
            have hfull : ¬ stop (c :: full l) = true := fun h => hends ((hstop _).symm.trans h)
            obtain ⟨t, k, hk, hbare, hfull'⟩ := ih
            refine ⟨c :: t, k, hk.trans (List.suffix_cons _ _), ?_, ?_⟩
            · rw [bare_character_cons, splitBefore, if_neg hgoes, hbare]
            · rw [full_character_cons, splitBefore, if_neg hfull, hfull']

theorem comment?_inStep : InStep? comment? := by
  intro l
  obtain ⟨k, hk, hbare, hfull⟩ := skipSpaces_inStep l
  unfold comment?
  rw [hbare, hfull]
  rcases k with _ | ⟨⟨c, hreturn⟩ | _, k⟩
  · exact ⟨none, by simp, rfl, rfl⟩
  · by_cases hmark : c = '#'
    · subst hmark
      obtain ⟨t, behind, hbehind, hbare', hfull'⟩ :=
        splitBefore_inStep atLineBreak_agrees (fun _ => rfl) k
      refine ⟨some behind, ?_, ?_, ?_⟩
      · simpa using hbehind.trans ((List.suffix_cons _ _).trans hk)
      · exact congrArg (fun parts => some parts.2) hbare'
      · exact congrArg (fun parts => some parts.2) hfull'
    · refine ⟨none, by simp, ?_, ?_⟩ <;> simp [hmark]
  · exact ⟨none, by simp, rfl, rfl⟩

theorem lineEnd?_returnAndFeed (s : Text) : lineEnd? ('\r' :: '\n' :: s) = some s := by
  have hcomment : comment? ('\r' :: '\n' :: s) = none := rfl
  rw [lineEnd?, hcomment]
  rfl

theorem lineEnd?_inStep : InStep? lineEnd? :=
  comment?_inStep.orSelf lineBreak?_inStep

/-- One step over blank text. -/
def blank? : Text → Option Text
  | [] => none
  | c :: s => if isSpace c then some s else lineEnd? (c :: s)

theorem blank?_inStep : InStep? blank? := by
  intro l
  rcases l with _ | ⟨⟨c, hreturn⟩ | _, l⟩
  · exact ⟨none, by simp, rfl, rfl⟩
  · by_cases hspace : isSpace c = true
    · exact ⟨some l, by simp, by simp [blank?, hspace], by simp [blank?, hspace]⟩
    · have hend := lineEnd?_inStep (.character c hreturn :: l)
      simpa only [bare_character_cons, full_character_cons, blank?, if_neg hspace] using hend
  · exact lineEnd?_inStep (.returnAndFeed :: l)

theorem length_of_blank? {s rest : Text} (h : blank? s = some rest) :
    rest.length < s.length := by
  unfold blank? at h
  split at h
  · contradiction
  · split at h
    · obtain rfl := Option.some.inj h
      exact Nat.lt_succ_self _
    · exact length_of_lineEnd? h

theorem skipBlankLines_inStep : InStep skipBlankLines := by
  refine .loop blank?_inStep length_of_blank? fun s => ?_
  cases s with
  | nil => rw [skipBlankLines]; rfl
  | cons c s =>
      rw [skipBlankLines, blank?]
      split
      · rfl
      · split <;> simp_all

theorem skipLineEnds_inStep : InStep skipLineEnds := by
  refine .loop lineEnd?_inStep length_of_lineEnd? fun s => ?_
  rw [skipLineEnds]
  split <;> simp_all

theorem lineRest?_eq (s : Text) :
    lineRest? s = if s = [] ∨ (skipBlankLines s).length < s.length then some (skipBlankLines s)
      else none := by
  cases s with
  | nil => rw [skipBlankLines]; rfl
  | cons c s => simp [lineRest?]

theorem lineRest?_inStep : InStep? lineRest? := by
  intro l
  obtain ⟨k, hk, hbare, hfull⟩ := skipBlankLines_inStep l
  rw [lineRest?_eq, lineRest?_eq, hbare, hfull]
  by_cases hends : l = [] ∨ k.length < l.length
  · refine ⟨some k, by simpa using hk, if_pos ?_, if_pos ?_⟩
    · rwa [bare_eq_nil_iff, length_bare, length_bare]
    · rwa [full_eq_nil_iff, length_full_lt_iff hk]
  · refine ⟨none, by simp, if_neg ?_, if_neg ?_⟩
    · rwa [bare_eq_nil_iff, length_bare, length_bare]
    · rwa [full_eq_nil_iff, length_full_lt_iff hk]

theorem commentLine?_inStep : InStep? commentLine? :=
  comment?_inStep.bind lineRest?_inStep

theorem skipComments_inStep : InStep skipComments := by
  refine .loop commentLine?_inStep length_of_commentLine? fun s => ?_
  rw [skipComments]
  split <;> simp_all

theorem skipSpacesAndBreaks_inStep : InStep skipSpacesAndBreaks := by
  intro l
  induction l with
  | nil => exact ⟨[], List.suffix_refl _, rfl, rfl⟩
  | cons sign l ih =>
      obtain ⟨k, hk, hbare, hfull⟩ := ih
      have hk' : k <:+ sign :: l := hk.trans (List.suffix_cons _ _)
      cases sign with
      | returnAndFeed => exact ⟨k, hk', hbare, hfull⟩
      | character c hreturn =>
          have hcons (s : Text) : skipSpacesAndBreaks (c :: s) =
              if isSpace c || c = '\n' then skipSpacesAndBreaks s else c :: s := by
            rw [skipSpacesAndBreaks]
            rintro s rfl
            exact absurd rfl hreturn
          rw [bare_character_cons, full_character_cons, hcons, hcons]
          split
          · exact ⟨k, hk', hbare, hfull⟩
          · exact ⟨_, List.suffix_refl _, rfl, rfl⟩

/-- A word within one line begins a text with its carriage returns and without them, or neither. -/
theorem prefix_inStep {word : Text} (h : Unbroken word) (l : List Sign) :
    (∃ k, k <:+ l ∧ bare l = word ++ bare k ∧ full l = word ++ full k) ∨
      ¬ word <+: bare l ∧ ¬ word <+: full l := by
  induction word generalizing l with
  | nil => exact .inl ⟨l, List.suffix_refl l, rfl, rfl⟩
  | cons c word ih =>
      have hc : c ≠ '\n' ∧ c ≠ '\r' :=
        ⟨fun heq => h.1 (heq ▸ List.mem_cons_self), fun heq => h.2 (heq ▸ List.mem_cons_self)⟩
      rcases l with _ | ⟨⟨d, hreturn⟩ | _, l⟩
      · exact .inr (by simp)
      · by_cases heq : c = d
        · subst heq
          have hrest : Unbroken word :=
            ⟨List.not_mem_of_not_mem_cons h.1, List.not_mem_of_not_mem_cons h.2⟩
          rcases ih hrest l with ⟨k, hk, hbare, hfull⟩ | hneither
          · exact .inl ⟨k, hk.trans (List.suffix_cons _ _), congrArg (c :: ·) hbare,
              congrArg (c :: ·) hfull⟩
          · exact .inr (by simpa using hneither)
        · exact .inr (by simp [heq])
      · exact .inr (by simp [hc])

theorem isPrefixOf_full {word : Text} (h : Unbroken word) (l : List Sign) :
    word.isPrefixOf (full l) = word.isPrefixOf (bare l) := by
  rw [Bool.eq_iff_iff, List.isPrefixOf_iff_prefix, List.isPrefixOf_iff_prefix]
  rcases prefix_inStep h l with ⟨k, -, hbare, hfull⟩ | ⟨hbare, hfull⟩
  · simp [hbare, hfull]
  · simp [hbare, hfull]

/-- One step through a docstring, over a character or over the rest of a line. -/
def unquoted? (quotes : Text) : Text → Option Text
  | [] => none
  | c :: s => if quotes.isPrefixOf (c :: s) then none else some ((lineEnd? (c :: s)).getD s)

theorem unquoted?_cons {quotes s : Text} {c : Char} (h : ¬ quotes.isPrefixOf (c :: s) = true) :
    unquoted? quotes (c :: s) = some ((lineEnd? (c :: s)).getD s) :=
  if_neg h

theorem unquoted?_inStep {quotes : Text} (h : Unbroken quotes) : InStep? (unquoted? quotes) := by
  rintro (_ | ⟨sign, l⟩)
  · exact ⟨none, by simp, rfl, rfl⟩
  · have hagree := isPrefixOf_full h (sign :: l)
    by_cases hquotes : quotes.isPrefixOf (bare (sign :: l)) = true
    · have hfull := hagree.trans hquotes
      refine ⟨none, by simp, ?_, ?_⟩
      · cases sign <;> exact if_pos hquotes
      · cases sign <;> exact if_pos hfull
    · have hfull : ¬ quotes.isPrefixOf (full (sign :: l)) = true := hagree ▸ hquotes
      cases sign with
      | returnAndFeed =>
          refine ⟨some l, by simp, (unquoted?_cons hquotes).trans ?_, ?_⟩
          · rw [lineEnd?_lineFeed]
            rfl
          · rw [full_returnAndFeed_cons] at hfull ⊢
            rw [unquoted?_cons hfull, lineEnd?_returnAndFeed]
            rfl
      | character c hreturn =>
          obtain ⟨left, hleft, hbare', hfull'⟩ := lineEnd?_inStep (.character c hreturn :: l)
          rw [bare_character_cons] at hquotes hbare' ⊢
          rw [full_character_cons] at hfull hfull' ⊢
          refine ⟨some (left.getD l), ?_, ?_, ?_⟩
          · cases left with
            | none => simp
            | some k => simpa using hleft k rfl
          · rw [unquoted?_cons hquotes, hbare', Option.getD_map]
            rfl
          · rw [unquoted?_cons hfull, hfull', Option.getD_map]
            rfl

theorem length_of_unquoted? {quotes s rest : Text} (h : unquoted? quotes s = some rest) :
    rest.length < s.length := by
  unfold unquoted? at h
  split at h
  · contradiction
  · rename_i c s
    split at h
    · contradiction
    · obtain rfl := Option.some.inj h
      cases hend : lineEnd? (c :: s) with
      | none => exact Nat.lt_succ_self _
      | some behind => exact length_of_lineEnd? hend

theorem skipToQuotes_inStep {quotes : Text} (h : Unbroken quotes) :
    InStep (skipToQuotes quotes) := by
  refine .loop (unquoted?_inStep h) length_of_unquoted? fun s => ?_
  cases s with
  | nil => rw [skipToQuotes]; rfl
  | cons c s =>
      rw [skipToQuotes, unquoted?]
      split
      · rfl
      · split <;> simp_all

end Blanks

namespace Language

def wordLists (language : Language) : List (List Text) :=
  [language.feature, language.background, language.rule, language.scenario,
    language.scenarioOutline, language.examples, language.givenWords, language.whenWords,
    language.thenWords, language.andWords, language.butWords]

theorem unbroken_of_ofCode? {code : Text} {language : Language}
    (h : ofCode? code = some language) :
    ∀ words ∈ language.wordLists, ∀ word ∈ words, Unbroken word := by
  unfold ofCode? at h
  repeat'
    split at h
    · obtain rfl := Option.some.inj h
      decide +kernel
  contradiction

end Language

end FeatureMarkdown.Gherkin
