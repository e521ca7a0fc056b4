import FeatureMarkdown.Gherkin.Grammar.Line
import FeatureMarkdown.Proofs.Gherkin.Layout
import FeatureMarkdown.Proofs.Gherkin.Reads
import FeatureMarkdown.Proofs.Text.Trimming

namespace FeatureMarkdown

namespace Text

theorem toNat_of_isAlphanum {c : Char} (h : c.isAlphanum = true) :
    48 ≤ c.toNat ∧ c.toNat ≤ 57 ∨ 65 ≤ c.toNat ∧ c.toNat ≤ 90 ∨ 97 ≤ c.toNat ∧ c.toNat ≤ 122 := by
  rcases Bool.or_eq_true_iff.mp h with halpha | hdigit
  · rcases Bool.or_eq_true_iff.mp halpha with hupper | hlower
    · obtain ⟨hge, hle⟩ := of_decide_eq_true hupper
      exact .inr (.inl ⟨UInt32.le_iff_toNat_le.mp hge, UInt32.le_iff_toNat_le.mp hle⟩)
    · obtain ⟨hge, hle⟩ := Bool.and_eq_true_iff.mp hlower
      exact .inr (.inr ⟨UInt32.le_iff_toNat_le.mp (of_decide_eq_true hge),
        UInt32.le_iff_toNat_le.mp (of_decide_eq_true hle)⟩)
  · exact .inl (Char.isDigit_iff_toNat.mp hdigit)

theorem isBlank_of_isAlphanum {c : Char} (h : c.isAlphanum = true) : isBlank c = false := by
  have hrange := toNat_of_isAlphanum h
  simp only [isBlank, Bool.or_eq_false_iff, Bool.and_eq_false_iff, decide_eq_false_iff_not,
    beq_eq_false_iff_ne]
  omega

theorem trim_trim_append_space (t : Text) : trim (trim t ++ [' ']) = trim t :=
  (isTrimmed_trim t).trim_append (by decide)

/-- A letter or digit at each end, and letters, digits and spaces between them. -/
structure IsTight (t : Text) : Prop where
  first : ∃ c rest, t = c :: rest ∧ c.isAlphanum = true
  last : ∃ front c, t = front ++ [c] ∧ c.isAlphanum = true
  chars : ∀ c ∈ t, c.isAlphanum = true ∨ c = ' '

theorem IsWord.isTight {t : Text} (h : t.IsWord) : t.IsTight := by
  obtain ⟨c, rest, rfl⟩ := List.exists_cons_of_ne_nil h.1
  refine ⟨⟨c, rest, rfl, h.2 c List.mem_cons_self⟩, ?_, fun d hd => .inl (h.2 d hd)⟩
  refine ⟨(c :: rest).dropLast, (c :: rest).getLast h.1, ?_, h.2 _ (List.getLast_mem h.1)⟩
  exact (List.dropLast_concat_getLast h.1).symm

theorem IsTight.append {t t' : Text} (h : t.IsTight) (h' : t'.IsTight) :
    (t ++ [' '] ++ t').IsTight := by
  obtain ⟨c, rest, rfl, hc⟩ := h.first
  obtain ⟨front, d, rfl, hd⟩ := h'.last
  refine ⟨⟨c, _, rfl, hc⟩, ⟨_, d, (List.append_assoc _ _ _).symm, hd⟩, fun e he => ?_⟩
  rcases List.mem_append.mp he with he | he
  · rcases List.mem_append.mp he with he | he
    · exact h.chars e he
    · exact .inr (List.mem_singleton.mp he)
  · exact h'.chars e he

theorem IsPhrase.isTight {t : Text} (h : t.IsPhrase) : t.IsTight := by
  have hjoin (words : List Text) (hne : words ≠ []) (hwords : ∀ word ∈ words, word.IsWord) :
      (join [' '] words).IsTight := by
    induction words with
    | nil => contradiction
    | cons word words ih =>
        have hword := (hwords word List.mem_cons_self).isTight
        cases words with
        | nil => rwa [join, List.intercalate_singleton]
        | cons next words =>
            rw [join, List.intercalate_cons_cons]
            exact hword.append
              (ih (by simp) fun w hw => hwords w (List.mem_cons_of_mem word hw))
  have htight := hjoin _ (List.splitOn_ne_nil ' ' t) h
  rwa [join, List.intercalate_splitOn] at htight

namespace IsTight

variable {t : Text}

theorem ne_nil (h : t.IsTight) : t ≠ [] := by
  obtain ⟨c, rest, rfl, -⟩ := h.first
  exact List.cons_ne_nil c rest

theorem ne_of_mem (h : t.IsTight) {c d : Char} (hc : c ∈ t) (hd : d.isAlphanum = false)
    (hspace : d ≠ ' ') : c ≠ d := by
  rintro rfl
  rcases h.chars c hc with halphanum | rfl
  · simp [hd] at halphanum
  · contradiction

theorem isTrimmed (h : t.IsTight) : t.IsTrimmed where
  first c hc := by
    obtain ⟨d, rest, rfl, hd⟩ := h.first
    exact Option.some.inj hc ▸ isBlank_of_isAlphanum hd
  last c hc := by
    obtain ⟨front, d, rfl, hd⟩ := h.last
    rw [List.getLast?_concat] at hc
    exact Option.some.inj hc ▸ isBlank_of_isAlphanum hd

theorem trim_append_space (h : t.IsTight) : trim (t ++ [' ']) = t :=
  h.isTrimmed.trim_append (by decide)

end IsTight

end Text

namespace Gherkin

open FeatureMarkdown.Gherkin.Parser
open FeatureMarkdown.Gherkin.Layout

variable {s t word : Text} {words lines more : List Text}

theorem Settled.append (h : Settled s) (hne : s ≠ []) (t : Text) : Settled (s ++ t) := by
  obtain ⟨c, rest, rfl⟩ := List.exists_cons_of_ne_nil hne
  exact h

theorem settled_of_isAlphanum {c : Char} (h : c.isAlphanum = true) (rest : Text) :
    Settled (c :: rest) := by
  rintro d hd
  obtain rfl : c = d := by simpa using hd
  have hne {e : Char} (he : e.isAlphanum = false) : c ≠ e := by
    rintro rfl
    simp [h] at he
  exact ⟨by simp [isSpace, hne], hne rfl, hne rfl, hne rfl⟩

theorem settled_of_isTight (h : t.IsTight) (rest : Text) : Settled (t ++ rest) := by
  obtain ⟨c, behind, rfl, hc⟩ := h.first
  exact settled_of_isAlphanum hc _

/-- The text begins with one of the characters, or it is at its end. -/
def HeadIn (chars : List Char) (s : Text) : Prop :=
  ∀ c ∈ s.head?, c ∈ chars

theorem HeadIn.mono {chars wider : List Char} (h : HeadIn chars s) (hchars : chars ⊆ wider) :
    HeadIn wider s :=
  fun c hc => hchars (h c hc)

theorem HeadIn.append {chars : List Char} (h : HeadIn chars s) (hne : s ≠ []) (t : Text) :
    HeadIn chars (s ++ t) := by
  obtain ⟨c, rest, rfl⟩ := List.exists_cons_of_ne_nil hne
  exact h

theorem HeadIn.settled {chars : List Char} (h : HeadIn chars s)
    (hchars : ∀ c ∈ chars, Settled [c]) : Settled s :=
  fun c hc => hchars c (h c hc) c rfl

section Words

/-- Neither is the beginning of the other. -/
def clash (a b : Text) : Bool :=
  !a.isPrefixOf b && !b.isPrefixOf a

theorem not_prefix_of_clash {a b : Text} (h : clash a b = true) (s : Text) : ¬ a <+: b ++ s := by
  intro hprefix
  simp only [clash, Bool.and_eq_true, Bool.not_eq_true', ← Bool.not_eq_true,
    List.isPrefixOf_iff_prefix] at h
  exact (List.prefix_or_prefix_of_prefix hprefix (List.prefix_append b s)).elim h.1 h.2

theorem not_prefix_of_headIn {chars : List Char} (h : HeadIn chars s) (hne : word ≠ [])
    (hword : ¬ HeadIn chars word) : ¬ word <+: s := by
  rintro ⟨rest, rfl⟩
  obtain ⟨c, behind, rfl⟩ := List.exists_cons_of_ne_nil hne
  exact hword h

theorem word_reads (h : words.find? (fun other => !clash other word) = some word) (s : Text) :
    (Gherkin.word words).Reads (word ++ s) word s := by
  have hfind : words.find? (·.isPrefixOf (word ++ s)) = some word := by
    obtain ⟨-, earlier, later, rfl, hearlier⟩ := List.find?_eq_some_iff_append.mp h
    refine List.find?_eq_some_iff_append.mpr ⟨?_, earlier, later, rfl, fun other hother => ?_⟩
    · exact List.isPrefixOf_iff_prefix.mpr (List.prefix_append word s)
    · have hclash : clash other word = true := by simpa using hearlier other hother
      have hprefix : ¬ other.isPrefixOf (word ++ s) = true := fun hprefix =>
        not_prefix_of_clash hclash s (List.isPrefixOf_iff_prefix.mp hprefix)
      exact Bool.not_eq_true' _ ▸ Bool.eq_false_iff.mpr hprefix
  refine fun _ => ⟨word, wordMisses words true (word ++ s).length, [], rfl, ?_⟩
  simp only [Gherkin.word, hfind, List.drop_left]

theorem word_reads_of_prefix (hword : word ∈ words) (h : word <+: s) :
    ∃ found, (Gherkin.word words).Reads s found (s.drop found.length) := by
  have hsome : (words.find? (·.isPrefixOf s)).isSome :=
    List.find?_isSome.mpr ⟨word, hword, List.isPrefixOf_iff_prefix.mpr h⟩
  obtain ⟨found, hfound⟩ := Option.isSome_iff_exists.mp hsome
  exact ⟨found, fun _ => ⟨found, _, [], rfl, by rw [Gherkin.word, hfound]⟩⟩

theorem word_declines (h : ∀ word ∈ words, ¬ word <+: s) : (Gherkin.word words).Declines s := by
  have hfind : words.find? (·.isPrefixOf s) = none :=
    List.find?_eq_none.mpr fun word hword hprefix =>
      h word hword (List.isPrefixOf_iff_prefix.mp hprefix)
  exact fun _ => ⟨_, [], by rw [Gherkin.word, hfind]⟩

theorem keyword_reads (h : words.find? (fun other => !clash other word) = some word)
    (hword : Settled word) (hne : word ≠ []) (s : Text) :
    (keyword words).Reads (word ++ s) word s :=
  .bind (.skip (hword.append hne s).skipComments) (word_reads h s)

theorem keyword_declines (hs : Settled s) (h : ∀ word ∈ words, ¬ word <+: s) :
    (keyword words).Declines s :=
  .bind_of_reads (.skip hs.skipComments) (word_declines h)

theorem keyword_declines_of_headIn {chars : List Char} (h : HeadIn chars s)
    (hchars : ∀ c ∈ chars, Settled [c])
    (hwords : ∀ word ∈ words, word ≠ [] ∧ ¬ HeadIn chars word) : (keyword words).Declines s :=
  keyword_declines (h.settled hchars) fun word hword =>
    not_prefix_of_headIn h (hwords word hword).1 (hwords word hword).2

end Words

section Lines

/-- What is left of the lines behind blank ones. -/
def ahead (lines : List Text) : Text :=
  skipBlankLines (LineEnding.lf.endLines lines)

theorem endLines_cons (line : Text) (lines : List Text) :
    LineEnding.lf.endLines (line :: lines) = line ++ '\n' :: LineEnding.lf.endLines lines := by
  simp [LineEnding.endLines, LineEnding.text]

@[simp] theorem ahead_nil : ahead [] = [] := by
  rw [ahead, LineEnding.endLines_nil, skipBlankLines]

@[simp] theorem ahead_blank (lines : List Text) : ahead ([] :: lines) = ahead lines := by
  rw [ahead, endLines_cons, List.nil_append, skipBlankLines_lineFeed, ahead]

theorem ahead_indented (h : Settled s) (hne : s ≠ []) (depth : Nat) (lines : List Text) :
    ahead (indented depth s :: lines) = s ++ '\n' :: LineEnding.lf.endLines lines := by
  rw [ahead, endLines_cons, indented, List.append_assoc, skipBlankLines_replicate,
    (h.append hne _).skipBlankLines]

theorem length_ahead_le (lines : List Text) :
    (ahead lines).length ≤ (LineEnding.lf.endLines lines).length :=
  (skipBlankLines_suffix _).length_le

theorem length_ahead_lt (h : Settled s) (hne : s ≠ []) (depth : Nat) (more lines : List Text) :
    (ahead lines).length < (ahead (indented depth s :: (more ++ lines))).length := by
  have hle := length_ahead_le lines
  rw [ahead_indented h hne, LineEnding.endLines_append]
  simp only [List.length_append, List.length_cons]
  omega

theorem lineRest_reads (lines : List Text) :
    (require lineRest?).Reads ('\n' :: LineEnding.lf.endLines lines) () (ahead lines) :=
  .require (lineRest?_lineFeed _)

theorem lineText_reads (h : t.IsTight) (s : Text) :
    lineText.Reads (t ++ '\n' :: s) t ('\n' :: s) := by
  refine .someUpTo (splitBefore_of_stop (fun c hc s => ?_) rfl) h.ne_nil
  exact atLineBreak_cons (h.ne_of_mem hc rfl (by decide)) (h.ne_of_mem hc rfl (by decide)) s

/-- The rest of a heading with a name. -/
theorem headingText_reads (h : t.IsTight) (lines : List Text) :
    headingText.Reads (' ' :: (t ++ '\n' :: LineEnding.lf.endLines lines)) t (ahead lines) := by
  have hspace : skipSpaces (' ' :: (t ++ '\n' :: LineEnding.lf.endLines lines)) =
      t ++ '\n' :: LineEnding.lf.endLines lines :=
    (skipSpaces_replicate 1 _).trans (settled_of_isTight h _).skipSpaces
  have hpure : (Pure.pure (Text.trimEnd ((some t).getD [])) : Parser Text).Reads (ahead lines) t
      (ahead lines) := by
    rw [Option.getD_some, h.isTrimmed.trimEnd_eq]
    exact .pure t _
  exact .bind (.skip hspace) (.bind (lineText_reads h _).optional
    (.bind (lineRest_reads lines) hpure))

/-- A heading without a name. -/
theorem headingText_reads_nil (lines : List Text) :
    headingText.Reads ('\n' :: LineEnding.lf.endLines lines) [] (ahead lines) := by
  have hdeclines : lineText.Declines ('\n' :: LineEnding.lf.endLines lines) :=
    .someUpTo rfl
  exact .bind (.skip rfl) (.bind (.optional_of_declines hdeclines)
    (.bind (lineRest_reads lines) (.pure _ _)))

/-- Where a tag or one of the words ends it there is no description. -/
theorem description_reads_none {ends : List Text} (hs : Settled s)
    (hends : "@".toList <+: s ∨ ∃ word ∈ ends, word <+: s) : (description ends).Reads s none s := by
  have hline : (descriptionLine ends).Declines s := by
    refine .bind_of_reads (.skip hs.skipSpaces) ?_
    rcases hends with hat | ⟨word, hword, hprefix⟩
    · exact .bind (.absent (List.isPrefixOf_iff_prefix.mpr hat))
    · by_cases hat : "@".toList <+: s
      · exact .bind (.absent (List.isPrefixOf_iff_prefix.mpr hat))
      · obtain ⟨found, hfound⟩ := word_reads_of_prefix hword hprefix
        have hkeyword : (keyword ends).Reads s found (s.drop found.length) :=
          .bind (.skip hs.skipComments) hfound
        have habsent : "@".toList.isPrefixOf s = false :=
          Bool.eq_false_iff.mpr fun hat' => hat (List.isPrefixOf_iff_prefix.mp hat')
        exact .bind_of_reads (.absent habsent) (.bind (.forbid hkeyword))
  exact .bind (.orEmpty_of_declines (.separated hline))
    (.bind (.skip hs.skipBlankLines) (.pure _ _))

/-- The parser reads the lines of a member, and only them, if lines that fit come next. What it
yields is told by `g`. -/
structure ReadsLines {α β γ : Type} (p : Parser α) (linesOf : β → List Text)
    (fit : List Text → Prop) (g : α → γ) (f : β → γ) (x : β) : Prop where
  fits : ∀ more, fit (linesOf x ++ more)
  shorter : ∀ more, (ahead more).length < (ahead (linesOf x ++ more)).length
  reads : ∀ more, fit more → p.ReadsAs g (ahead (linesOf x ++ more)) (f x) (ahead more)

section Repetition

variable {α β γ : Type} {p q : Parser α} {linesOf : β → List Text} {fit : List Text → Prop}
  {g : α → γ} {f : β → γ} {xs : List β}

theorem fits_flatMap (h : ∀ x ∈ xs, ReadsLines p linesOf fit g f x) (hmore : fit more) :
    fit (xs.flatMap linesOf ++ more) := by
  cases xs with
  | nil => exact hmore
  | cons x xs =>
      rw [List.flatMap_cons, List.append_assoc]
      exact (h x List.mem_cons_self).fits _

theorem many_reads_lines (h : ∀ x ∈ xs, ReadsLines p linesOf fit g f x) (hmore : fit more)
    (hend : p.Declines (ahead more)) :
    Parser.ReadsAs (many p) (List.map g) (ahead (xs.flatMap linesOf ++ more)) (xs.map f)
      (ahead more) := by
  induction xs with
  | nil => exact .many_nil hend
  | cons x xs ih =>
      have hx := h x List.mem_cons_self
      have hothers := fun y hy => h y (List.mem_cons_of_mem x hy)
      have hfirst := hx.reads _ (fits_flatMap hothers hmore)
      rw [List.flatMap_cons, List.append_assoc]
      exact .many_cons hfirst (hx.shorter _) (ih hothers)

theorem ReadsLines.skipSpaces {x : β} (h : ReadsLines p linesOf fit g f x)
    (hfit : ∀ more, fit more → Settled (ahead more)) :
    ReadsLines (do skip Gherkin.skipSpaces; p) linesOf fit g f x where
  fits := h.fits
  shorter := h.shorter
  reads more hmore := .bind (.skip (hfit _ (h.fits more)).skipSpaces) (h.reads more hmore)

theorem separated_reads_lines (hne : xs ≠ []) (hp : ∀ x ∈ xs, ReadsLines p linesOf fit g f x)
    (hq : ∀ x ∈ xs, ReadsLines q linesOf fit g f x)
    (hfit : ∀ more, fit more → Settled (ahead more)) (hmore : fit more)
    (hend : q.Declines (ahead more)) :
    (separated skipSpaces p q).ReadsAs (List.map g) (ahead (xs.flatMap linesOf ++ more))
      (xs.map f) (ahead more) := by
  obtain ⟨x, xs, rfl⟩ := List.exists_cons_of_ne_nil hne
  have hend' : (do skip skipSpaces; q : Parser α).Declines (ahead more) :=
    .bind_of_reads (.skip (hfit more hmore).skipSpaces) hend
  have hothers : ∀ y ∈ xs, ReadsLines (do skip skipSpaces; q) linesOf fit g f y :=
    fun y hy => (hq y (List.mem_cons_of_mem x hy)).skipSpaces hfit
  have hfirst := (hp x List.mem_cons_self).reads _ (fits_flatMap hothers hmore)
  rw [List.flatMap_cons, List.append_assoc]
  exact .separated hfirst (many_reads_lines hothers hmore hend')

end Repetition

end Lines

end Gherkin

end FeatureMarkdown
