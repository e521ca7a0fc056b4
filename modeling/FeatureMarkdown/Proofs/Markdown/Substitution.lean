import FeatureMarkdown.Proofs.Markdown.Placeholders

namespace FeatureMarkdown

namespace PlaceholderStyle

theorem sign_of_ne {c : Char} (style : PlaceholderStyle) (hopen : c ≠ '<') (hclose : c ≠ '>') :
    style.sign c = [c] := by
  cases style <;> simp [sign, hopen, hclose]

theorem apply_append (style : PlaceholderStyle) (first second : Text) :
    style.apply (first ++ second) = style.apply first ++ style.apply second := by
  rw [apply_eq_flatMap_sign, apply_eq_flatMap_sign, apply_eq_flatMap_sign, List.flatMap_append]

theorem apply_cons (style : PlaceholderStyle) (c : Char) (t : Text) :
    style.apply (c :: t) = style.sign c ++ style.apply t := by
  rw [apply_eq_flatMap_sign, apply_eq_flatMap_sign, List.flatMap_cons]

theorem apply_of_bracketFree {t : Text} (style : PlaceholderStyle) (h : t.BracketFree) :
    style.apply t = t := by
  have hbrackets := Text.bracketFree_iff.mp h
  calc
    style.apply t = t.flatMap style.sign := style.apply_eq_flatMap_sign t
    _ = t.flatMap fun c => [c] := by
      refine List.flatMap_congr fun c hc => ?_
      exact style.sign_of_ne (hbrackets c hc).1 (hbrackets c hc).2
    _ = t := List.flatMap_singleton' t

/-- Takes away a backtick before `<` or behind `>`, reading from left to right. -/
def uncode : Text → Text
  | '`' :: '<' :: t => '<' :: uncode t
  | '>' :: '`' :: t => '>' :: uncode t
  | c :: t => c :: uncode t
  | [] => []

/-- No inline code begins with `<`, since a backtick comes before it. So a backtick of the text is
not taken for one that was put in, whatever stands behind it. -/
theorem head?_apply_code_ne (t : Text) : (code.apply t).head? ≠ some '<' := by
  cases t with
  | nil => decide
  | cons c t =>
      rw [apply_cons]
      by_cases hopen : c = '<'
      · subst hopen
        simp [sign]
      · by_cases hclose : c = '>'
        · subst hclose
          simp [sign]
        · simp [sign_of_ne, hopen, hclose]

theorem uncode_apply_code (t : Text) : uncode (code.apply t) = t := by
  induction t with
  | nil => rfl
  | cons c t ih =>
      rw [apply_cons]
      by_cases hopen : c = '<'
      · subst hopen
        change '<' :: uncode (code.apply t) = '<' :: t
        rw [ih]
      · by_cases hclose : c = '>'
        · subst hclose
          change '>' :: uncode (code.apply t) = '>' :: t
          rw [ih]
        · have hnext : ∀ rest, code.apply t ≠ '<' :: rest := by
            intro rest hrest
            exact head?_apply_code_ne t (hrest ▸ rfl)
          rw [code.sign_of_ne hopen hclose, List.singleton_append, uncode, ih]
          · intro rest _ hrest
            exact hnext rest hrest
          · intro rest heq _
            exact hclose heq

theorem bracketFree_apply_brackets (t : Text) : (brackets.apply t).BracketFree := by
  rw [Text.bracketFree_iff, apply_eq_flatMap_sign]
  intro d hd
  obtain ⟨c, -, hd⟩ := List.mem_flatMap.mp hd
  by_cases hopen : c = '<'
  · obtain rfl : d = '[' := by simpa [sign, hopen] using hd
    decide
  · by_cases hclose : c = '>'
    · obtain rfl : d = ']' := by simpa [sign, hclose] using hd
      decide
    · obtain rfl : d = c := by simpa [sign_of_ne, hopen, hclose] using hd
      exact ⟨hopen, hclose⟩

/-- The two replacements of a style are one substitution, made at each character without regard to
the others. Different texts are different as inline code, even if they have backticks beside their
angle brackets; with square brackets no angle bracket is left, and to replace them again changes
nothing. -/
theorem apply_substitutes_characters :
    (∀ (style : PlaceholderStyle) (t : Text), style.apply t = t.flatMap style.sign) ∧
    (∀ (style : PlaceholderStyle) (first second : Text),
      style.apply (first ++ second) = style.apply first ++ style.apply second) ∧
    Function.Injective code.apply ∧
    ∀ t : Text, (brackets.apply t).BracketFree ∧
      brackets.apply (brackets.apply t) = brackets.apply t := by
  refine ⟨apply_eq_flatMap_sign, apply_append, ?_, fun t => ?_⟩
  · exact Function.LeftInverse.injective uncode_apply_code
  · have hfree := bracketFree_apply_brackets t
    exact ⟨hfree, apply_of_bracketFree brackets hfree⟩

example : code.apply "`<a>".toList = "``<a>`".toList ∧
    code.apply "<`a>".toList = "`<`a>`".toList := by
  decide

end PlaceholderStyle

end FeatureMarkdown
