import FeatureMarkdown.Text.Basic

/-!
The blank parts of a feature file: spaces, line breaks and comments. Each function takes the text
that is left and gives what is left after the blank part; those that end in a question mark can
fail to find one.
-/

namespace FeatureMarkdown.Gherkin

def isSpace (c : Char) : Bool :=
  c = ' ' || c = '\t'

def skipSpaces (s : Text) : Text :=
  s.dropWhile isSpace

/-- A line feed, with or without one carriage return before it. -/
def lineBreak? : Text → Option Text
  | '\n' :: s => some s
  | '\r' :: '\n' :: s => some s
  | _ => none

def atLineBreak (s : Text) : Bool :=
  (lineBreak? s).isSome

/-- Splits before the first character at which `stop` holds of the text from there on. -/
def splitBefore (stop : Text → Bool) : Text → Text × Text
  | [] => ([], [])
  | c :: s =>
    if stop (c :: s) then ([], c :: s)
    else
      let parts := splitBefore stop s
      (c :: parts.1, parts.2)

/-- A comment, from the spaces before its `#` up to the end of its line. -/
def comment? (s : Text) : Option Text :=
  match skipSpaces s with
  | '#' :: rest => some (splitBefore atLineBreak rest).2
  | _ => none

/-- A line break, with or without a comment before it. -/
def lineEnd? (s : Text) : Option Text :=
  lineBreak? ((comment? s).getD s)

theorem length_of_lineBreak? {s rest : Text} (h : lineBreak? s = some rest) :
    rest.length < s.length := by
  unfold lineBreak? at h
  split at h
  · obtain rfl := Option.some.inj h
    exact Nat.lt_succ_self _
  · obtain rfl := Option.some.inj h
    exact Nat.lt_succ_of_lt (Nat.lt_succ_self _)
  · contradiction

theorem length_skipSpaces_le (s : Text) : (skipSpaces s).length ≤ s.length :=
  (List.dropWhile_sublist isSpace).length_le

theorem length_splitBefore_le (stop : Text → Bool) (s : Text) :
    (splitBefore stop s).2.length ≤ s.length := by
  induction s with
  | nil => simp [splitBefore]
  | cons c s ih =>
    simp only [splitBefore]
    split
    · simp
    · exact Nat.le_succ_of_le ih

theorem length_of_comment? {s rest : Text} (h : comment? s = some rest) :
    rest.length < s.length := by
  unfold comment? at h
  split at h
  next r hr =>
    obtain rfl := Option.some.inj h
    have hs := length_skipSpaces_le s
    rw [hr] at hs
    exact Nat.lt_of_le_of_lt (length_splitBefore_le atLineBreak r) hs
  · contradiction

theorem length_of_lineEnd? {s rest : Text} (h : lineEnd? s = some rest) :
    rest.length < s.length := by
  unfold lineEnd? at h
  have hb := length_of_lineBreak? h
  cases hc : comment? s with
  | none => simpa [hc] using hb
  | some r =>
    rw [hc] at hb
    exact Nat.lt_trans hb (length_of_comment? hc)

/-- Skips spaces, line breaks and comments that a line break ends. -/
def skipBlankLines : Text → Text
  | [] => []
  | c :: s =>
    if isSpace c then skipBlankLines s
    else
      match _h : lineEnd? (c :: s) with
      | none => c :: s
      | some rest => skipBlankLines rest
termination_by s => s.length
decreasing_by
  · simp
  · exact length_of_lineEnd? _h

/-- Skips line breaks and comments, but no spaces before a line break that no comment precedes. -/
def skipLineEnds (s : Text) : Text :=
  match _h : lineEnd? s with
  | none => s
  | some rest => skipLineEnds rest
termination_by s.length
decreasing_by exact length_of_lineEnd? _h

/-- The blank rest of a line, with the blank lines and comments below it; or the end of the
text. -/
def lineRest? : Text → Option Text
  | [] => some []
  | c :: s =>
    let rest := skipBlankLines (c :: s)
    if rest.length < (c :: s).length then some rest else none

theorem length_lineRest?_le {s rest : Text} (h : lineRest? s = some rest) :
    rest.length ≤ s.length := by
  unfold lineRest? at h
  split at h
  · obtain rfl := Option.some.inj h
    exact Nat.le_refl _
  · dsimp only at h
    split at h
    next hlt =>
      obtain rfl := Option.some.inj h
      exact Nat.le_of_lt hlt
    · contradiction

/-- A comment with the rest of its line. -/
def commentLine? (s : Text) : Option Text :=
  (comment? s).bind lineRest?

theorem length_of_commentLine? {s rest : Text} (h : commentLine? s = some rest) :
    rest.length < s.length := by
  obtain ⟨r, hr, hrest⟩ := Option.bind_eq_some_iff.1 h
  exact Nat.lt_of_le_of_lt (length_lineRest?_le hrest) (length_of_comment? hr)

def skipComments (s : Text) : Text :=
  match _h : commentLine? s with
  | none => s
  | some rest => skipComments rest
termination_by s.length
decreasing_by exact length_of_commentLine? _h

/-- Skips spaces and line breaks, but no comments. -/
def skipSpacesAndBreaks : Text → Text
  | [] => []
  | '\r' :: '\n' :: s => skipSpacesAndBreaks s
  | c :: s => if isSpace c || c = '\n' then skipSpacesAndBreaks s else c :: s

end FeatureMarkdown.Gherkin
