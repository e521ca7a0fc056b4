import FeatureMarkdown.Gherkin.Blank

namespace FeatureMarkdown.Gherkin

variable {s rest : Text}

theorem skipSpaces_suffix (s : Text) : skipSpaces s <:+ s :=
  List.dropWhile_suffix isSpace

theorem splitBefore_append (stop : Text → Bool) (s : Text) :
    (splitBefore stop s).1 ++ (splitBefore stop s).2 = s := by
  induction s with
  | nil => rfl
  | cons c s ih =>
      rw [splitBefore]
      split
      · rfl
      · exact congrArg (c :: ·) ih

theorem splitBefore_suffix (stop : Text → Bool) (s : Text) : (splitBefore stop s).2 <:+ s :=
  ⟨_, splitBefore_append stop s⟩

theorem suffix_of_lineBreak? (h : lineBreak? s = some rest) : rest <:+ s := by
  unfold lineBreak? at h
  split at h
  · exact Option.some.inj h ▸ List.suffix_cons _ _
  · exact Option.some.inj h ▸ (List.suffix_cons _ _).trans (List.suffix_cons _ _)
  · contradiction

theorem suffix_of_comment? (h : comment? s = some rest) : rest <:+ s := by
  unfold comment? at h
  split at h
  next behind hbehind =>
    have hspaces := skipSpaces_suffix s
    rw [hbehind] at hspaces
    exact Option.some.inj h ▸
      (splitBefore_suffix atLineBreak behind).trans ((List.suffix_cons _ _).trans hspaces)
  next => contradiction

theorem suffix_of_lineEnd? (h : lineEnd? s = some rest) : rest <:+ s := by
  have hbreak := suffix_of_lineBreak? h
  cases hcomment : comment? s with
  | none => simpa [hcomment] using hbreak
  | some behind =>
      rw [hcomment] at hbreak
      exact hbreak.trans (suffix_of_comment? hcomment)

theorem skipBlankLines_suffix (s : Text) : skipBlankLines s <:+ s := by
  fun_induction skipBlankLines s with
  | case1 => exact List.suffix_refl _
  | case2 c s hspace ih => exact ih.trans (List.suffix_cons c s)
  | case3 c s hspace hend => exact List.suffix_refl _
  | case4 c s hspace rest hend ih => exact ih.trans (suffix_of_lineEnd? hend)

theorem skipLineEnds_suffix (s : Text) : skipLineEnds s <:+ s := by
  fun_induction skipLineEnds s with
  | case1 s hend => exact List.suffix_refl _
  | case2 s rest hend ih => exact ih.trans (suffix_of_lineEnd? hend)

theorem suffix_of_lineRest? (h : lineRest? s = some rest) : rest <:+ s := by
  unfold lineRest? at h
  split at h
  · exact Option.some.inj h ▸ List.suffix_refl _
  · dsimp only at h
    split at h
    · exact Option.some.inj h ▸ skipBlankLines_suffix _
    · contradiction

theorem suffix_of_commentLine? (h : commentLine? s = some rest) : rest <:+ s := by
  obtain ⟨behind, hcomment, hrest⟩ := Option.bind_eq_some_iff.mp h
  exact (suffix_of_lineRest? hrest).trans (suffix_of_comment? hcomment)

theorem skipComments_suffix (s : Text) : skipComments s <:+ s := by
  fun_induction skipComments s with
  | case1 s hline => exact List.suffix_refl _
  | case2 s rest hline ih => exact ih.trans (suffix_of_commentLine? hline)

/-- A text that begins with no blank part. -/
def Settled (s : Text) : Prop :=
  ∀ c ∈ s.head?, isSpace c = false ∧ c ≠ '\n' ∧ c ≠ '\r' ∧ c ≠ '#'

theorem settled_nil : Settled [] := by
  simp [Settled]

namespace Settled

theorem skipSpaces (h : Settled s) : Gherkin.skipSpaces s = s := by
  cases s with
  | nil => rfl
  | cons c s => exact List.dropWhile_cons_of_neg (by simp [(h c rfl).1])

theorem lineBreak? (h : Settled s) : Gherkin.lineBreak? s = none := by
  unfold Gherkin.lineBreak?
  split
  · exact absurd rfl (h _ rfl).2.1
  · exact absurd rfl (h _ rfl).2.2.1
  · rfl

/-- There is no comment, also behind spaces. -/
theorem comment? (h : Settled (Gherkin.skipSpaces s)) : Gherkin.comment? s = none := by
  unfold Gherkin.comment?
  split
  next behind hbehind =>
    rw [hbehind] at h
    exact absurd rfl (h _ rfl).2.2.2
  next => rfl

theorem comment?_self (h : Settled s) : Gherkin.comment? s = none :=
  comment? (h.skipSpaces.symm ▸ h)

theorem lineEnd? (h : Settled s) : Gherkin.lineEnd? s = none := by
  rw [Gherkin.lineEnd?, h.comment?_self]
  exact h.lineBreak?

theorem skipBlankLines (h : Settled s) : Gherkin.skipBlankLines s = s := by
  cases s with
  | nil => rw [Gherkin.skipBlankLines]
  | cons c s =>
      rw [Gherkin.skipBlankLines, if_neg (by simp [(h c rfl).1])]
      split
      next => rfl
      next rest hend => simp [h.lineEnd?] at hend

theorem skipLineEnds (h : Settled s) : Gherkin.skipLineEnds s = s := by
  rw [Gherkin.skipLineEnds]
  split
  next => rfl
  next rest hend => simp [h.lineEnd?] at hend

theorem skipComments (h : Settled s) : Gherkin.skipComments s = s := by
  rw [Gherkin.skipComments]
  split
  next => rfl
  next rest hline => simp [commentLine?, h.comment?_self] at hline

theorem skipSpacesAndBreaks (h : Settled s) : Gherkin.skipSpacesAndBreaks s = s := by
  unfold Gherkin.skipSpacesAndBreaks
  split
  · rfl
  · exact absurd rfl (h _ rfl).2.2.1
  · simp [(h _ rfl).1, (h _ rfl).2.1]

end Settled

theorem skipSpaces_replicate (n : Nat) (s : Text) :
    skipSpaces (List.replicate n ' ' ++ s) = skipSpaces s := by
  induction n with
  | zero => rfl
  | succ n ih => exact ih

theorem lineEnd?_lineFeed (s : Text) : lineEnd? ('\n' :: s) = some s := by
  have hcomment : comment? ('\n' :: s) = none := rfl
  rw [lineEnd?, hcomment]
  rfl

theorem skipBlankLines_lineFeed (s : Text) : skipBlankLines ('\n' :: s) = skipBlankLines s := by
  rw [skipBlankLines, if_neg (by decide)]
  split
  next hend => simp [lineEnd?_lineFeed] at hend
  next rest hend =>
    obtain rfl := Option.some.inj ((lineEnd?_lineFeed s).symm.trans hend)
    rfl

theorem skipBlankLines_replicate (n : Nat) (s : Text) :
    skipBlankLines (List.replicate n ' ' ++ s) = skipBlankLines s := by
  induction n with
  | zero => rfl
  | succ n ih =>
      rw [List.replicate_succ, List.cons_append, skipBlankLines, if_pos (by decide)]
      exact ih

theorem lineRest?_lineFeed (s : Text) : lineRest? ('\n' :: s) = some (skipBlankLines s) := by
  have hlength := (skipBlankLines_suffix s).length_le
  rw [lineRest?, skipBlankLines_lineFeed]
  simp only [List.length_cons, Nat.lt_succ_of_le hlength, if_true]

/-- The spaces before a text that begins with no blank part stay. -/
theorem skipLineEnds_lineFeed {s : Text} (h : Settled s) (n : Nat) :
    skipLineEnds ('\n' :: (List.replicate n ' ' ++ s)) = List.replicate n ' ' ++ s := by
  have hnone : lineEnd? (List.replicate n ' ' ++ s) = none := by
    have hspaces : skipSpaces (List.replicate n ' ' ++ s) = s :=
      (skipSpaces_replicate n s).trans h.skipSpaces
    have hcomment : comment? (List.replicate n ' ' ++ s) = none :=
      Settled.comment? (hspaces.symm ▸ h)
    rw [lineEnd?, hcomment]
    cases n with
    | zero => exact h.lineBreak?
    | succ n => rfl
  rw [skipLineEnds]
  split
  next hend => simp [lineEnd?_lineFeed] at hend
  next rest hend =>
    obtain rfl := Option.some.inj ((lineEnd?_lineFeed _).symm.trans hend)
    rw [skipLineEnds]
    split
    next => rfl
    next rest hend' => simp [hnone] at hend'

theorem atLineBreak_cons {c : Char} (hfeed : c ≠ '\n') (hreturn : c ≠ '\r') (s : Text) :
    atLineBreak (c :: s) = false := by
  rw [atLineBreak, lineBreak?.eq_def]
  split
  next heq => exact absurd (List.cons.inj heq).1 hfeed
  next heq => exact absurd (List.cons.inj heq).1 hreturn
  next => rfl

theorem splitBefore_of_stop {stop : Text → Bool} {t : Text}
    (ht : ∀ c ∈ t, ∀ s, stop (c :: s) = false) (hrest : stop rest = true) :
    splitBefore stop (t ++ rest) = (t, rest) := by
  induction t with
  | nil =>
      cases rest with
      | nil => rfl
      | cons c rest => rw [List.nil_append, splitBefore, if_pos hrest]
  | cons c t ih =>
      have hc := ht c List.mem_cons_self (t ++ rest)
      rw [List.cons_append, splitBefore, if_neg (by simp [hc]),
        ih fun d hd => ht d (List.mem_cons_of_mem c hd)]

end FeatureMarkdown.Gherkin
