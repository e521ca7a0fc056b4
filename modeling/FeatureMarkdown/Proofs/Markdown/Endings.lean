import FeatureMarkdown.Markdown.LineEnding

namespace FeatureMarkdown

/-- What stands before the first `mark`, and what stands behind it. -/
theorem append_mark_inj {α : Type} {mark : α} {first second rest others : List α}
    (hfirst : mark ∉ first) (hsecond : mark ∉ second)
    (h : first ++ mark :: rest = second ++ mark :: others) : first = second ∧ rest = others := by
  induction first generalizing second with
  | nil =>
      cases second with
      | nil => exact ⟨rfl, (List.cons.inj h).2⟩
      | cons b second => exact absurd (List.cons.inj h).1 (List.ne_of_not_mem_cons hsecond)
  | cons a first ih =>
      cases second with
      | nil => exact absurd (List.cons.inj h).1.symm (List.ne_of_not_mem_cons hfirst)
      | cons b second =>
          obtain ⟨rfl, hrest⟩ := List.cons.inj h
          obtain ⟨rfl, rfl⟩ := ih (List.not_mem_of_not_mem_cons hfirst)
            (List.not_mem_of_not_mem_cons hsecond) hrest
          exact ⟨rfl, rfl⟩

namespace LineEnding

/-- A line ending has one line feed, and that is its last character. -/
theorem text_eq_concat (ending : LineEnding) :
    ∃ before : Text, '\n' ∉ before ∧ ending.text = before ++ ['\n'] := by
  cases ending with
  | lf => exact ⟨[], by simp, rfl⟩
  | crlf => exact ⟨['\r'], by decide, rfl⟩
  | native => exact ⟨[], by simp, rfl⟩

theorem endLines_cons (ending : LineEnding) (line : Text) (rest : List Text) :
    ending.endLines (line :: rest) = line ++ ending.text ++ ending.endLines rest := by
  simp [endLines]

theorem endLines_cons_inj {ending : LineEnding} {line other : Text} {lines others : List Text}
    (hline : '\n' ∉ line) (hother : '\n' ∉ other)
    (h : ending.endLines (line :: lines) = ending.endLines (other :: others)) :
    line = other ∧ ending.endLines lines = ending.endLines others := by
  obtain ⟨before, hbefore, hending⟩ := ending.text_eq_concat
  have hsplit : (line ++ before) ++ '\n' :: ending.endLines lines =
      (other ++ before) ++ '\n' :: ending.endLines others := by
    simpa [endLines_cons, hending] using h
  have hfirst : '\n' ∉ line ++ before := by simp [hline, hbefore]
  have hsecond : '\n' ∉ other ++ before := by simp [hother, hbefore]
  obtain ⟨hlines, hrest⟩ := append_mark_inj hfirst hsecond hsplit
  exact ⟨List.append_cancel_right hlines, hrest⟩

theorem endLines_ne_nil (ending : LineEnding) (line : Text) (rest : List Text) :
    ending.endLines (line :: rest) ≠ [] := by
  obtain ⟨before, -, hending⟩ := ending.text_eq_concat
  simp [endLines_cons, hending]

theorem endLines_inj {ending : LineEnding} {lines others : List Text}
    (hlines : ∀ line ∈ lines, '\n' ∉ line) (hothers : ∀ line ∈ others, '\n' ∉ line)
    (h : ending.endLines lines = ending.endLines others) : lines = others := by
  induction lines generalizing others with
  | nil =>
      cases others with
      | nil => rfl
      | cons other others => exact absurd h.symm (ending.endLines_ne_nil other others)
  | cons line lines ih =>
      cases others with
      | nil => exact absurd h (ending.endLines_ne_nil line lines)
      | cons other others =>
          obtain ⟨hline, hrest⟩ := endLines_cons_inj (hlines line List.mem_cons_self)
            (hothers other List.mem_cons_self) h
          have hlines' := fun l hl => hlines l (List.mem_cons_of_mem line hl)
          have hothers' := fun l hl => hothers l (List.mem_cons_of_mem other hl)
          rw [hline, ih hlines' hothers' hrest]

end LineEnding

end FeatureMarkdown
