import FeatureMarkdown.Markdown.Render
import FeatureMarkdown.Proofs.Markdown.Endings
import FeatureMarkdown.Proofs.Markdown.SingleLines
import FeatureMarkdown.Proofs.Text.Trimming

/-!
Descriptions as they are shown: lines without blanks at their ends, of which the first and the last
are not empty. Such lines are had back from the text that they make, with any line ending, so to
show a description again changes nothing.
-/

namespace FeatureMarkdown

namespace Text

/-- A character is the first one of its line, unless the line ends there. -/
theorem lines_cons_of_ne {c : Char} {t : Text} (hfeed : c ≠ '\n')
    (hreturn : c = '\r' → t.head? ≠ some '\n') :
    lines (c :: t) = (c :: (lines t).headD []) :: (lines t).tail := by
  rw [lines]
  · cases lines t <;> rfl
  · exact hfeed
  · rintro rest hc rfl
    exact hreturn hc rfl

theorem lines_of_notMem {line : Text} (hne : line ≠ []) (h : '\n' ∉ line) :
    lines line = [line] := by
  induction line with
  | nil => contradiction
  | cons c rest ih =>
      have hrest : '\n' ∉ rest := List.not_mem_of_not_mem_cons h
      have hhead : c = '\r' → rest.head? ≠ some '\n' :=
        fun _ hhead => hrest (List.mem_of_mem_head? hhead)
      rw [lines_cons_of_ne (List.ne_of_not_mem_cons h).symm hhead]
      by_cases hnil : rest = []
      · subst hnil
        rfl
      · rw [ih hnil hrest]
        rfl

/-- A line with its ending is read as that line, if it does not end in a carriage return itself. -/
theorem lines_line_append (ending : LineEnding) {line : Text} (hfeed : '\n' ∉ line)
    (hreturn : line.getLast? ≠ some '\r') (rest : Text) :
    lines (line ++ ending.text ++ rest) = line :: lines rest := by
  induction line with
  | nil => cases ending <;> rfl
  | cons c line ih =>
      have hline : '\n' ∉ line := List.not_mem_of_not_mem_cons hfeed
      have hlast : line.getLast? ≠ some '\r' := by
        intro hlast
        rw [List.getLast?_cons, hlast] at hreturn
        exact hreturn rfl
      have hhead : c = '\r' → (line ++ ending.text ++ rest).head? ≠ some '\n' := by
        rintro rfl hhead
        cases line with
        | nil => exact hreturn rfl
        | cons d line => exact List.ne_of_not_mem_cons hline (Option.some.inj hhead).symm
      rw [List.cons_append, List.cons_append,
        lines_cons_of_ne (List.ne_of_not_mem_cons hfeed).symm hhead, ih hline hlast]
      rfl

theorem lines_eq_nil_iff {t : Text} : lines t = [] ↔ t = [] := by
  constructor
  · intro h
    unfold lines at h
    split at h
    · rfl
    · contradiction
    · contradiction
    · split at h <;> contradiction
  · rintro rfl
    rfl

theorem head?_lines {t : Text} {c : Char} (hc : t.head? = some c) (hblank : isBlank c = false) :
    ∃ line, (lines t).head? = some line ∧ line.head? = some c := by
  obtain ⟨rest, rfl⟩ := List.head?_eq_some_iff.mp hc
  have hfeed : c ≠ '\n' := by
    rintro rfl
    contradiction
  have hreturn : c ≠ '\r' := by
    rintro rfl
    contradiction
  rw [lines_cons_of_ne hfeed fun h => absurd h hreturn]
  exact ⟨_, rfl, rfl⟩

theorem getLast?_of_cons {c d : Char} {t : Text} (h : (d :: t).getLast? = some c) (hne : c ≠ d) :
    t.getLast? = some c := by
  cases t with
  | nil => exact absurd (Option.some.inj h).symm hne
  | cons e t => rwa [List.getLast?_cons_cons] at h

/-- Unless a text ends in a line feed, its last character is the last one of its last line. -/
theorem getLast?_lines {t : Text} {c : Char} (hc : t.getLast? = some c) (hfeed : c ≠ '\n') :
    ∃ line, (lines t).getLast? = some line ∧ line.getLast? = some c := by
  fun_induction lines t with
  | case1 => contradiction
  | case2 t ih =>
      obtain ⟨line, hline, hlast⟩ := ih (getLast?_of_cons hc hfeed)
      exact ⟨line, by rw [List.getLast?_cons, hline]; rfl, hlast⟩
  | case3 t ih =>
      rw [List.getLast?_cons_cons] at hc
      obtain ⟨line, hline, hlast⟩ := ih (getLast?_of_cons hc hfeed)
      exact ⟨line, by rw [List.getLast?_cons, hline]; rfl, hlast⟩
  | case4 d t _ _ hlines ih =>
      obtain rfl : t = [] := lines_eq_nil_iff.mp hlines
      exact ⟨[d], rfl, hc⟩
  | case5 d t _ _ first rest hlines ih =>
      have hne : t ≠ [] := by
        rintro rfl
        contradiction
      obtain ⟨e, t, rfl⟩ := List.exists_cons_of_ne_nil hne
      obtain ⟨line, hline, hlast⟩ := ih hc
      rw [hlines] at hline
      cases rest with
      | nil =>
          obtain rfl : first = line := Option.some.inj hline
          exact ⟨d :: first, rfl, by rw [List.getLast?_cons, hlast]; rfl⟩
      | cons second rest => exact ⟨line, hline, hlast⟩

end Text

/-- The lines have no blanks at their ends, and the first and the last of them are not empty. -/
structure CleanLines (lines : List Text) : Prop where
  trimmed : ∀ line ∈ lines, line.IsTrimmed
  single : SingleLines lines
  first_ne : ∀ line, lines.head? = some line → line ≠ []
  last_ne : ∀ line, lines.getLast? = some line → line ≠ []

/-- Some line is shown exactly if the description has more than blanks. -/
theorem descriptionLines_eq_nil_iff {description : Text} :
    descriptionLines description = [] ↔ ∀ c ∈ description, Text.isBlank c = true := by
  rw [descriptionLines, List.map_eq_nil_iff, Text.lines_eq_nil_iff, Text.trim_eq_nil_iff]

theorem trim_ne_nil_of_mem {line : Text} {c : Char} (hc : c ∈ line)
    (hblank : Text.isBlank c = false) : Text.trim line ≠ [] := by
  intro hnil
  simp [Text.trim_eq_nil_iff.mp hnil c hc] at hblank

theorem cleanLines_descriptionLines (description : Text) :
    CleanLines (descriptionLines description) where
  trimmed shown hshown := by
    obtain ⟨line, -, rfl⟩ := List.mem_map.mp hshown
    exact Text.isTrimmed_trim line
  single := singleLines_descriptionLines description
  first_ne shown hshown := by
    obtain ⟨line, hline, rfl⟩ : ∃ line, (Text.lines (Text.trim description)).head? = some line ∧
        Text.trim line = shown := by
      simpa [descriptionLines] using hshown
    cases hc : (Text.trim description).head? with
    | none => simp [List.head?_eq_none_iff.mp hc, Text.lines] at hline
    | some c =>
        have hblank := (Text.isTrimmed_trim description).first c hc
        obtain ⟨other, hother, hfirst⟩ := Text.head?_lines hc hblank
        obtain rfl : other = line := Option.some.inj (hother.symm.trans hline)
        exact trim_ne_nil_of_mem (List.mem_of_mem_head? hfirst) hblank
  last_ne shown hshown := by
    obtain ⟨line, hline, rfl⟩ : ∃ line, (Text.lines (Text.trim description)).getLast? = some line ∧
        Text.trim line = shown := by
      simpa [descriptionLines] using hshown
    cases hc : (Text.trim description).getLast? with
    | none => simp [List.getLast?_eq_none_iff.mp hc, Text.lines] at hline
    | some c =>
        have hblank := (Text.isTrimmed_trim description).last c hc
        have hfeed : c ≠ '\n' := by
          rintro rfl
          contradiction
        obtain ⟨other, hother, hlast⟩ := Text.getLast?_lines hc hfeed
        obtain rfl : other = line := Option.some.inj (hother.symm.trans hline)
        exact trim_ne_nil_of_mem (List.mem_of_getLast? hlast) hblank

/-- Lines of which none ends in a carriage return are read back, with what is behind them. -/
theorem lines_endLines_append (ending : LineEnding) {lines : List Text}
    (hsingle : SingleLines lines) (hreturn : ∀ line ∈ lines, line.getLast? ≠ some '\r')
    (rest : Text) :
    Text.lines (ending.endLines lines ++ rest) = lines ++ Text.lines rest := by
  induction lines with
  | nil => rfl
  | cons line lines ih =>
      obtain ⟨hline, hlines⟩ := SingleLines.cons_iff.mp hsingle
      obtain ⟨hlast, hlasts⟩ := List.forall_mem_cons.mp hreturn
      rw [LineEnding.endLines_cons, List.append_assoc, Text.lines_line_append ending hline hlast,
        ih hlines hlasts]
      rfl

namespace CleanLines

variable {lines : List Text}

theorem getLast?_ne_return (h : CleanLines lines) {line : Text} (hline : line ∈ lines) :
    line.getLast? ≠ some '\r' := by
  intro hlast
  have hblank := (h.trimmed line hline).last _ hlast
  contradiction

theorem lines_endLines (h : CleanLines lines) (ending : LineEnding) :
    Text.lines (ending.endLines lines) = lines := by
  have hlines := lines_endLines_append ending h.single (fun _ => h.getLast?_ne_return) []
  rwa [List.append_nil, Text.lines, List.append_nil] at hlines

theorem map_trim (h : CleanLines lines) : lines.map Text.trim = lines := by
  calc
    lines.map Text.trim = lines.map id :=
      List.map_congr_left fun line hline => (h.trimmed line hline).trim_eq
    _ = lines := List.map_id lines

/-- The text of clean lines, but for its last ending, is trimmed. -/
theorem isTrimmed_endLines_append {front : List Text} {last : Text}
    (h : CleanLines (front ++ [last])) (ending : LineEnding) :
    (ending.endLines front ++ last).IsTrimmed where
  first c hc := by
    cases front with
    | nil => exact (h.trimmed last (by simp)).first c hc
    | cons line front =>
        have hne : line ≠ [] := h.first_ne line rfl
        rw [LineEnding.endLines_cons, List.append_assoc, List.append_assoc,
          List.head?_append_of_ne_nil _ hne] at hc
        exact (h.trimmed line (by simp)).first c hc
  last c hc := by
    have hne : last ≠ [] := h.last_ne last (by simp)
    rw [List.getLast?_append_of_ne_nil _ hne] at hc
    exact (h.trimmed last (by simp)).last c hc

/-- Clean lines are a description that is shown as it is, whatever ends its lines. -/
theorem descriptionLines_endLines (h : CleanLines lines) (ending : LineEnding) :
    descriptionLines (ending.endLines lines) = lines := by
  rcases List.eq_nil_or_concat' lines with rfl | ⟨front, last, rfl⟩
  · rfl
  · obtain ⟨hfront, hlast⟩ : SingleLines front ∧ '\n' ∉ last := by simpa using h.single
    have hblank : ∀ c ∈ ending.text, Text.isBlank c = true := by
      cases ending <;> decide
    have htrim : Text.trim (ending.endLines (front ++ [last])) = ending.endLines front ++ last := by
      rw [← (h.isTrimmed_endLines_append ending).trim_append hblank]
      simp [LineEnding.endLines]
    have hreturn : ∀ line ∈ front, line.getLast? ≠ some '\r' :=
      fun line hline => h.getLast?_ne_return (List.mem_append_left _ hline)
    rw [descriptionLines, htrim, lines_endLines_append ending hfront hreturn,
      Text.lines_of_notMem (h.last_ne last (by simp)) hlast, h.map_trim]

end CleanLines

namespace RenderOptions

theorem lines_renderDescription (options : RenderOptions) (description : Text) :
    Text.lines (options.renderDescription description) = descriptionLines description :=
  (cleanLines_descriptionLines description).lines_endLines options.lineEnding

/-- What is shown of a description is, as a description, shown as the same lines, with whatever line
endings the two are shown. Nothing is shown exactly if there are only blanks; else the lines are
those of the trimmed description, each without the blanks at its ends, and the first and the last of
them are not empty. -/
theorem renderDescription_normal_form (first second : RenderOptions) (description : Text) :
    second.renderDescription (first.renderDescription description) =
      second.renderDescription description ∧
    (first.renderDescription description = [] ↔ ∀ c ∈ description, Text.isBlank c = true) ∧
    let shown := Text.lines (first.renderDescription description)
    shown = (Text.lines (Text.trim description)).map Text.trim ∧
      shown.length = (Text.lines (Text.trim description)).length ∧
      (∀ line ∈ shown, line.IsTrimmed) ∧
      (∀ line, shown.head? = some line → line ≠ []) ∧
      ∀ line, shown.getLast? = some line → line ≠ [] := by
  have hclean := cleanLines_descriptionLines description
  refine ⟨?_, ?_, ?_⟩
  · exact congrArg second.lineEnding.endLines (hclean.descriptionLines_endLines first.lineEnding)
  · rw [← descriptionLines_eq_nil_iff, ← first.lines_renderDescription, Text.lines_eq_nil_iff]
  · intro shown
    have hshown : shown = descriptionLines description := first.lines_renderDescription description
    rw [hshown]
    exact ⟨rfl, List.length_map _, hclean.trimmed, hclean.first_ne, hclean.last_ne⟩

example : ({ lineEnding := .crlf } : RenderOptions).renderDescription
      " \n\ta\r\r\n\x85\r\n\rb\rc \n".toList =
    "a\r\n\r\nb\rc\r\n".toList := by
  decide

end RenderOptions

end FeatureMarkdown
