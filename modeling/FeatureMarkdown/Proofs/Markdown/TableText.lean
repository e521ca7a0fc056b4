import FeatureMarkdown.Markdown.Render
import FeatureMarkdown.Proofs.Markdown.Columns
import FeatureMarkdown.Proofs.Markdown.Endings
import Mathlib.Data.List.DropRight

/-!
A table can be told from its text, up to the spaces at the ends of its cells, although cells are
not escaped: the separator tells how wide the columns are, and then a cell is found by counting.
-/

namespace FeatureMarkdown

/-- The texts differ at most by spaces at their ends. -/
def SamePadded (first second : Text) : Prop :=
  first.rdropWhile (· = ' ') = second.rdropWhile (· = ' ')

theorem rdropWhile_append_spaces (t : Text) (n : Nat) :
    (t ++ List.replicate n ' ').rdropWhile (· = ' ') = t.rdropWhile (· = ' ') := by
  induction n with
  | zero => simp
  | succ n ih =>
      rw [List.replicate_succ', ← List.append_assoc, List.rdropWhile_concat_pos _ _ _ (by simp), ih]

namespace ColumnWidths

variable {widths others : List Nat} {row other : List Text}

theorem length_pad {width : Nat} {cell : Text} (h : cell.length ≤ width) :
    (pad width cell).length = width := by
  simp only [pad, List.length_append, List.length_replicate]
  omega

theorem samePadded_of_pad_eq {width : Nat} {first second : Text}
    (h : pad width first = pad width second) : SamePadded first second := by
  have hdrop := congrArg (List.rdropWhile (· = ' ')) h
  rwa [pad, pad, rdropWhile_append_spaces, rdropWhile_append_spaces] at hdrop

theorem formatRow_cons (width : Nat) (widths : List Nat) (cell : Text) (row : List Text) :
    formatRow ⟨width :: widths⟩ (cell :: row) =
      (['|', ' '] ++ pad width cell ++ [' ']) ++ formatRow ⟨widths⟩ row := by
  simp [formatRow]

theorem samePadded_of_formatRow_eq (hrow : Fits widths row) (hother : Fits widths other)
    (h : formatRow ⟨widths⟩ row = formatRow ⟨widths⟩ other) :
    List.Forall₂ SamePadded row other := by
  induction hrow generalizing other with
  | nil =>
      cases hother
      exact .nil
  | @cons cell width row widths hcell _ ih =>
      cases hother with
      | @cons cell' _ other' _ hcell' hother' =>
          rw [formatRow_cons, formatRow_cons] at h
          have hlength : (['|', ' '] ++ pad width cell ++ [' ']).length =
              (['|', ' '] ++ pad width cell' ++ [' ']).length := by
            simp [length_pad hcell, length_pad hcell']
          obtain ⟨hfirst, hrest⟩ := List.append_inj h hlength
          have hpad : pad width cell = pad width cell' := by simpa using hfirst
          exact .cons (samePadded_of_pad_eq hpad) (ih hother' hrest)

theorem formatSeparator_cons (width : Nat) (widths : List Nat) (terminator : Text) :
    formatSeparator ⟨width :: widths⟩ terminator =
      ['|', ' '] ++ (List.replicate width '-' ++ ' ' :: formatSeparator ⟨widths⟩ terminator) := by
  simp [formatSeparator]

/-- No separator begins as one without columns does: there a dash stands third. -/
theorem formatSeparator_cons_ne_nil {width : Nat} (hwidth : minimum ≤ width) (widths : List Nat)
    (style : TableStyle) :
    formatSeparator ⟨width :: widths⟩ style.separatorEnd ≠ formatSeparator ⟨[]⟩ style.separatorEnd := by
  obtain ⟨n, rfl⟩ : ∃ n, width = n + 1 := ⟨width - 1, by unfold minimum at hwidth; omega⟩
  cases style <;>
    simp [formatSeparator, TableStyle.separatorEnd, rowEnd, List.replicate_succ]

theorem eq_of_formatSeparator_eq {style : TableStyle} (hwidths : ∀ width ∈ widths, minimum ≤ width)
    (hothers : ∀ width ∈ others, minimum ≤ width)
    (h : formatSeparator ⟨widths⟩ style.separatorEnd = formatSeparator ⟨others⟩ style.separatorEnd) :
    widths = others := by
  induction widths generalizing others with
  | nil =>
      cases others with
      | nil => rfl
      | cons other others =>
          have hne := formatSeparator_cons_ne_nil (hothers other List.mem_cons_self) others style
          exact absurd h.symm hne
  | cons width widths ih =>
      cases others with
      | nil =>
          have hne := formatSeparator_cons_ne_nil (hwidths width List.mem_cons_self) widths style
          exact absurd h hne
      | cons other others =>
          rw [formatSeparator_cons, formatSeparator_cons] at h
          -- The dashes of a column end at the first space, so their number is the same.
          have hdashes (n : Nat) : ' ' ∉ List.replicate n '-' := by simp [List.mem_replicate]
          obtain ⟨hfirst, hrest⟩ :=
            append_mark_inj (hdashes width) (hdashes other) (List.append_cancel_left h)
          have hwidth : width = other := by simpa using congrArg List.length hfirst
          have hothers' := ih (fun w hw => hwidths w (List.mem_cons_of_mem width hw))
            (fun w hw => hothers w (List.mem_cons_of_mem other hw)) hrest
          rw [hwidth, hothers']

theorem newline_notMem_formatRow (widths : List Nat) (h : ∀ cell ∈ row, '\n' ∉ cell) :
    '\n' ∉ formatRow ⟨widths⟩ row := by
  have hend : '\n' ∉ rowEnd := by decide
  induction row generalizing widths with
  | nil => exact hend
  | cons cell row ih =>
      cases widths with
      | nil => exact hend
      | cons width widths =>
          have hcell : '\n' ∉ cell := h cell List.mem_cons_self
          have hrest := ih widths fun c hc => h c (List.mem_cons_of_mem cell hc)
          rw [formatRow_cons]
          simp [pad, List.mem_replicate, hcell, hrest]

theorem newline_notMem_formatSeparator (widths : List Nat) (style : TableStyle) :
    '\n' ∉ formatSeparator ⟨widths⟩ style.separatorEnd := by
  induction widths with
  | nil => cases style <;> decide
  | cons width widths ih => simp [formatSeparator_cons, List.mem_replicate, ih]

end ColumnWidths

namespace Table

open ColumnWidths

def LineFeedFree (table : Table) : Prop :=
  ∀ row ∈ table.rows, ∀ cell ∈ row, '\n' ∉ cell

instance (table : Table) : Decidable table.LineFeedFree :=
  inferInstanceAs (Decidable (∀ row ∈ table.rows, ∀ cell ∈ row, '\n' ∉ cell))

theorem lines_eq_ok {table : Table} {style : TableStyle} {drawn : List Text}
    (h : table.lines style = .ok drawn) :
    ∃ header body columns, table.rows = header :: body ∧ measure table.rows = .ok columns ∧
      drawn = style.opening ++
        (style.margin ++ columns.formatRow header) ::
        (style.margin ++ columns.formatSeparator style.separatorEnd) ::
        (body.map (fun row => style.margin ++ columns.formatRow row) ++ [['>']]) := by
  unfold lines at h
  split at h
  · contradiction
  · rename_i header body hrows
    split at h
    · contradiction
    · rename_i columns hmeasure
      refine ⟨header, body, columns, hrows, hrows ▸ hmeasure, ?_⟩
      simpa using (Except.ok.inj h).symm

theorem newline_notMem_lines {table : Table} {style : TableStyle} {lines : List Text}
    (htable : table.LineFeedFree) (h : table.lines style = .ok lines) :
    ∀ line ∈ lines, '\n' ∉ line := by
  obtain ⟨header, body, columns, hrows, -, rfl⟩ := lines_eq_ok h
  have hmargin : '\n' ∉ style.margin := by cases style <;> decide
  have hopening : ∀ line ∈ style.opening, '\n' ∉ line := by cases style <;> decide
  have hrow (row : List Text) (hmem : row ∈ table.rows) :
      '\n' ∉ style.margin ++ columns.formatRow row := by
    simp [hmargin, newline_notMem_formatRow columns.widths (htable row hmem)]
  intro line hline
  simp only [List.mem_append, List.mem_cons, List.mem_map, List.not_mem_nil, or_false] at hline
  rcases hline with hline | rfl | rfl | ⟨row, hmem, rfl⟩ | rfl
  · exact hopening line hline
  · exact hrow header (hrows ▸ List.mem_cons_self)
  · simp [hmargin, newline_notMem_formatSeparator columns.widths style]
  · exact hrow row (hrows ▸ List.mem_cons_of_mem header hmem)
  · decide

/-- Tables with the same lines have the same columns, and their rows are drawn alike. -/
theorem drawn_alike_of_lines_eq {first second : Table} {style : TableStyle} {lines : List Text}
    (hfirst : first.lines style = .ok lines) (hsecond : second.lines style = .ok lines) :
    ∃ columns, measure first.rows = .ok columns ∧ measure second.rows = .ok columns ∧
      first.rows.map columns.formatRow = second.rows.map columns.formatRow := by
  obtain ⟨header, body, columns, hrows, hmeasure, rfl⟩ := lines_eq_ok hfirst
  obtain ⟨header', body', columns', hrows', hmeasure', hlines⟩ := lines_eq_ok hsecond
  have hlines := List.append_cancel_left hlines
  obtain ⟨hheader, hlines⟩ := List.cons.inj hlines
  obtain ⟨hseparator, hlines⟩ := List.cons.inj hlines
  have hwidths := eq_of_formatSeparator_eq (measure_spec hmeasure).2 (measure_spec hmeasure').2
    (List.append_cancel_left hseparator)
  obtain rfl : columns = columns' := by
    cases columns
    cases columns'
    exact congrArg _ hwidths
  have hbody : (body.map columns.formatRow).map (style.margin ++ ·) =
      (body'.map columns.formatRow).map (style.margin ++ ·) := by
    rw [List.map_map, List.map_map]
    exact List.append_cancel_right hlines
  have hbody := (List.map_injective_iff.mpr (List.append_right_injective style.margin)) hbody
  refine ⟨columns, hmeasure, hmeasure', ?_⟩
  rw [hrows, hrows', List.map_cons, List.map_cons, List.append_cancel_left hheader, hbody]

end Table

theorem forall₂_of_map_eq_map {α β : Type} {f : α → β} {P : α → Prop} {R : α → α → Prop}
    {first second : List α} (hfirst : ∀ a ∈ first, P a) (hsecond : ∀ a ∈ second, P a)
    (himp : ∀ a b, P a → P b → f a = f b → R a b) (h : first.map f = second.map f) :
    List.Forall₂ R first second := by
  induction first generalizing second with
  | nil =>
      obtain rfl : second = [] := by simpa using h.symm
      exact .nil
  | cons a first ih =>
      cases second with
      | nil => simp at h
      | cons b second =>
          obtain ⟨hab, hrest⟩ := List.cons.inj h
          refine .cons ?_ (ih ?_ ?_ hrest)
          · exact himp a b (hfirst a List.mem_cons_self) (hsecond b List.mem_cons_self) hab
          · exact fun c hc => hfirst c (List.mem_cons_of_mem a hc)
          · exact fun c hc => hsecond c (List.mem_cons_of_mem b hc)

/-- Two tables without line feeds that have the same text have as many rows and columns, and their
cells are the same up to spaces at the end, whatever else stands in them. -/
theorem cells_same_of_renderTable_eq {first second : Table} (options : RenderOptions)
    (style : TableStyle) {text : Text} (hfirst : first.LineFeedFree)
    (hsecond : second.LineFeedFree) (htext : options.renderTable first style = .ok text)
    (htext' : options.renderTable second style = .ok text) :
    List.Forall₂ (List.Forall₂ SamePadded) first.rows second.rows := by
  unfold RenderOptions.renderTable at htext htext'
  cases hlines : first.lines style with
  | error e => simp [hlines, RenderOptions.finish] at htext
  | ok lines =>
      cases hlines' : second.lines style with
      | error e => simp [hlines', RenderOptions.finish] at htext'
      | ok lines' =>
          have hsame : options.lineEnding.endLines lines = options.lineEnding.endLines lines' := by
            rw [hlines] at htext
            rw [hlines'] at htext'
            exact Except.ok.inj (htext.trans htext'.symm)
          obtain rfl := LineEnding.endLines_inj (Table.newline_notMem_lines hfirst hlines)
            (Table.newline_notMem_lines hsecond hlines') hsame
          obtain ⟨columns, hmeasure, hmeasure', hrows⟩ :=
            Table.drawn_alike_of_lines_eq hlines hlines'
          exact forall₂_of_map_eq_map (ColumnWidths.measure_spec hmeasure).1
            (ColumnWidths.measure_spec hmeasure').1
            (fun _ _ => ColumnWidths.samePadded_of_formatRow_eq) hrows

/-- Bars, dashes and carriage returns inside the cells do not matter. -/
theorem cells_same_of_renderTable_eq_with_bars :
    let first : Table := ⟨[["|".toList, "".toList], ["--- |".toList, ">\r".toList]]⟩
    let second : Table := ⟨[["| ".toList, "   ".toList], ["--- |".toList, ">\r ".toList]]⟩
    let options : RenderOptions := { lineEnding := .crlf }
    first ≠ second ∧ first.LineFeedFree ∧ second.LineFeedFree ∧
      options.renderTable first .examples = options.renderTable second .examples ∧
      List.Forall₂ (List.Forall₂ SamePadded) first.rows second.rows := by
  intro first second options
  have hfirst : first.LineFeedFree := by decide
  have hsecond : second.LineFeedFree := by decide
  have hsame : options.renderTable first .examples = options.renderTable second .examples := rfl
  obtain ⟨text, htext⟩ : ∃ text, options.renderTable second .examples = .ok text := ⟨_, rfl⟩
  refine ⟨by decide, hfirst, hsecond, hsame, ?_⟩
  exact cells_same_of_renderTable_eq options .examples hfirst hsecond (hsame.trans htext) htext

end FeatureMarkdown
