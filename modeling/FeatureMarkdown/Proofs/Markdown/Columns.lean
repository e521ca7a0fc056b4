import FeatureMarkdown.Markdown.Table
import Mathlib.Data.List.Forall2
import Mathlib.Order.Bounds.Basic

namespace FeatureMarkdown.ColumnWidths

/-- Each cell has a column that is wide enough for it, and each column has a cell. -/
def Fits (widths : List Nat) (row : List Text) : Prop :=
  List.Forall₂ (fun cell width => cell.length ≤ width) row widths

variable {widths wider : List Nat} {rows : List (List Text)}

theorem cellWidth_le_iff {cell : Text} {bound : Nat} :
    cellWidth cell ≤ bound ↔ 3 ≤ bound ∧ cell.length ≤ bound := by
  rw [cellWidth, minimum, Nat.max_le, and_comm]

theorem widen_cons_eq_ok {number : Nat} {row : List Text}
    (h : widen widths number (row :: rows) = .ok wider) :
    row.length = widths.length ∧
      widen (List.zipWith (fun width cell => max width (cellWidth cell)) widths row) (number + 1)
        rows = .ok wider := by
  rw [widen] at h
  split at h
  · exact ⟨‹_›, h⟩
  · contradiction

theorem length_eq_of_widen {number : Nat} (h : widen widths number rows = .ok wider) :
    wider.length = widths.length ∧ ∀ row ∈ rows, row.length = widths.length := by
  induction rows generalizing widths number with
  | nil =>
      obtain rfl : widths = wider := Except.ok.inj h
      exact ⟨rfl, by simp⟩
  | cons row rows ih =>
      obtain ⟨hrow, hrest⟩ := widen_cons_eq_ok h
      have hnext := ih hrest
      rw [List.length_zipWith, hrow, Nat.min_self] at hnext
      exact ⟨hnext.1, List.forall_mem_cons.mpr ⟨hrow, hnext.2⟩⟩

/-- A column gets no wider than it was and than the cells that it takes in. -/
theorem le_iff_of_widen {number : Nat} (h : widen widths number rows = .ok wider)
    {column width wide : Nat} (hwidth : widths[column]? = some width)
    (hwide : wider[column]? = some wide) (bound : Nat) :
    wide ≤ bound ↔ width ≤ bound ∧
      ∀ row ∈ rows, ∀ cell ∈ row[column]?, cellWidth cell ≤ bound := by
  induction rows generalizing widths width number with
  | nil =>
      obtain rfl : widths = wider := Except.ok.inj h
      obtain rfl : width = wide := Option.some.inj (hwidth.symm.trans hwide)
      simp
  | cons row rows ih =>
      obtain ⟨hrow, hrest⟩ := widen_cons_eq_ok h
      have hin : column < row.length := hrow ▸ (List.getElem?_eq_some_iff.mp hwidth).1
      have hcell : row[column]? = some row[column] := List.getElem?_eq_getElem hin
      have hnext : (List.zipWith (fun width cell => max width (cellWidth cell)) widths
          row)[column]? = some (max width (cellWidth row[column])) := by
        simp [List.getElem?_zipWith, hwidth, hcell]
      rw [ih hrest hnext, Nat.max_le, List.forall_mem_cons, hcell, and_assoc]
      simp

/-- A column of the width has room for three characters and for its cell in every row. -/
def Suffices (rows : List (List Text)) (column width : Nat) : Prop :=
  3 ≤ width ∧ ∀ row ∈ rows, ∀ cell ∈ row[column]?, cell.length ≤ width

/-- The rows have one cell for each column, and the columns have the least widths that suffice. -/
structure IsTight (columns : ColumnWidths) (rows : List (List Text)) : Prop where
  rows_ne_nil : rows ≠ []
  length_eq : ∀ row ∈ rows, row.length = columns.widths.length
  isLeast : ∀ column width, columns.widths[column]? = some width →
    IsLeast {n | Suffices rows column n} width

theorem exists_widen_of_measure {columns : ColumnWidths} (h : measure rows = .ok columns) :
    ∃ header body, rows = header :: body ∧
      widen (header.map cellWidth) 2 body = .ok columns.widths := by
  cases rows with
  | nil => contradiction
  | cons header body =>
      refine ⟨header, body, rfl, ?_⟩
      rw [measure] at h
      split at h
      next widths hwiden =>
        obtain rfl := Except.ok.inj h
        exact hwiden
      next => contradiction

theorem le_iff_of_measure {columns : ColumnWidths} (h : measure rows = .ok columns)
    {column width : Nat} (hwidth : columns.widths[column]? = some width) (bound : Nat) :
    width ≤ bound ↔ Suffices rows column bound := by
  obtain ⟨header, body, rfl, hwiden⟩ := exists_widen_of_measure h
  have hin : column < header.length := by
    have hlength := (length_eq_of_widen hwiden).1
    rw [List.length_map] at hlength
    exact hlength ▸ (List.getElem?_eq_some_iff.mp hwidth).1
  have hcell : header[column]? = some header[column] := List.getElem?_eq_getElem hin
  have hfirst : (header.map cellWidth)[column]? = some (cellWidth header[column]) := by
    rw [List.getElem?_map, hcell, Option.map_some]
  rw [le_iff_of_widen hwiden hfirst hwidth, Suffices, List.forall_mem_cons, hcell]
  simp only [cellWidth_le_iff, Option.mem_some_iff]
  constructor
  · rintro ⟨⟨hthree, hheader⟩, hbody⟩
    exact ⟨hthree, fun _ hcell => hcell ▸ hheader, fun row hrow cell hcell =>
      (hbody row hrow cell hcell).2⟩
  · rintro ⟨hthree, hheader, hbody⟩
    exact ⟨⟨hthree, hheader _ rfl⟩, fun row hrow cell hcell =>
      ⟨hthree, hbody row hrow cell hcell⟩⟩

theorem isTight_of_measure {columns : ColumnWidths} (h : measure rows = .ok columns) :
    columns.IsTight rows where
  rows_ne_nil := by
    rintro rfl
    contradiction
  length_eq := by
    obtain ⟨header, body, rfl, hwiden⟩ := exists_widen_of_measure h
    obtain ⟨hheader, hbody⟩ := length_eq_of_widen hwiden
    rw [List.length_map] at hheader hbody
    exact List.forall_mem_cons.mpr ⟨hheader.symm, hheader ▸ hbody⟩
  isLeast := fun column width hwidth =>
    ⟨(le_iff_of_measure h hwidth width).mp (Nat.le_refl width),
      fun n hn => (le_iff_of_measure h hwidth n).mpr hn⟩

theorem measure_spec {columns : ColumnWidths} (h : measure rows = .ok columns) :
    (∀ row ∈ rows, Fits columns.widths row) ∧ ∀ width ∈ columns.widths, minimum ≤ width := by
  have htight := isTight_of_measure h
  have hsuffices (column : Nat) (hin : column < columns.widths.length) :
      Suffices rows column columns.widths[column] :=
    (htight.isLeast column _ (List.getElem?_eq_getElem hin)).1
  refine ⟨fun row hrow => ?_, fun width hwidth => ?_⟩
  · refine List.forall₂_iff_get.mpr ⟨htight.length_eq row hrow, fun column hin hin' => ?_⟩
    exact (hsuffices column hin').2 row hrow _ (List.getElem?_eq_getElem hin)
  · obtain ⟨column, hin, rfl⟩ := List.getElem_of_mem hwidth
    exact (hsuffices column hin).1

end FeatureMarkdown.ColumnWidths
