import FeatureMarkdown.Proofs.Markdown.TableText
import Mathlib.Algebra.Ring.Nat

/-!
Where the columns of a table stand. Every line of a table is a list of contents, each behind a bar
and between blanks, so a column opens where those before it end. Rows that have been measured and
their separator have the same columns at the same places.
-/

namespace FeatureMarkdown.ColumnWidths

/-- Where a column opens in a line, if the contents of the columns are of the given sizes: each of
those before it takes a bar and two blanks besides. -/
def columnStart (sizes : List Nat) (column : Nat) : Nat :=
  ((sizes.take column).map (· + 3)).sum

/-- A column opens at the offset: a bar, a blank, the content and another blank. -/
def OpensAt (line : Text) (offset : Nat) (content : Text) : Prop :=
  ['|', ' '] ++ content ++ [' '] <+: line.drop offset

/-- The contents in columns, one after the other. -/
def barred (contents : List Text) : Text :=
  contents.flatMap fun content => ['|', ' '] ++ content ++ [' ']

theorem length_barred (contents : List Text) :
    (barred contents).length = ((contents.map List.length).map (· + 3)).sum := by
  rw [barred, List.length_flatMap, List.map_map]
  refine congrArg List.sum (List.map_congr_left fun content _ => ?_)
  simp

theorem barred_cons (content : Text) (contents : List Text) :
    barred (content :: contents) = (['|', ' '] ++ content ++ [' ']) ++ barred contents :=
  List.flatMap_cons

/-- The line is the contents in columns, and then the terminator. -/
structure InColumns (line : Text) (contents : List Text) (terminator : Text) : Prop where
  length_eq : line.length = ((contents.map List.length).map (· + 3)).sum + terminator.length
  opensAt : ∀ column content, contents[column]? = some content →
    OpensAt line (columnStart (contents.map List.length) column) content
  drop_eq : line.drop (columnStart (contents.map List.length) contents.length) = terminator

/-- The columns before a place are left behind by as many characters as they have. -/
theorem drop_barred (contents : List Text) (terminator : Text) (column : Nat) :
    (barred contents ++ terminator).drop (columnStart (contents.map List.length) column) =
      barred (contents.drop column) ++ terminator := by
  have hlength : (barred (contents.take column)).length =
      columnStart (contents.map List.length) column := by
    rw [length_barred, columnStart, List.map_take]
  have hsplit : barred contents = barred (contents.take column) ++ barred (contents.drop column) := by
    rw [barred, barred, barred, ← List.flatMap_append, List.take_append_drop]
  rw [hsplit, List.append_assoc, List.drop_left' hlength]

theorem inColumns_barred (contents : List Text) (terminator : Text) :
    InColumns (barred contents ++ terminator) contents terminator where
  length_eq := by rw [List.length_append, length_barred]
  opensAt := fun column content h => by
    obtain ⟨hin, rfl⟩ := List.getElem?_eq_some_iff.mp h
    rw [OpensAt, drop_barred, List.drop_eq_getElem_cons hin, barred_cons,
      List.append_assoc (_ ++ [' '])]
    exact List.prefix_append _ _
  drop_eq := by
    rw [drop_barred, List.drop_length]
    rfl

/-- The cells that have a width, padded to it. -/
def paddedCells (columns : ColumnWidths) (cells : List Text) : List Text :=
  List.zipWith (fun cell width => pad width cell) cells columns.widths

/-- What a separator has in the place of cells. -/
def dashes (columns : ColumnWidths) : List Text :=
  columns.widths.map fun width => List.replicate width '-'

variable {columns : ColumnWidths} {row : List Text} {column width : Nat}

theorem map_length_paddedCells (columns : ColumnWidths) (cells : List Text) :
    (columns.paddedCells cells).map List.length =
      List.zipWith (fun cell width => max width cell.length) cells columns.widths := by
  have hlength (cell : Text) (width : Nat) : (pad width cell).length = max width cell.length := by
    rw [pad, List.length_append, List.length_replicate]
    omega
  simp only [paddedCells, List.map_zipWith, hlength]

/-- A cell that fits takes the width of its column, and no more. -/
theorem map_length_paddedCells_of_fits (h : Fits columns.widths row) :
    (columns.paddedCells row).map List.length = columns.widths := by
  rw [map_length_paddedCells]
  generalize columns.widths = widths at h
  induction h with
  | nil => rfl
  | cons hcell _ ih => rw [List.zipWith_cons_cons, Nat.max_eq_left hcell, ih]

theorem map_length_dashes (columns : ColumnWidths) :
    columns.dashes.map List.length = columns.widths := by
  simp [dashes, Function.comp_def]

theorem getElem?_paddedCells {cell : Text} (hcell : row[column]? = some cell)
    (hwidth : columns.widths[column]? = some width) :
    (columns.paddedCells row)[column]? = some (pad width cell) := by
  rw [paddedCells, List.getElem?_zipWith, hcell, hwidth]

theorem getElem?_dashes (hwidth : columns.widths[column]? = some width) :
    columns.dashes[column]? = some (List.replicate width '-') := by
  rw [dashes, List.getElem?_map, hwidth, Option.map_some]

theorem inColumns_formatRow (columns : ColumnWidths) (cells : List Text) :
    InColumns (columns.formatRow cells) (columns.paddedCells cells) rowEnd := by
  have hrow : columns.formatRow cells = barred (columns.paddedCells cells) ++ rowEnd := by
    rw [barred, paddedCells, List.flatMap_def, List.map_zipWith]
    rfl
  exact hrow ▸ inColumns_barred _ _

theorem inColumns_formatSeparator (columns : ColumnWidths) (terminator : Text) :
    InColumns (columns.formatSeparator terminator) columns.dashes terminator := by
  have hseparator : columns.formatSeparator terminator = barred columns.dashes ++ terminator := by
    rw [barred, dashes, List.flatMap_map]
    rfl
  exact hseparator ▸ inColumns_barred _ _

theorem length_formatRow_of_fits (h : Fits columns.widths row) :
    (columns.formatRow row).length = (columns.formatSeparator rowEnd).length := by
  rw [(inColumns_formatRow columns row).length_eq, (inColumns_formatSeparator columns _).length_eq,
    map_length_paddedCells_of_fits h, map_length_dashes]

theorem opensAt_formatRow_of_fits (h : Fits columns.widths row)
    (hwidth : columns.widths[column]? = some width) :
    ∃ cell padding, row[column]? = some cell ∧
      (cell ++ List.replicate padding ' ').length = width ∧
      OpensAt (columns.formatRow row) (columnStart columns.widths column)
        (cell ++ List.replicate padding ' ') := by
  obtain ⟨hin, rfl⟩ := List.getElem?_eq_some_iff.mp hwidth
  have hin' : column < row.length := h.length_eq ▸ hin
  have hcell : row[column]? = some row[column] := List.getElem?_eq_getElem hin'
  have hopens := (inColumns_formatRow columns row).opensAt column _
    (getElem?_paddedCells hcell hwidth)
  rw [map_length_paddedCells_of_fits h] at hopens
  exact ⟨row[column], columns.widths[column] - row[column].length, hcell,
    length_pad (h.get hin' hin), hopens⟩

theorem opensAt_formatSeparator (terminator : Text)
    (hwidth : columns.widths[column]? = some width) :
    OpensAt (columns.formatSeparator terminator) (columnStart columns.widths column)
      (List.replicate width '-') := by
  have hopens := (inColumns_formatSeparator columns terminator).opensAt column _
    (getElem?_dashes hwidth)
  rwa [map_length_dashes] at hopens

/-- Rows have a column for each cell that has a width, at the place to which the columns before it
come, and they lose no character of a cell. In rows that have been measured and in their separator
the columns stand at the same places and are just as wide as measured. -/
theorem rows_stand_in_columns :
    (∀ (columns : ColumnWidths) (cells : List Text),
      let sizes := List.zipWith (fun cell width => max width cell.length) cells columns.widths
      (columns.formatRow cells).length = (sizes.map (· + 3)).sum + 3 ∧
      (∀ column cell width, cells[column]? = some cell → columns.widths[column]? = some width →
        OpensAt (columns.formatRow cells) (columnStart sizes column)
          (cell ++ List.replicate (width - cell.length) ' ')) ∧
      (columns.formatRow cells).drop (columnStart sizes sizes.length) = "|  ".toList) ∧
    (∀ rows columns, measure rows = .ok columns →
      (∀ row ∈ rows,
        (columns.formatRow row).length = (columns.formatSeparator "|  ".toList).length) ∧
      ∀ column width, columns.widths[column]? = some width →
        (∀ row ∈ rows, ∃ cell padding, row[column]? = some cell ∧
          (cell ++ List.replicate padding ' ').length = width ∧
          OpensAt (columns.formatRow row) (columnStart columns.widths column)
            (cell ++ List.replicate padding ' ')) ∧
        OpensAt (columns.formatSeparator "|  ".toList) (columnStart columns.widths column)
          (List.replicate width '-')) ∧
    ∀ columns : ColumnWidths, columns.formatSeparator "|  ".toList =
      columns.formatSeparator "|".toList ++ "  ".toList := by
  refine ⟨fun columns cells => ?_, fun rows columns hmeasure => ?_, fun columns => ?_⟩
  · intro sizes
    have hrow := inColumns_formatRow columns cells
    have hsizes : (columns.paddedCells cells).map List.length = sizes :=
      map_length_paddedCells columns cells
    have hcount : (columns.paddedCells cells).length = sizes.length := by
      rw [← hsizes, List.length_map]
    refine ⟨hsizes ▸ hrow.length_eq, fun column cell width hcell hwidth => ?_, ?_⟩
    · exact hsizes ▸ hrow.opensAt column _ (getElem?_paddedCells hcell hwidth)
    · exact hcount ▸ hsizes ▸ hrow.drop_eq
  · have hfits := (measure_spec hmeasure).1
    refine ⟨fun row hrow => length_formatRow_of_fits (hfits row hrow), fun column width hwidth => ?_⟩
    exact ⟨fun row hrow => opensAt_formatRow_of_fits (hfits row hrow) hwidth,
      opensAt_formatSeparator _ hwidth⟩
  · rw [formatSeparator, formatSeparator, List.append_assoc]
    rfl

/-- Bars and other than Latin letters in the cells, and an empty cell. -/
theorem rows_stand_in_columns_beside_bars :
    let rows : List (List Text) := [["n".toList, "名前".toList], [[], "| a | b".toList]]
    let columns : ColumnWidths := ⟨[3, 7]⟩
    measure rows = .ok columns ∧
      (∀ row ∈ rows,
        (columns.formatRow row).length = (columns.formatSeparator "|  ".toList).length) ∧
      (∀ row ∈ rows, ∃ cell padding, row[1]? = some cell ∧
        (cell ++ List.replicate padding ' ').length = 7 ∧
        OpensAt (columns.formatRow row) 6 (cell ++ List.replicate padding ' ')) ∧
      OpensAt (columns.formatSeparator "|  ".toList) 6 "-------".toList := by
  intro rows columns
  have hmeasure : measure rows = .ok columns := by decide
  obtain ⟨-, hmeasured, -⟩ := rows_stand_in_columns
  obtain ⟨hlength, hopens⟩ := hmeasured rows columns hmeasure
  exact ⟨hmeasure, hlength, hopens 1 7 rfl⟩

end FeatureMarkdown.ColumnWidths
