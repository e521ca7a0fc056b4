import FeatureMarkdown.Document

namespace FeatureMarkdown

inductive RenderError where
  | emptyTable
  /-- The row, counted from one with the header, does not have the length of the header. -/
  | malformedTable (row expected actual : Nat)
deriving DecidableEq, Inhabited

def RenderError.message : RenderError → Text
  | .emptyTable => "table has no rows".toList
  | .malformedTable row expected actual =>
    "table row ".toList ++ Nat.toDigits 10 row ++ " has ".toList ++ Nat.toDigits 10 actual ++
      " cells but expected ".toList ++ Nat.toDigits 10 expected

/-- The number of characters that each column takes between its margins. -/
structure ColumnWidths where
  widths : List Nat
deriving DecidableEq, Inhabited

namespace ColumnWidths

/-- Markdown wants at least three dashes below a header. -/
def minimum : Nat := 3

def cellWidth (cell : Text) : Nat :=
  max cell.length minimum

/-- Widens the columns to the cells of `rows`, the first of which has the given number. -/
def widen (widths : List Nat) (number : Nat) : List (List Text) → Except RenderError (List Nat)
  | [] => .ok widths
  | row :: rows =>
    if row.length = widths.length then
      widen (List.zipWith (fun width cell => max width (cellWidth cell)) widths row) (number + 1)
        rows
    else
      .error (.malformedTable number widths.length row.length)

def measure : List (List Text) → Except RenderError ColumnWidths
  | [] => .error .emptyTable
  | header :: body =>
    match widen (header.map cellWidth) 2 body with
    | .ok widths => .ok ⟨widths⟩
    | .error e => .error e

def pad (width : Nat) (cell : Text) : Text :=
  cell ++ List.replicate (width - cell.length) ' '

/-- What closes a row of cells: two spaces after the bar make Markdown break the line. -/
def rowEnd : Text := ['|', ' ', ' ']

/-- One line of cells. Cells without a column and columns without a cell are left out. -/
def formatRow (columns : ColumnWidths) (cells : List Text) : Text :=
  (List.zipWith (fun cell width => ['|', ' '] ++ pad width cell ++ [' ']) cells
    columns.widths).flatten ++ rowEnd

def formatSeparator (columns : ColumnWidths) (terminator : Text) : Text :=
  columns.widths.flatMap (fun width => ['|', ' '] ++ List.replicate width '-' ++ [' ']) ++
    terminator

end ColumnWidths

inductive TableStyle where
  /-- Below a step: a quote of its own, opened by a bare `>`. -/
  | stepArgument
  /-- Below the heading of an examples block, in whose quote it stands. -/
  | examples
deriving DecidableEq, Inhabited

namespace TableStyle

def margin : TableStyle → Text
  | .stepArgument => ['>', ' ']
  | .examples => ['>']

def separatorEnd : TableStyle → Text
  | .stepArgument => ColumnWidths.rowEnd
  | .examples => ['|']

def opening : TableStyle → List Text
  | .stepArgument => [['>']]
  | .examples => []

end TableStyle

/-- The lines of the table: header, separator, body, and a bare `>` that closes the quote. -/
def Table.lines (table : Table) (style : TableStyle) : Except RenderError (List Text) :=
  match table.rows with
  | [] => .error .emptyTable
  | header :: body =>
    match ColumnWidths.measure (header :: body) with
    | .error e => .error e
    | .ok columns =>
      .ok (style.opening ++
        [style.margin ++ columns.formatRow header,
          style.margin ++ columns.formatSeparator style.separatorEnd] ++
        body.map (fun row => style.margin ++ columns.formatRow row) ++ [['>']])

def Table.optionalLines (style : TableStyle) : Option Table → Except RenderError (List Text)
  | none => .ok []
  | some table => table.lines style

end FeatureMarkdown
