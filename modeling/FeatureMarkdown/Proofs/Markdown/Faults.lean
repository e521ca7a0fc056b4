import FeatureMarkdown.Markdown.Render
import FeatureMarkdown.Proofs.Document.Tables

namespace FeatureMarkdown

/-- The error of an outcome that has one. -/
def faultOf {α : Type} : Except RenderError α → Option RenderError
  | .ok _ => none
  | .error e => some e

@[simp] theorem faultOf_ok {α : Type} (a : α) : faultOf (.ok a) = none := by
  rw [faultOf]

@[simp] theorem faultOf_error {α : Type} (e : RenderError) :
    faultOf (.error e : Except RenderError α) = some e := by
  rw [faultOf]

theorem faultOf_eq_none_iff {α : Type} {outcome : Except RenderError α} :
    faultOf outcome = none ↔ ∃ a, outcome = .ok a := by
  cases outcome <;> simp

theorem faultOf_eq_some_iff {α : Type} {outcome : Except RenderError α} {e : RenderError} :
    faultOf outcome = some e ↔ outcome = .error e := by
  cases outcome <;> simp

/-- What is wrong with a table: it has no rows, or `row` is the first of another length than the
header. Rows are counted from one, with the header. -/
inductive Table.Fault : Table → RenderError → Prop
  | empty : Fault ⟨[]⟩ .emptyTable
  | uneven (header : List Text) (good : List (List Text)) (row : List Text)
      (rest : List (List Text)) (hgood : ∀ r ∈ good, r.length = header.length)
      (hrow : row.length ≠ header.length) :
      Fault ⟨header :: (good ++ row :: rest)⟩
        (.malformedTable (good.length + 2) header.length row.length)

namespace ColumnWidths

theorem widen_eq_ok {rows : List (List Text)} (widths : List Nat) (number : Nat)
    (h : ∀ row ∈ rows, row.length = widths.length) :
    ∃ wider, widen widths number rows = .ok wider := by
  induction rows generalizing widths number with
  | nil => exact ⟨widths, rfl⟩
  | cons row rows ih =>
      have hrow : row.length = widths.length := h row List.mem_cons_self
      simp only [widen, hrow, if_true]
      apply ih
      intro other hother
      rw [List.length_zipWith, hrow, Nat.min_self]
      exact h other (List.mem_cons_of_mem row hother)

theorem widen_eq_error {good : List (List Text)} {row : List Text} (widths : List Nat)
    (number : Nat) (rest : List (List Text)) (hgood : ∀ r ∈ good, r.length = widths.length)
    (hrow : row.length ≠ widths.length) :
    widen widths number (good ++ row :: rest) =
      .error (.malformedTable (good.length + number) widths.length row.length) := by
  induction good generalizing widths number with
  | nil => simp [widen, hrow]
  | cons first good ih =>
      have hfirst : first.length = widths.length := hgood first List.mem_cons_self
      have hsame : (List.zipWith (fun width cell => max width (cellWidth cell)) widths
          first).length = widths.length := by
        rw [List.length_zipWith, hfirst, Nat.min_self]
      simp only [List.cons_append, widen, hfirst, if_true]
      rw [ih _ (number + 1)]
      · rw [hsame, List.length_cons]
        congr 2
        omega
      · intro r hr
        rw [hsame]
        exact hgood r (List.mem_cons_of_mem first hr)
      · rw [hsame]
        exact hrow

end ColumnWidths

namespace Table

theorem isEven_or_fault (table : Table) : table.IsEven ∨ ∃ e, table.Fault e := by
  rcases table with ⟨rows⟩
  cases rows with
  | nil => exact .inr ⟨_, .empty⟩
  | cons header body =>
      cases hodd : body.find? (fun row => row.length ≠ header.length) with
      | none =>
          refine .inl ⟨header, body, rfl, fun row hrow => ?_⟩
          simpa using List.find?_eq_none.mp hodd row hrow
      | some row =>
          obtain ⟨hrow, good, rest, rfl, hgood⟩ := List.find?_eq_some_iff_append.mp hodd
          refine .inr ⟨_, .uneven header good row rest (fun r hr => ?_) (by simpa using hrow)⟩
          simpa using hgood r hr

theorem measure_eq_ok {table : Table} (h : table.IsEven) :
    ∃ columns, ColumnWidths.measure table.rows = .ok columns := by
  obtain ⟨header, body, hrows, hbody⟩ := h
  obtain ⟨widths, hwidths⟩ := ColumnWidths.widen_eq_ok (header.map ColumnWidths.cellWidth) 2
    (fun row hrow => by simpa using hbody row hrow)
  exact ⟨⟨widths⟩, by simp only [hrows, ColumnWidths.measure, hwidths]⟩

theorem measure_eq_error {table : Table} {e : RenderError} (h : table.Fault e) :
    ColumnWidths.measure table.rows = .error e := by
  cases h with
  | empty => rfl
  | uneven header good row rest hgood hrow =>
      have hwiden := ColumnWidths.widen_eq_error (header.map ColumnWidths.cellWidth) 2 rest
        (by simpa using hgood) (by simpa using hrow)
      simp only [ColumnWidths.measure, hwiden, List.length_map]

/-- The fault that measuring the table comes upon. -/
def fault? (table : Table) : Option RenderError :=
  faultOf (ColumnWidths.measure table.rows)

theorem fault?_eq_none_iff {table : Table} : table.fault? = none ↔ table.IsEven := by
  constructor
  · intro h
    rcases table.isEven_or_fault with heven | ⟨e, he⟩
    · exact heven
    · simp [fault?, measure_eq_error he] at h
  · intro h
    obtain ⟨columns, hcolumns⟩ := measure_eq_ok h
    simp [fault?, hcolumns]

theorem fault?_eq_some_iff {table : Table} {e : RenderError} :
    table.fault? = some e ↔ table.Fault e := by
  constructor
  · intro h
    rcases table.isEven_or_fault with heven | ⟨other, hother⟩
    · simp [fault?_eq_none_iff.mpr heven] at h
    · have heq : other = e := by simpa [fault?, measure_eq_error hother] using h
      exact heq ▸ hother
  · intro h
    simp [fault?, measure_eq_error h]

@[simp] theorem faultOf_lines (table : Table) (style : TableStyle) :
    faultOf (table.lines style) = table.fault? := by
  rcases table with ⟨rows⟩
  cases rows with
  | nil => rfl
  | cons header body =>
      cases h : ColumnWidths.measure (header :: body) <;> simp [lines, fault?, h]

@[simp] theorem faultOf_optionalLines (style : TableStyle) (table : Option Table) :
    faultOf (optionalLines style table) = table.toList.findSome? fault? := by
  cases table <;> simp [optionalLines]

end Table

/-- Of several members the first one that has a fault decides. -/
@[simp] theorem faultOf_collectLines {α : Type} (f : α → Except RenderError (List Text))
    (l : List α) : faultOf (collectLines f l) = l.findSome? fun a => faultOf (f a) := by
  induction l with
  | nil => rfl
  | cons a rest ih =>
      cases ha : f a with
      | error e => simp [collectLines, ha]
      | ok first =>
          rw [List.findSome?_cons, ha, faultOf_ok, ← ih]
          cases hrest : collectLines f rest <;> simp [collectLines, ha, hrest]

theorem findSome?_flatMap {α β γ : Type} (f : α → List β) (g : β → Option γ) (l : List α) :
    (l.flatMap f).findSome? g = l.findSome? fun a => (f a).findSome? g := by
  induction l with
  | nil => rfl
  | cons a rest ih =>
      rw [List.flatMap_cons, List.findSome?_append, List.findSome?_cons, ih]
      cases (f a).findSome? g <;> rfl

namespace Step

@[simp] theorem faultOf_scenarioLines (style : PlaceholderStyle) (step : Step) :
    faultOf (step.scenarioLines style) = step.tables.findSome? Table.fault? := by
  rw [Step.tables, ← Table.faultOf_optionalLines .stepArgument]
  unfold scenarioLines tableLines
  split <;> simp [*]

@[simp] theorem faultOf_backgroundLines (style : PlaceholderStyle) (step : Step) :
    faultOf (step.backgroundLines style) = step.tables.findSome? Table.fault? := by
  rw [Step.tables, ← Table.faultOf_optionalLines .stepArgument]
  unfold backgroundLines tableLines
  split <;> simp [*]

end Step

@[simp] theorem Examples.faultOf_lines (block : Examples) :
    faultOf block.lines = block.tables.findSome? Table.fault? := by
  rw [Examples.tables, ← Table.faultOf_optionalLines .examples]
  unfold lines
  split <;> simp [*]

@[simp] theorem Background.faultOf_lines (background : Background) (options : RenderOptions) :
    faultOf (background.lines options) = background.tables.findSome? Table.fault? := by
  simp [lines, tables, findSome?_flatMap]

@[simp] theorem Scenario.faultOf_lines (scenario : Scenario) (options : RenderOptions) :
    faultOf (scenario.lines options) = scenario.tables.findSome? Table.fault? := by
  have hsteps := faultOf_collectLines (Step.scenarioLines options.scenarioPlaceholders)
    scenario.steps
  have hexamples := faultOf_collectLines Examples.lines scenario.examples
  simp only [Step.faultOf_scenarioLines, Examples.faultOf_lines] at hsteps hexamples
  rw [tables, List.findSome?_append, findSome?_flatMap, findSome?_flatMap, ← hsteps, ← hexamples]
  unfold lines
  split
  · simp [*]
  · split <;> simp [*]

@[simp] theorem Child.faultOf_lines (options : RenderOptions) (child : Child) :
    faultOf (child.lines options) = child.visibleTables.findSome? Table.fault? := by
  cases child <;> simp [lines, visibleTables]

theorem Feature.faultOf_lines (feature : Feature) (options : RenderOptions) :
    faultOf (feature.lines options) = feature.visibleTables.findSome? Table.fault? := by
  have hchildren := faultOf_collectLines (Child.lines options) feature.children
  simp only [Child.faultOf_lines] at hchildren
  rw [visibleTables, findSome?_flatMap, ← hchildren]
  unfold lines
  split <;> simp [*]

namespace RenderOptions

@[simp] theorem faultOf_finish (options : RenderOptions) (lines : Except RenderError (List Text)) :
    faultOf (options.finish lines) = faultOf lines := by
  cases lines <;> rfl

/-- The first fault of a visible table is the error of the document, whatever the options are. -/
theorem faultOf_renderDocument (options : RenderOptions) (document : Document) :
    faultOf (options.renderDocument document) =
      document.feature.visibleTables.findSome? Table.fault? := by
  rw [renderDocument, renderFeature, faultOf_finish, Feature.faultOf_lines]

theorem renderDocument_eq_ok_iff {options : RenderOptions} {document : Document} :
    (∃ markdown, options.renderDocument document = .ok markdown) ↔
      ∀ table ∈ document.feature.visibleTables, table.IsEven := by
  rw [← faultOf_eq_none_iff, faultOf_renderDocument, List.findSome?_eq_none_iff]
  simp only [Table.fault?_eq_none_iff]

end RenderOptions

/-- The fault of the first table that has one. -/
def FirstFault (tables : List Table) (e : RenderError) : Prop :=
  ∃ before table after, tables = before ++ table :: after ∧
    (∀ other ∈ before, other.IsEven) ∧ table.Fault e

theorem findSome?_fault?_eq_some_iff {tables : List Table} {e : RenderError} :
    tables.findSome? Table.fault? = some e ↔ FirstFault tables e := by
  rw [List.findSome?_eq_some_iff]
  simp only [Table.fault?_eq_none_iff, Table.fault?_eq_some_iff]
  constructor
  · rintro ⟨before, table, after, htables, hfault, hbefore⟩
    exact ⟨before, table, after, htables, hbefore, hfault⟩
  · rintro ⟨before, table, after, htables, hbefore, hfault⟩
    exact ⟨before, table, after, htables, hfault, hbefore⟩

/-- A document renders if all its visible tables are even; otherwise its error is the fault of the
first one that is not. The options have no part in that. -/
theorem renderDocument_fails_with_first_fault (document : Document) :
    (∀ options : RenderOptions,
      ((∃ markdown, options.renderDocument document = .ok markdown) ↔
        ∀ table ∈ document.feature.visibleTables, table.IsEven) ∧
      ∀ e, options.renderDocument document = .error e ↔
        FirstFault document.feature.visibleTables e) ∧
    ∀ options other : RenderOptions,
      faultOf (options.renderDocument document) = faultOf (other.renderDocument document) := by
  refine ⟨fun options => ⟨RenderOptions.renderDocument_eq_ok_iff, fun e => ?_⟩, ?_⟩
  · rw [← faultOf_eq_some_iff, RenderOptions.faultOf_renderDocument]
    exact findSome?_fault?_eq_some_iff
  · intro options other
    rw [options.faultOf_renderDocument, other.faultOf_renderDocument]

/-- The table below the rule is as uneven as the other one, but it is not looked at. -/
example :
    let uneven (extra : List Text) : Table := ⟨[[['a']], extra]⟩
    let scenario (table : Table) : Scenario := ⟨[], none, [], [⟨[], [], some table⟩], []⟩
    let feature : Feature := ⟨[], none, [],
      [.rule ⟨[], none, [], none, [scenario (uneven [['x'], ['y']])]⟩,
        .scenario (scenario (uneven []))]⟩
    ({} : RenderOptions).renderDocument ⟨feature⟩ = .error (.malformedTable 2 1 0) := by
  rfl

end FeatureMarkdown
