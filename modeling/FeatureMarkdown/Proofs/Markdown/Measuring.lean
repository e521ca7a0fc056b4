import FeatureMarkdown.Proofs.Markdown.Columns
import FeatureMarkdown.Proofs.Markdown.Faults

namespace FeatureMarkdown.ColumnWidths

variable {rows : List (List Text)}

namespace IsTight

variable {columns others : ColumnWidths}

theorem isEven (h : columns.IsTight rows) : Table.IsEven ⟨rows⟩ := by
  obtain ⟨header, body, rfl⟩ := List.exists_cons_of_ne_nil h.rows_ne_nil
  refine ⟨header, body, rfl, fun row hrow => ?_⟩
  rw [h.length_eq row (List.mem_cons_of_mem header hrow), h.length_eq header List.mem_cons_self]

theorem unique (h : columns.IsTight rows) (h' : others.IsTight rows) : columns = others := by
  obtain ⟨row, hrow⟩ := List.exists_mem_of_ne_nil rows h.rows_ne_nil
  have hlength : columns.widths.length = others.widths.length :=
    (h.length_eq row hrow).symm.trans (h'.length_eq row hrow)
  have hwidths : columns.widths = others.widths := by
    refine List.ext_getElem hlength fun column hin hin' => ?_
    exact (h.isLeast column _ (List.getElem?_eq_getElem hin)).unique
      (h'.isLeast column _ (List.getElem?_eq_getElem hin'))
  cases columns
  cases others
  exact congrArg _ hwidths

theorem perm {rows' : List (List Text)} (h : columns.IsTight rows) (hperm : rows'.Perm rows) :
    columns.IsTight rows' where
  rows_ne_nil := fun hnil => h.rows_ne_nil (List.perm_nil.mp (hnil ▸ hperm.symm))
  length_eq := fun row hrow => h.length_eq row (hperm.mem_iff.mp hrow)
  isLeast := by simpa only [Suffices, hperm.mem_iff] using h.isLeast

end IsTight

theorem measure_eq_ok_iff {columns : ColumnWidths} :
    measure rows = .ok columns ↔ columns.IsTight rows := by
  refine ⟨isTight_of_measure, fun h => ?_⟩
  obtain ⟨measured, hmeasured⟩ := Table.measure_eq_ok h.isEven
  rwa [(isTight_of_measure hmeasured).unique h] at hmeasured

theorem measure_eq_error_iff {e : RenderError} :
    measure rows = .error e ↔ Table.Fault ⟨rows⟩ e :=
  faultOf_eq_some_iff.symm.trans Table.fault?_eq_some_iff

theorem measure_eq_emptyTable_iff : measure rows = .error .emptyTable ↔ rows = [] := by
  rw [measure_eq_error_iff]
  constructor
  · intro h
    cases h
    rfl
  · rintro rfl
    exact .empty

theorem measure_eq_malformedTable_iff {number expected actual : Nat} :
    measure rows = .error (.malformedTable number expected actual) ↔
      ∃ header good row rest, rows = header :: (good ++ row :: rest) ∧
        (∀ other ∈ good, other.length = header.length) ∧ row.length ≠ header.length ∧
        number = good.length + 2 ∧ expected = header.length ∧ actual = row.length := by
  rw [measure_eq_error_iff]
  constructor
  · intro h
    cases h with
    | uneven header good row rest hgood hrow =>
        exact ⟨header, good, row, rest, rfl, hgood, hrow, rfl, rfl, rfl⟩
  · rintro ⟨header, good, row, rest, rfl, hgood, hrow, rfl, rfl, rfl⟩
    exact .uneven header good row rest hgood hrow

theorem exists_malformedTable_iff :
    (∃ number expected actual, measure rows = .error (.malformedTable number expected actual)) ↔
      ∃ header body, rows = header :: body ∧ ∃ row ∈ body, row.length ≠ header.length := by
  constructor
  · rintro ⟨number, expected, actual, h⟩
    obtain ⟨header, good, row, rest, rfl, -, hrow, -⟩ := measure_eq_malformedTable_iff.mp h
    exact ⟨header, good ++ row :: rest, rfl, row, by simp, hrow⟩
  · rintro ⟨header, body, rfl, row, hmem, hrow⟩
    rcases Table.isEven_or_fault ⟨header :: body⟩ with ⟨_, _, hrows, hbody⟩ | ⟨e, hfault⟩
    · obtain ⟨rfl, rfl⟩ := List.cons.inj hrows
      exact absurd (hbody row hmem) hrow
    · have herror := measure_eq_error_iff.mpr hfault
      cases hfault
      exact ⟨_, _, _, herror⟩

/-- Rows are measured with one of three outcomes: there are none; one of them, the first such, is
not as long as the header; or each column gets the least width that suffices for its cells, whatever
the order of the rows. -/
theorem measure_finds_fault_or_least_widths (rows : List (List Text)) :
    (measure rows = .error .emptyTable ↔ rows = []) ∧
    ((∃ number expected actual, measure rows = .error (.malformedTable number expected actual)) ↔
      ∃ header body, rows = header :: body ∧ ∃ row ∈ body, row.length ≠ header.length) ∧
    (∀ number expected actual,
      measure rows = .error (.malformedTable number expected actual) ↔
        ∃ header good row rest, rows = header :: (good ++ row :: rest) ∧
          (∀ other ∈ good, other.length = header.length) ∧ row.length ≠ header.length ∧
          number = good.length + 2 ∧ expected = header.length ∧ actual = row.length) ∧
    (∀ columns, measure rows = .ok columns ↔ columns.IsTight rows) ∧
    ∀ columns others, measure rows = .ok columns → others.Perm rows →
      measure others = .ok columns := by
  refine ⟨measure_eq_emptyTable_iff, exists_malformedTable_iff,
    fun _ _ _ => measure_eq_malformedTable_iff, fun _ => measure_eq_ok_iff, ?_⟩
  intro columns others hcolumns hperm
  exact measure_eq_ok_iff.mpr ((isTight_of_measure hcolumns).perm hperm)

/-- The longest cell of a column stands in any row, and characters are counted, not bytes. -/
example :
    measure [["n".toList, "名前".toList, []], ["1234".toList, [], "ﬁé".toList]] =
      .ok ⟨[4, 3, 3]⟩ := by
  decide

end FeatureMarkdown.ColumnWidths
