import FeatureMarkdown.Gherkin.Grammar.Block
import FeatureMarkdown.Proofs.Gherkin.PlainLines

namespace FeatureMarkdown.Gherkin

open FeatureMarkdown.Gherkin.Parser
open FeatureMarkdown.Gherkin.Layout

variable {s t : Text} {more : List Text}

/-- How a scenario begins, or the text ends. -/
def scenarioHeads : List Char :=
  ['@', 'S']

/-- How examples begin, or what comes after them. -/
def examplesHeads : List Char :=
  'E' :: scenarioHeads

/-- How a step begins, or what comes after steps. -/
def stepHeads : List Char :=
  ['G', 'W', 'T'] ++ examplesHeads

/-- How a row begins, or what comes after a table. -/
def rowHeads : List Char :=
  '|' :: stepHeads

instance (s : Text) : Decidable (Settled s) :=
  Option.decidableForallMem s.head?

instance (chars : List Char) (s : Text) : Decidable (HeadIn chars s) :=
  Option.decidableForallMem s.head?

theorem settled_of_headIn (h : HeadIn rowHeads s) : Settled s :=
  h.settled (by decide)

theorem headIn_cons {chars : List Char} {c : Char} : HeadIn chars (c :: s) ↔ c ∈ chars := by
  simp [HeadIn]

section Tables

theorem rowText_cons (cell : Text) (cells : List Text) (s : Text) :
    rowText (cell :: cells) ++ s =
      "|".toList ++ (' ' :: (cell ++ [' '] ++ (rowText cells ++ s))) := by
  simp [rowText]

theorem atCellEnd_cons {c : Char} (hbar : c ≠ '|') (hfeed : c ≠ '\n') (hreturn : c ≠ '\r')
    (s : Text) : atCellEnd (c :: s) = false := by
  rw [atCellEnd, atLineBreak_cons hfeed hreturn, Bool.or_false]
  simpa [List.isPrefixOf] using hbar.symm

theorem cell_reads (h : t.IsTight) (cells : List Text) (s : Text) :
    cell.Reads (rowText (t :: cells) ++ s) t (rowText cells ++ s) := by
  have hspace : skipSpaces (' ' :: (t ++ [' '] ++ (rowText cells ++ s))) =
      t ++ [' '] ++ (rowText cells ++ s) := by
    rw [List.append_assoc]
    exact (skipSpaces_replicate 1 _).trans (settled_of_isTight h _).skipSpaces
  have habsent : (atLineBreak (t ++ [' '] ++ (rowText cells ++ s)) ||
      (t ++ [' '] ++ (rowText cells ++ s)).isEmpty) = false := by
    rw [List.append_assoc, atLineBreak, (settled_of_isTight h _).lineBreak?]
    simp
  have hsplit : splitBefore atCellEnd (t ++ [' '] ++ (rowText cells ++ s)) =
      (t ++ [' '], rowText cells ++ s) := by
    refine splitBefore_of_stop (fun c hc s => ?_) rfl
    rcases List.mem_append.mp hc with hc | hc
    · exact atCellEnd_cons (h.ne_of_mem hc rfl (by decide)) (h.ne_of_mem hc rfl (by decide))
        (h.ne_of_mem hc rfl (by decide)) s
    · obtain rfl := List.mem_singleton.mp hc
      rfl
  have hpure : (Pure.pure (Text.trim (t ++ [' '])) : Parser Text).Reads (rowText cells ++ s) t
      (rowText cells ++ s) := by
    rw [h.trim_append_space]
    exact .pure t _
  rw [rowText_cons]
  exact .bind (.literal _ _) (.bind (.skip hspace) (.bind (.absent habsent)
    (.bind (.upTo hsplit) hpure)))

theorem cell_declines_lineBreak (s : Text) : cell.Declines ('|' :: '\n' :: s) :=
  .bind_of_reads (.literal "|".toList ('\n' :: s))
    (.bind_of_reads (.skip rfl) (.bind (.absent rfl)))

theorem cell_declines (h : ¬ "|".toList <+: s) : cell.Declines s :=
  .bind (.literal h)

theorem rowText_ne_nil (cells : List Text) : rowText cells ≠ [] :=
  List.cons_ne_nil _ _

theorem settled_rowText (cells : List Text) : Settled (rowText cells) := by
  rintro c hc
  obtain rfl : '|' = c := by simpa [rowText] using hc
  decide

theorem many_cells_reads {cells : List Text} (h : ∀ cell ∈ cells, cell.IsTight) (s : Text) :
    Parser.Reads (many (do skip skipSpaces; cell)) (rowText cells ++ '\n' :: s) cells
      ('|' :: '\n' :: s) := by
  induction cells with
  | nil => exact .many_nil (.bind_of_reads (.skip rfl) (cell_declines_lineBreak s))
  | cons first cells ih =>
      have hfirst := cell_reads (h first List.mem_cons_self) cells ('\n' :: s)
      have hsettled := (settled_rowText (first :: cells)).append (rowText_ne_nil _) ('\n' :: s)
      refine .many_cons (.bind (.skip hsettled.skipSpaces) hfirst) ?_
        (ih fun cell hcell => h cell (List.mem_cons_of_mem first hcell))
      rw [rowText_cons]
      simp
      omega

theorem row_reads {cells : List Text} (hne : cells ≠ []) (h : ∀ cell ∈ cells, cell.IsTight)
    (more : List Text) :
    row.Reads (rowText cells ++ '\n' :: LineEnding.lf.endLines more) cells (ahead more) := by
  obtain ⟨first, cells, rfl⟩ := List.exists_cons_of_ne_nil hne
  have hfirst := cell_reads (h first List.mem_cons_self) cells ('\n' :: LineEnding.lf.endLines more)
  have hothers := many_cells_reads (fun cell hcell => h cell (List.mem_cons_of_mem first hcell))
    (LineEnding.lf.endLines more)
  exact .bind (.orEmpty (Reads.separated hfirst hothers)) (.bind (.skip rfl)
    (.bind (.literal "|".toList _) (.bind (.skip rfl) (.bind (lineRest_reads more) (.pure _ _)))))

theorem row_declines (hs : Settled s) (h : ¬ "|".toList <+: s) : row.Declines s :=
  .bind_of_reads (.orEmpty_of_declines (.separated (cell_declines h)))
    (.bind_of_reads (.skip hs.skipSpaces) (.bind (.literal h)))

theorem table_declines (hs : Settled s) (h : ¬ "|".toList <+: s) : table.Declines s :=
  .bind_of_reads (.skip hs.skipSpaces) (.bind (.separated (row_declines hs h)))

theorem ahead_rowLine (cells : List Text) (more : List Text) :
    ahead ([rowLine cells] ++ more) = rowText cells ++ '\n' :: LineEnding.lf.endLines more :=
  ahead_indented (settled_rowText cells) (rowText_ne_nil cells) 6 more

theorem row_readsLines {cells : List Text} (hne : cells ≠ []) (h : ∀ cell ∈ cells, cell.IsTight) :
    ReadsLines row (fun cells => [rowLine cells]) (fun more => HeadIn rowHeads (ahead more)) id id
      cells where
  fits more := by
    rw [ahead_rowLine, rowText, List.cons_append, headIn_cons]
    decide
  shorter more := length_ahead_lt (settled_rowText cells) (rowText_ne_nil cells) 6 [] more
  reads more _ := ahead_rowLine cells more ▸ row_reads hne h more

theorem rows_readsLines {t : Table} (h : t.IsPlain) :
    ∀ cells ∈ t.rows, ReadsLines row (fun cells => [rowLine cells])
      (fun more => HeadIn rowHeads (ahead more)) id id cells := fun cells hcells =>
  row_readsLines (h.row_ne_nil cells hcells) fun _ hcell => (h.cells _ hcells _ hcell).isTight

theorem tableLines_eq_flatMap (t : Table) :
    tableLines t = t.rows.flatMap fun cells => [rowLine cells] := by
  rw [tableLines, List.map_eq_flatMap]

theorem headIn_tableLines {t : Table} (h : t.IsPlain) (hmore : HeadIn rowHeads (ahead more)) :
    HeadIn rowHeads (ahead (tableLines t ++ more)) := by
  rw [tableLines_eq_flatMap]
  exact fits_flatMap (rows_readsLines h) hmore

theorem bar_prefix_tableLines {t : Table} (h : t.IsPlain) (more : List Text) :
    "|".toList <+: ahead (tableLines t ++ more) := by
  obtain ⟨header, body, hrows, -⟩ := h.even
  rw [tableLines, hrows, List.map_cons, List.cons_append]
  have hahead := ahead_rowLine header (body.map rowLine ++ more)
  rw [List.singleton_append] at hahead
  exact hahead ▸ ⟨_, rfl⟩

theorem table_reads {t : Table} (h : t.IsPlain) (hmore : HeadIn stepHeads (ahead more)) :
    table.Reads (ahead (tableLines t ++ more)) t (ahead more) := by
  obtain ⟨header, body, hrows, heven⟩ := h.even
  have hmore' : HeadIn rowHeads (ahead more) := hmore.mono (List.subset_cons_self _ _)
  have hbar : ¬ "|".toList <+: ahead more :=
    not_prefix_of_headIn hmore (by decide) (by decide)
  have hreads := separated_reads_lines (by simp [hrows]) (rows_readsLines h) (rows_readsLines h)
    (fun _ => settled_of_headIn) hmore' (row_declines (settled_of_headIn hmore') hbar)
  rw [List.map_id_fun, id_eq] at hreads
  have hwidth : ∀ cells ∈ t.rows, cells.length = (t.rows.head?.getD []).length := by
    intro cells hcells
    rw [hrows] at hcells ⊢
    rcases List.mem_cons.mp hcells with rfl | hcells
    · rfl
    · exact heven cells hcells
  have hcut : t.rows.map (·.take (t.rows.head?.getD []).length) = t.rows :=
    (List.map_congr_left fun cells hcells =>
      List.take_of_length_le (Nat.le_of_eq (hwidth cells hcells))).trans (List.map_id _)
  rw [← tableLines_eq_flatMap] at hreads
  have hstart := (settled_of_headIn (headIn_tableLines h hmore')).skipSpaces
  refine .bind (.skip hstart) (.bind hreads (.bind (.insist ?_ _ _) ?_))
  · rw [hcut]
    simpa using hwidth
  · rw [hcut]
    exact .pure t _

theorem headIn_optionalTable {found : Option Table} (h : ∀ t ∈ found, t.IsPlain)
    (hmore : HeadIn stepHeads (ahead more)) :
    HeadIn rowHeads (ahead (found.toList.flatMap tableLines ++ more)) := by
  have hmore' : HeadIn rowHeads (ahead more) := hmore.mono (List.subset_cons_self _ _)
  cases found with
  | none => exact hmore'
  | some t =>
      rw [Option.toList_some, List.flatMap_singleton]
      exact headIn_tableLines (h t rfl) hmore'

theorem optional_table_reads {found : Option Table} (h : ∀ t ∈ found, t.IsPlain)
    (hmore : HeadIn stepHeads (ahead more)) :
    (Parser.optional table).Reads (ahead (found.toList.flatMap tableLines ++ more)) found
      (ahead more) := by
  cases found with
  | none =>
      have hsettled := settled_of_headIn (headIn_optionalTable h hmore)
      exact .optional_of_declines
        (table_declines hsettled (not_prefix_of_headIn hmore (by decide) (by decide)))
  | some t =>
      rw [Option.toList_some, List.flatMap_singleton]
      exact (table_reads (h t rfl) hmore).optional

end Tables

section Tags

/-- The tags behind the first one. -/
def tagTail (tags : List Tag) : Text :=
  tags.flatMap fun tag => ' ' :: '@' :: tag.name

@[simp] theorem tagTail_nil : tagTail [] = [] := rfl

@[simp] theorem tagTail_cons (tag : Tag) (tags : List Tag) :
    tagTail (tag :: tags) = ' ' :: '@' :: (tag.name ++ tagTail tags) := rfl

theorem tagText_cons (tag : Tag) (tags : List Tag) :
    tagText (tag :: tags) = '@' :: (tag.name ++ tagTail tags) := by
  induction tags generalizing tag with
  | nil => simp [tagText, Text.join]
  | cons next tags ih =>
      have hjoin : tagText (tag :: next :: tags) =
          '@' :: (tag.name ++ ' ' :: tagText (next :: tags)) := by
        simp [tagText, Text.join, List.intercalate_cons_cons]
      rw [hjoin, ih next, tagTail_cons]

theorem headIn_tagText (first : Tag) (tags : List Tag) : HeadIn ['@'] (tagText (first :: tags)) :=
  tagText_cons first tags ▸ headIn_cons.mpr (by decide)

theorem settled_tagText (first : Tag) (tags : List Tag) : Settled (tagText (first :: tags)) :=
  (headIn_tagText first tags).settled (by decide)

theorem tagText_ne_nil (first : Tag) (tags : List Tag) : tagText (first :: tags) ≠ [] :=
  tagText_cons first tags ▸ List.cons_ne_nil _ _

theorem ahead_tagLines_cons (depth : Nat) (first : Tag) (tags : List Tag) (lines : List Text) :
    ahead (tagLines depth (first :: tags) ++ lines) =
      '@' :: (first.name ++ (tagTail tags ++ '\n' :: LineEnding.lf.endLines lines)) := by
  rw [tagLines, if_neg (List.cons_ne_nil _ _), List.singleton_append,
    ahead_indented (settled_tagText first tags) (tagText_ne_nil first tags), tagText_cons]
  simp

theorem isTagCharacter_of_isAlphanum {c : Char} (h : c.isAlphanum = true) :
    isTagCharacter c = true := by
  have hne : c ≠ '@' := by
    rintro rfl
    simp at h
  simp [isTagCharacter, Text.isBlank_of_isAlphanum h, hne]

theorem tag_reads (h : t.IsWord) (hs : ∀ c ∈ s.head?, isTagCharacter c = false) :
    tag.Reads ('@' :: (t ++ s)) t s := by
  have ht : ∀ c ∈ t, isTagCharacter c = true := fun c hc =>
    isTagCharacter_of_isAlphanum (h.2 c hc)
  have hname : (t ++ s).takeWhile isTagCharacter = t := by
    rw [List.takeWhile_append_of_pos ht]
    cases s with
    | nil => simp
    | cons c s => simp [List.takeWhile_cons_of_neg, hs c rfl]
  have hrest : (t ++ s).dropWhile isTagCharacter = s := by
    rw [List.dropWhile_append_of_pos ht]
    cases s with
    | nil => simp
    | cons c s => simp [List.dropWhile_cons_of_neg, hs c rfl]
  have htag : tagName.Reads (t ++ s) t s := by
    refine fun _ => ⟨t, [if s = [] then ⟨0, .anyCharacter⟩ else ⟨s.length - 1, .tagCharacter⟩], [],
      rfl, ?_⟩
    rw [tagName, hname, hrest, if_neg h.1]
  exact .bind (.literal "@".toList (t ++ s)) htag

theorem tag_declines (h : ¬ "@".toList <+: s) : tag.Declines s :=
  .bind (.literal h)

/-- A blank ends a tag. -/
theorem head_tagTail (tags : List Tag) (s : Text) :
    ∀ c ∈ (tagTail tags ++ '\n' :: s).head?, isTagCharacter c = false := by
  intro c hc
  cases tags with
  | nil =>
      obtain rfl : '\n' = c := by simpa using hc
      decide
  | cons next tags =>
      obtain rfl : ' ' = c := by simpa using hc
      decide

theorem many_tags_reads {tags : List Tag} (h : ∀ tag ∈ tags, tag.name.IsWord)
    (hs : ¬ "@".toList <+: skipBlankLines s) :
    Parser.Reads (many (do skip skipBlankLines; tag)) (tagTail tags ++ '\n' :: s)
      (tags.map Tag.name) ('\n' :: s) := by
  induction tags with
  | nil => exact .many_nil (.bind_of_reads (.skip (skipBlankLines_lineFeed s)) (tag_declines hs))
  | cons first tags ih =>
      have hskip (rest : Text) : skipBlankLines (' ' :: '@' :: rest) = '@' :: rest := by
        have hsettled : Settled ('@' :: rest) := settled_of_headIn (headIn_cons.mpr (by decide))
        exact (skipBlankLines_replicate 1 _).trans hsettled.skipBlankLines
      have htext : tagTail (first :: tags) ++ '\n' :: s =
          ' ' :: '@' :: (first.name ++ (tagTail tags ++ '\n' :: s)) := by
        simp
      have hfirst := tag_reads (h first List.mem_cons_self) (head_tagTail tags s)
      have hothers := ih fun tag htag => h tag (List.mem_cons_of_mem first htag)
      rw [htext]
      refine .many_cons (.bind (.skip (hskip _)) hfirst) ?_ hothers
      simp
      omega

theorem tags_reads_nil (hs : Settled s) (hat : ¬ "@".toList <+: s) : tags.Reads s [] s :=
  .bind (.orEmpty_of_declines (.separated (tag_declines hat)))
    (.bind (.skip hs.skipSpaces) (.bind (.skip hs.skipLineEnds) (.pure _ _)))

/-- The tags of a heading. The spaces before the heading may be left. -/
theorem tags_reads {tags : List Tag} (h : ∀ tag ∈ tags, tag.name.IsWord) (hs : Settled s)
    (hne : s ≠ []) (hat : ¬ "@".toList <+: s) (depth : Nat) (more : List Text) :
    ∃ left ≤ depth, Gherkin.tags.Reads (ahead (tagLines depth tags ++ indented depth s :: more))
      (tags.map Tag.name) (indented left (s ++ '\n' :: LineEnding.lf.endLines more)) := by
  have hs' := hs.append hne ('\n' :: LineEnding.lf.endLines more)
  have hat' : ¬ "@".toList <+: s ++ '\n' :: LineEnding.lf.endLines more := by
    obtain ⟨c, rest, rfl⟩ := List.exists_cons_of_ne_nil hne
    simpa using hat
  cases tags with
  | nil =>
      refine ⟨0, Nat.zero_le depth, ?_⟩
      rw [tagLines, if_pos rfl, List.nil_append, ahead_indented hs hne]
      exact tags_reads_nil hs' hat'
  | cons first tags =>
      have hblank : ¬ "@".toList <+: skipBlankLines (LineEnding.lf.endLines
          (indented depth s :: more)) := by
        have hahead : skipBlankLines (LineEnding.lf.endLines (indented depth s :: more)) =
            s ++ '\n' :: LineEnding.lf.endLines more := ahead_indented hs hne depth more
        rwa [hahead]
      have hothers := many_tags_reads (fun tag htag => h tag (List.mem_cons_of_mem first htag))
        hblank
      have hfirst := tag_reads (h first List.mem_cons_self)
        (head_tagTail tags (LineEnding.lf.endLines (indented depth s :: more)))
      have hends : (skip skipLineEnds).Reads
          ('\n' :: LineEnding.lf.endLines (indented depth s :: more)) ()
          (indented depth (s ++ '\n' :: LineEnding.lf.endLines more)) := by
        rw [endLines_cons, indented, List.append_assoc]
        exact .skip (skipLineEnds_lineFeed hs' depth)
      refine ⟨depth, Nat.le_refl depth, ?_⟩
      rw [ahead_tagLines_cons]
      exact .bind (.orEmpty (Reads.separated hfirst hothers))
        (.bind (.skip rfl) (.bind hends (.pure _ _)))

end Tags

section Steps

theorem docstring_declines (h : HeadIn rowHeads s) : docstring.Declines s :=
  .either (.bind (.literal (not_prefix_of_headIn h (by decide) (by decide))))
    (.bind (.literal (not_prefix_of_headIn h (by decide) (by decide))))

theorem stepWith_reads {words : List Text} {step : Step} (h : step.IsPlain)
    (hwords : words.find? (fun other => !clash other (spaced step.keyword)) =
      some (spaced step.keyword))
    (hkeyword : Settled (spaced step.keyword)) (hmore : HeadIn stepHeads (ahead more)) :
    (stepWith words true).Reads
      (spaced step.keyword ++ (step.text ++
        '\n' :: LineEnding.lf.endLines (step.table.toList.flatMap tableLines ++ more)))
      (step.mapKeyword spaced) (ahead more) := by
  have htext := h.text.isTight
  have hrow := headIn_optionalTable h.table hmore
  have hpure : (Pure.pure ⟨spaced step.keyword, Text.trimEnd step.text, step.table⟩ :
      Parser Step).Reads (ahead more) (step.mapKeyword spaced) (ahead more) := by
    rw [htext.isTrimmed.trimEnd_eq]
    exact .pure _ _
  exact .bind (keyword_reads hwords hkeyword (spaced_ne_nil _) _) <|
    .bind (.skip (settled_of_isTight htext _).skipSpaces) <|
    .bind (lineText_reads htext _) <| .bind (.skip rfl) <|
    .bind (lineRest_reads _) <| .bind (.skip (settled_of_headIn hrow).skipSpaces) <|
    .bind (.optional_of_declines (docstring_declines hrow)) <|
    .bind (optional_table_reads h.table hmore) <| .bind (.check _ _) hpure

theorem stepWith_declines {words : List Text} (h : (keyword words).Declines s) (allowed : Bool) :
    (stepWith words allowed).Declines s :=
  h.bind

theorem step_declines (h : HeadIn examplesHeads s) (following : Bool) :
    (step .english following).Declines s := by
  have hs : Settled s := h.settled (by decide)
  have hwith {words : List Text}
      (hwords : ∀ word ∈ words, word ≠ [] ∧ ¬ HeadIn examplesHeads word) (allowed : Bool) :
      (stepWith words allowed).Declines s :=
    stepWith_declines (keyword_declines_of_headIn h (by decide) hwords) allowed
  exact .either (.bind_of_reads (.skip hs.skipComments) (hwith (by decide) _)) <|
    .either (hwith (by decide) _) <| .either (hwith (by decide) _) <|
    .either (hwith (by decide) _) (hwith (by decide) _)

theorem spaced_keyword_cases {step : Step} (h : step.IsPlain) :
    spaced step.keyword = "Given ".toList ∨ spaced step.keyword = "When ".toList ∨
      spaced step.keyword = "Then ".toList := by
  have hkeyword := h.keyword
  simp only [List.mem_cons, List.not_mem_nil, or_false] at hkeyword
  rcases hkeyword with heq | heq | heq <;> rw [spaced, heq] <;> decide

theorem headIn_spaced {step : Step} (h : step.IsPlain) :
    HeadIn stepHeads (spaced step.keyword) := by
  rcases spaced_keyword_cases h with heq | heq | heq <;> rw [heq] <;> decide

theorem ahead_stepLines {step : Step} (h : step.IsPlain) (more : List Text) :
    ahead (stepLines step ++ more) = spaced step.keyword ++ (step.text ++
      '\n' :: LineEnding.lf.endLines (step.table.toList.flatMap tableLines ++ more)) := by
  have hkeyword : Settled (spaced step.keyword) := (headIn_spaced h).settled (by decide)
  rw [stepLines, List.cons_append, ahead_indented (hkeyword.append (spaced_ne_nil _) _)
    (by simp [spaced]), List.append_assoc]

theorem step_reads {step : Step} (h : step.IsPlain) (following : Bool)
    (hmore : HeadIn stepHeads (ahead more)) :
    (Gherkin.step .english following).Reads (ahead (stepLines step ++ more))
      (step.mapKeyword spaced) (ahead more) := by
  have hkeyword : Settled (spaced step.keyword) := (headIn_spaced h).settled (by decide)
  rw [ahead_stepLines h]
  generalize hrest : step.text ++
    '\n' :: LineEnding.lf.endLines (step.table.toList.flatMap tableLines ++ more) = rest
  have hs : Settled (spaced step.keyword ++ rest) := hkeyword.append (spaced_ne_nil _) rest
  have hreads {words : List Text}
      (hwords : words.find? (fun other => !clash other (spaced step.keyword)) =
        some (spaced step.keyword)) :
      (stepWith words true).Reads (spaced step.keyword ++ rest) (step.mapKeyword spaced)
        (ahead more) :=
    hrest ▸ stepWith_reads h hwords hkeyword hmore
  have hdeclines {words : List Text}
      (hwords : ∀ word ∈ words, clash word (spaced step.keyword) = true) :
      (stepWith words true).Declines (spaced step.keyword ++ rest) :=
    stepWith_declines
      (keyword_declines hs fun word hword => not_prefix_of_clash (hwords word hword) rest) true
  have hcomments := ReadsAs.skip hs.skipComments
  rcases spaced_keyword_cases h with heq | heq | heq
  · exact .either (.bind hcomments (hreads (by rw [heq]; decide)))
  · exact .either_of_declines (.bind_of_reads hcomments (hdeclines (by rw [heq]; decide))) <|
      .either (hreads (by rw [heq]; decide))
  · exact .either_of_declines (.bind_of_reads hcomments (hdeclines (by rw [heq]; decide))) <|
      .either_of_declines (hdeclines (by rw [heq]; decide)) <|
      .either (hreads (by rw [heq]; decide))

theorem step_readsLines {step : Step} (h : step.IsPlain) (following : Bool) :
    ReadsLines (Gherkin.step .english following) stepLines
      (fun more => HeadIn stepHeads (ahead more)) id (Step.mapKeyword spaced) step where
  fits more := ahead_stepLines h more ▸ (headIn_spaced h).append (spaced_ne_nil _) _
  shorter more := by
    have hkeyword : Settled (spaced step.keyword) := (headIn_spaced h).settled (by decide)
    exact length_ahead_lt (hkeyword.append (spaced_ne_nil _) _) (by simp [spaced]) 4 _ more
  reads _ hmore := step_reads h following hmore

theorem steps_reads {found : List Step} (hne : found ≠ []) (h : ∀ step ∈ found, step.IsPlain)
    (hmore : HeadIn examplesHeads (ahead more)) :
    (steps .english).Reads (ahead (found.flatMap stepLines ++ more))
      (found.map (Step.mapKeyword spaced)) (ahead more) := by
  have hmore' : HeadIn stepHeads (ahead more) := hmore.mono (by decide)
  have hreads := separated_reads_lines hne
    (fun step hstep => step_readsLines (h step hstep) false)
    (fun step hstep => step_readsLines (h step hstep) true)
    (fun _ hfit => HeadIn.settled hfit (by decide)) hmore' (step_declines hmore true)
  rw [List.map_id_fun] at hreads
  exact .orEmpty hreads

end Steps

end FeatureMarkdown.Gherkin
