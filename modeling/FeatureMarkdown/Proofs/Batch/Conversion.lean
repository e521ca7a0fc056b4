import FeatureMarkdown.Batch.Run
import FeatureMarkdown.Proofs.Gherkin.EvenTables
import FeatureMarkdown.Proofs.Markdown.Faults

namespace FeatureMarkdown

namespace BatchRun

@[simp] theorem tell_events (run : BatchRun) (events : List Event) :
    (run.tell events).events = events ++ run.events := rfl

@[simp] theorem tell_result (run : BatchRun) (events : List Event) :
    (run.tell events).result = run.result := rfl

@[simp] theorem tell_files (run : BatchRun) (events : List Event) :
    (run.tell events).files = run.files := rfl

end BatchRun

theorem renderDocument_of_parse (options : RenderOptions) {text : Text} {document : Document}
    (h : Gherkin.parse text = .ok document) :
    ∃ markdown, options.renderDocument document = .ok markdown :=
  RenderOptions.renderDocument_eq_ok_iff.mpr fun table htable =>
    Gherkin.isEven_of_parse h table (Feature.mem_tables_of_mem_visibleTables htable)

namespace BatchOptions

variable (options : BatchOptions) (fs : FileSystem) (cwd : Location)

def target (file : Path) : Path :=
  outputPath options.output file options.format

/-- What becomes of the text of a feature file: the Markdown or the JSON of its document. -/
def Converts (text output : Text) : Prop :=
  ∃ document, Gherkin.parse text = .ok document ∧
    match options.format with
    | .markdown => options.render.renderDocument document = .ok output
    | .json => output = document.toJson.text

theorem generate_converts (file : Path) {text : Text} {document : Document}
    (h : Gherkin.parse text = .ok document) :
    ∃ output, options.Converts text output ∧ (options.generate file document).2 = .ok output := by
  unfold Converts generate
  cases options.format with
  | json => exact ⟨document.toJson.text, ⟨document, h, rfl⟩, rfl⟩
  | markdown =>
      obtain ⟨markdown, hmarkdown⟩ := renderDocument_of_parse options.render h
      exact ⟨markdown, ⟨document, h, hmarkdown⟩, by simp only [hmarkdown]⟩

/-- The conversion of a file ends in one of three ways; a rendering that fails is not among
them. -/
theorem convertFile_cases (file : Path) :
    (∃ cause, fs.readText cwd file = .error cause ∧
      (options.convertFile fs cwd file).2 = .error (.read file cause)) ∨
    (∃ text cause, fs.readText cwd file = .ok text ∧ Gherkin.parse text = .error cause ∧
      (options.convertFile fs cwd file).2 = .error (.parse file (.malformed cause))) ∨
    (∃ text output, fs.readText cwd file = .ok text ∧ options.Converts text output ∧
      (options.convertFile fs cwd file).2 = .ok output) := by
  cases hread : fs.readText cwd file with
  | error cause => exact .inl ⟨cause, rfl, by simp only [convertFile, hread]⟩
  | ok text =>
      cases hparse : Gherkin.parse text with
      | error cause =>
          exact .inr (.inl ⟨text, cause, rfl, hparse, by
            simp only [convertFile, convertText, hread, hparse]⟩)
      | ok document =>
          obtain ⟨output, hconverts, hgenerate⟩ := options.generate_converts file hparse
          exact .inr (.inr ⟨text, output, rfl, hconverts, by
            simp only [convertFile, convertText, hread, hparse, hgenerate]⟩)

theorem convertAll_nil (cancelled : Cancellation) (outputs : List Path) :
    options.convertAll cwd cancelled fs outputs [] = ⟨[], .ok ⟨outputs, false⟩, fs⟩ := rfl

theorem convertAll_cancelled {cancelled : Cancellation} {outputs : List Path}
    (h : cancelled outputs.length = true) (file : Path) (rest : List Path) :
    options.convertAll cwd cancelled fs outputs (file :: rest) =
      ⟨[.cancelled outputs.length], .ok ⟨outputs, true⟩, fs⟩ := by
  rw [convertAll, if_pos h]

/-- The files as they are after one more file has been processed, or the error that this ends in. -/
def process (cwd : Location) (fs : FileSystem) (file : Path) : Except BatchError FileSystem :=
  match (options.convertFile fs cwd file).2 with
  | .error e => .error e
  | .ok output =>
    if options.dryRun then .ok fs
    else
      match fs.writeFile cwd (options.target file) output.toBytes with
      | .error e => .error (.write (options.target file) e)
      | .ok after => .ok after

/-- The warning for a file whose target is among the given ones. -/
def warning (targets : List Path) (file : Path) : List Event :=
  if targets.contains (options.target file) then [.overwriting file (options.target file)] else []

theorem warning_of_mem {targets : List Path} {file : Path} (h : options.target file ∈ targets) :
    options.warning targets file = [.overwriting file (options.target file)] :=
  if_pos (List.contains_iff_mem.mpr h)

theorem warning_of_notMem {targets : List Path} {file : Path} (h : options.target file ∉ targets) :
    options.warning targets file = [] :=
  if_neg fun hcontains => h (List.contains_iff_mem.mp hcontains)

/-- What the loop tells of a file that has been converted. -/
def note (file : Path) : Event :=
  if options.dryRun then .notWritten file (options.target file)
  else .written file (options.target file)

/-- One round of the loop: the file is processed, which ends the run with an error, or the loop goes
on from the files that are left. -/
theorem convertAll_cons {cancelled : Cancellation} {outputs : List Path}
    (h : cancelled outputs.length = false) (file : Path) (rest : List Path) :
    options.convertAll cwd cancelled fs outputs (file :: rest) =
      let told := options.warning outputs file ++ (options.convertFile fs cwd file).1
      match options.process cwd fs file with
      | .error e => ⟨told, .error e, fs⟩
      | .ok after =>
        (options.convertAll cwd cancelled after (outputs ++ [options.target file]) rest).tell
          (told ++ [options.note file]) := by
  have hwarning : options.warning outputs file =
      if options.target file ∈ outputs then [.overwriting file (options.target file)] else [] := by
    split
    next hmem => exact options.warning_of_mem hmem
    next hmem => exact options.warning_of_notMem hmem
  rw [convertAll, if_neg (ne_true_of_eq_false h), hwarning]
  unfold process note target
  rcases options.convertFile fs cwd file with ⟨events, outcome⟩
  cases outcome with
  | error e => rfl
  | ok output =>
      cases options.dryRun with
      | true => rfl
      | false =>
          dsimp only
          cases fs.writeFile cwd (outputPath options.output file options.format) output.toBytes with
          | error e => rfl
          | ok after => rfl

/-- One round of the loop: it ends the run with an error and leaves the files alone, or the loop
goes on after the file, from the same files if the run is dry, and else from those with the
output. -/
theorem convertAll_cons_cases (outputs : List Path) (file : Path) (rest : List Path) :
    let run := options.convertAll cwd .never fs outputs (file :: rest)
    let next := fun after : FileSystem =>
      options.convertAll cwd .never after (outputs ++ [options.target file]) rest
    (∃ e, (options.convertFile fs cwd file).2 = .error e ∧
      run.result = .error e ∧ run.files = fs) ∨
    (∃ output, (options.convertFile fs cwd file).2 = .ok output ∧
      ((options.dryRun = true ∧ run.result = (next fs).result ∧ run.files = (next fs).files) ∨
      (∃ e, options.dryRun = false ∧
        fs.writeFile cwd (options.target file) output.toBytes = .error e ∧
        run.result = .error (.write (options.target file) e) ∧ run.files = fs) ∨
      (∃ after, options.dryRun = false ∧
        fs.writeFile cwd (options.target file) output.toBytes = .ok after ∧
        run.result = (next after).result ∧ run.files = (next after).files))) := by
  intro run next
  have hrun : run = _ := options.convertAll_cons fs cwd rfl file rest
  unfold process at hrun
  cases hconvert : (options.convertFile fs cwd file).2 with
  | error e =>
      rw [hconvert] at hrun
      exact .inl ⟨e, rfl, by rw [hrun], by rw [hrun]⟩
  | ok output =>
      rw [hconvert] at hrun
      refine .inr ⟨output, rfl, ?_⟩
      cases hdry : options.dryRun with
      | true =>
          rw [hdry] at hrun
          exact .inl ⟨rfl, by rw [hrun]; rfl, by rw [hrun]; rfl⟩
      | false =>
          rw [hdry] at hrun
          cases hwrite : fs.writeFile cwd (options.target file) output.toBytes with
          | error e =>
              dsimp only at hrun
              rw [hwrite] at hrun
              exact .inr (.inl ⟨e, rfl, rfl, by rw [hrun]; rfl, by rw [hrun]; rfl⟩)
          | ok after =>
              dsimp only at hrun
              rw [hwrite] at hrun
              exact .inr (.inr ⟨after, rfl, rfl, by rw [hrun]; rfl, by rw [hrun]; rfl⟩)

/-- What a token does to the loop: nothing, or it ends the loop behind some of the files, when these
have been converted as without a token. -/
theorem convertAll_eq_never_or_cancelled (cancelled : Cancellation) (outputs files : List Path) :
    let run := options.convertAll cwd cancelled fs outputs files
    run = options.convertAll cwd .never fs outputs files ∨
    ∃ before after, files = before ++ after ∧
      let part := options.convertAll cwd .never fs outputs before
      let done := outputs ++ before.map options.target
      cancelled done.length = true ∧ part.result = .ok ⟨done, false⟩ ∧
      run = ⟨part.events ++ [.cancelled done.length], .ok ⟨done, true⟩, part.files⟩ := by
  intro run
  induction files generalizing fs outputs with
  | nil => exact .inl rfl
  | cons file rest ih =>
      cases hasked : cancelled outputs.length with
      | true =>
          refine .inr ⟨[], file :: rest, rfl, ?_⟩
          simp [run, hasked, convertAll_nil, options.convertAll_cancelled fs cwd hasked]
      | false =>
          have hrun : run = _ := options.convertAll_cons fs cwd hasked file rest
          have hnever (others : List Path) := options.convertAll_cons fs cwd
            (show Cancellation.never outputs.length = false from rfl) file others
          cases hprocess : options.process cwd fs file with
          | error e =>
              rw [hprocess] at hrun
              exact .inl (by rw [hrun, hnever, hprocess])
          | ok current =>
              simp only [hprocess] at hrun hnever
              rcases ih current (outputs ++ [options.target file]) with
                hsame | ⟨before, after, rfl, hlast, hpart, hcancelled⟩
              · exact .inl (by rw [hrun, hnever, hsame])
              · refine .inr ⟨file :: before, after, rfl, ?_⟩
                have hdone : outputs ++ [options.target file] ++ before.map options.target =
                    outputs ++ (file :: before).map options.target := by simp
                rw [hdone] at hlast hpart hcancelled
                refine ⟨hlast, ?_, ?_⟩
                · rw [hnever]
                  exact hpart
                · rw [hrun, hcancelled, hnever]
                  simp [BatchRun.tell]

/-- What a run comes to: a failure before its loop, with the files as they are prepared, or the loop
over the files that it finds. -/
theorem run_eq_cases (cancelled : Cancellation) :
    let run := options.run fs cwd cancelled
    let prepared := options.prepare fs cwd
    (∃ e, prepared.2 = some e ∧
      run = ⟨[], .error (.createOutput options.output e), prepared.1⟩) ∨
    (∃ path e, prepared.2 = none ∧
      prepared.1.findFeatures cwd options.source options.recursive = .error (path, e) ∧
      run = ⟨[], .error (.discover path e), prepared.1⟩) ∨
    ∃ files, prepared.2 = none ∧
      prepared.1.findFeatures cwd options.source options.recursive = .ok files ∧
      run = (options.convertAll cwd cancelled prepared.1 [] files).tell
        [.discovered options.source options.recursive files.length,
          .converting options.source files.length] := by
  unfold run
  rcases options.prepare fs cwd with ⟨made, _ | e⟩
  · cases hfind : made.findFeatures cwd options.source options.recursive with
    | error failure =>
        exact .inr (.inl ⟨failure.1, failure.2, rfl, hfind, by simp only [hfind]⟩)
    | ok files => exact .inr (.inr ⟨files, rfl, hfind, by simp only [hfind]⟩)
  · exact .inl ⟨e, rfl, rfl⟩

/-- A run fails before its loop, or it ends as its loop does. -/
theorem run_cases (cancelled : Cancellation) :
    let run := options.run fs cwd cancelled
    let prepared := (options.prepare fs cwd).1
    run.files = prepared ∧
      ((∃ e, (options.prepare fs cwd).2 = some e ∧
        run.result = .error (.createOutput options.output e)) ∨
      (∃ path e, (options.prepare fs cwd).2 = none ∧
        prepared.findFeatures cwd options.source options.recursive = .error (path, e) ∧
        run.result = .error (.discover path e))) ∨
    ∃ files, (options.prepare fs cwd).2 = none ∧
      prepared.findFeatures cwd options.source options.recursive = .ok files ∧
      run.result = (options.convertAll cwd cancelled prepared [] files).result ∧
      run.files = (options.convertAll cwd cancelled prepared [] files).files := by
  intro run prepared
  rcases options.run_eq_cases fs cwd cancelled with
    ⟨e, hprepare, hrun⟩ | ⟨path, e, hprepare, hfind, hrun⟩ | ⟨files, hprepare, hfind, hrun⟩
  · exact .inl ⟨by simp only [run, hrun, prepared], .inl ⟨e, hprepare, by simp only [run, hrun]⟩⟩
  · exact .inl ⟨by simp only [run, hrun, prepared],
      .inr ⟨path, e, hprepare, hfind, by simp only [run, hrun]⟩⟩
  · exact .inr ⟨files, hprepare, hfind, by simp only [run, hrun, BatchRun.tell_result, prepared],
      by simp only [run, hrun, BatchRun.tell_files, prepared]⟩

theorem run_result (cancelled : Cancellation) :
    (options.run fs cwd cancelled).result =
      match (options.prepare fs cwd).2 with
      | some e => .error (.createOutput options.output e)
      | none =>
        match (options.prepare fs cwd).1.findFeatures cwd options.source options.recursive with
        | .error (path, e) => .error (.discover path e)
        | .ok files =>
          (options.convertAll cwd cancelled (options.prepare fs cwd).1 [] files).result := by
  rcases options.run_eq_cases fs cwd cancelled with
    ⟨e, hprepare, hrun⟩ | ⟨path, e, hprepare, hfind, hrun⟩ | ⟨files, hprepare, hfind, hrun⟩
  · rw [hrun, hprepare]
  · rw [hrun, hprepare, hfind]
  · rw [hrun, hprepare, hfind]
    rfl

theorem convertAll_ne_render (cancelled : Cancellation) (outputs files : List Path) (path : Path)
    (e : RenderError) :
    (options.convertAll cwd cancelled fs outputs files).result ≠ .error (.render path e) := by
  rcases options.convertAll_eq_never_or_cancelled fs cwd cancelled outputs files with
    hsame | ⟨before, after, -, -, -, hcancelled⟩
  · rw [hsame]
    clear hsame
    induction files generalizing fs outputs with
    | nil => simp [convertAll_nil]
    | cons file rest ih =>
        rcases options.convertAll_cons_cases fs cwd outputs file rest with
          ⟨cause, hconvert, hresult, -⟩ | ⟨output, -, ⟨-, hresult, -⟩ | ⟨cause, -, -, hresult, -⟩ |
            ⟨after, -, -, hresult, -⟩⟩
        · rw [hresult]
          rintro ⟨⟩
          rcases options.convertFile_cases fs cwd file with
            ⟨_, _, h⟩ | ⟨_, _, _, _, h⟩ | ⟨_, _, _, _, h⟩ <;> simp [h] at hconvert
        · exact hresult ▸ ih fs _
        · simp [hresult]
        · exact hresult ▸ ih after _
  · simp [hcancelled]

end BatchOptions

/-- A parsed document has even tables only, wherever they stand, and renders with any options; so
no run ends because of a document that cannot be rendered. -/
theorem parsed_documents_render :
    (∀ (text : Text) (document : Document), Gherkin.parse text = .ok document →
      (∀ table ∈ document.feature.tables, table.IsEven) ∧
      ∀ options : RenderOptions, ∃ markdown, options.renderDocument document = .ok markdown) ∧
    ∀ (options : BatchOptions) (fs : FileSystem) (cwd : Location) (cancelled : Cancellation)
      (path : Path) (e : RenderError),
      (options.run fs cwd cancelled).result ≠ .error (.render path e) := by
  constructor
  · intro text document h
    exact ⟨Gherkin.isEven_of_parse h, fun options => renderDocument_of_parse options h⟩
  · intro options fs cwd cancelled path e
    rcases options.run_cases fs cwd cancelled with
      ⟨-, ⟨cause, -, hresult⟩ | ⟨root, cause, -, -, hresult⟩⟩ | ⟨files, -, -, hresult, -⟩
    · simp [hresult]
    · simp [hresult]
    · rw [hresult]
      exact options.convertAll_ne_render _ cwd cancelled [] files path e

theorem parsed_documents_render_with_long_row :
    ∃ document,
      Gherkin.parse "Feature: F\nRule: R\nScenario: S\nGiven g\n|a|b|\n|1|2|3|\n".toList =
        .ok document ∧
      document.feature.tables = [⟨[[['a'], ['b']], [['1'], ['2']]]⟩] ∧
      (∀ table ∈ document.feature.tables, table.IsEven) ∧
      ∀ options : RenderOptions, ∃ markdown, options.renderDocument document = .ok markdown := by
  generalize htext : "Feature: F\nRule: R\nScenario: S\nGiven g\n|a|b|\n|1|2|3|\n".toList = text
  have htables : (Gherkin.parse text).toOption.map (fun document => document.feature.tables) =
      some [⟨[[['a'], ['b']], [['1'], ['2']]]⟩] := by
    subst text
    decide +kernel
  obtain ⟨document, hdocument, htables⟩ := Option.map_eq_some_iff.mp htables
  have hparse := eq_ok_of_toOption hdocument
  exact ⟨document, hparse, htables, parsed_documents_render.1 text document hparse⟩

end FeatureMarkdown
