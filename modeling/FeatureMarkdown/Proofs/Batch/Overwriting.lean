import FeatureMarkdown.Proofs.Batch.Conversion
import FeatureMarkdown.Proofs.File.Order
import Mathlib.Data.Finset.Card

namespace FeatureMarkdown

def Event.isOverwriting : Event → Bool
  | .overwriting _ _ => true
  | _ => false

namespace BatchOptions

variable {options : BatchOptions} {fs : FileSystem} {cwd : Location} {files processed : List Path}
  {file : Path} {result : Except BatchError Report}

/-- The files that a run processes, with its result: none if it fails before its loop, and else all
that it finds, or those up to the first that cannot be processed, which is one of them. -/
inductive Processed (options : BatchOptions) (fs : FileSystem) (cwd : Location) :
    List Path → Except BatchError Report → Prop
  | unprepared {e : FileError} (hprepare : (options.prepare fs cwd).2 = some e) :
      Processed options fs cwd [] (.error (.createOutput options.output e))
  | unsearched {path : Path} {e : FileError} (hprepare : (options.prepare fs cwd).2 = none)
      (hsearch : (options.prepare fs cwd).1.findFeatures cwd options.source options.recursive =
        .error (path, e)) :
      Processed options fs cwd [] (.error (.discover path e))
  | completed {files : List Path} {final : FileSystem}
      (hprepare : (options.prepare fs cwd).2 = none)
      (hsearch : (options.prepare fs cwd).1.findFeatures cwd options.source options.recursive =
        .ok files)
      (hfiles : files.foldlM (options.process cwd) (options.prepare fs cwd).1 = .ok final) :
      Processed options fs cwd files (.ok ⟨files.map options.target, false⟩)
  | stopped {before after : List Path} {file : Path} {current : FileSystem} {e : BatchError}
      (hprepare : (options.prepare fs cwd).2 = none)
      (hsearch : (options.prepare fs cwd).1.findFeatures cwd options.source options.recursive =
        .ok (before ++ file :: after))
      (hbefore : before.foldlM (options.process cwd) (options.prepare fs cwd).1 = .ok current)
      (hfile : options.process cwd current file = .error e) :
      Processed options fs cwd (before ++ [file]) (.error e)

/-- One warning for each file whose target is that of an earlier one, in order. -/
def overwritings (options : BatchOptions) (files : List Path) : List Event :=
  files.zipIdx.flatMap fun (file, i) => options.warning ((files.take i).map options.target) file

theorem overwritings_append_singleton (options : BatchOptions) (files : List Path) (file : Path) :
    options.overwritings (files ++ [file]) =
      options.overwritings files ++ options.warning (files.map options.target) file := by
  unfold overwritings
  rw [List.zipIdx_append, List.flatMap_append]
  congr 1
  · apply List.flatMap_congr
    rintro ⟨other, i⟩ hmem
    have hi : i < files.length := by simpa using List.snd_lt_of_mem_zipIdx hmem
    dsimp only
    rw [List.take_append_of_le_length (Nat.le_of_lt hi)]
  · simp

/-- Each file has a target that is new, or a warning. -/
theorem length_overwritings_add_card (options : BatchOptions) (files : List Path) :
    (options.overwritings files).length + (files.map options.target).toFinset.card =
      files.length := by
  induction files using List.reverseRecOn with
  | nil => rfl
  | append_singleton files file ih =>
      have htargets : ((files ++ [file]).map options.target).toFinset =
          insert (options.target file) (files.map options.target).toFinset := by
        ext path
        simp
      rw [overwritings_append_singleton, htargets, List.length_append, List.length_append]
      by_cases hmem : options.target file ∈ files.map options.target
      · rw [options.warning_of_mem hmem, Finset.insert_eq_of_mem (List.mem_toFinset.mpr hmem)]
        simp only [List.length_singleton]
        omega
      · have hnew : options.target file ∉ (files.map options.target).toFinset :=
          fun h => hmem (List.mem_toFinset.mp h)
        rw [options.warning_of_notMem hmem, Finset.card_insert_of_notMem hnew]
        simp only [List.length_nil, List.length_singleton]
        omega

theorem overwritings_eq_nil_of_nodup (h : (files.map options.target).Nodup) :
    options.overwritings files = [] := by
  have hcount := options.length_overwritings_add_card files
  rw [List.toFinset_card_of_nodup h, List.length_map] at hcount
  exact List.length_eq_zero_iff.mp (by omega)

theorem filter_warning (targets : List Path) (file : Path) :
    (options.warning targets file).filter Event.isOverwriting = options.warning targets file := by
  unfold warning
  split <;> rfl

theorem filter_generate (file : Path) (document : Document) :
    (options.generate file document).1.filter Event.isOverwriting = [] := by
  have hskip : (skipEvents document.feature).filter Event.isOverwriting = [] := by
    rw [List.filter_eq_nil_iff]
    intro event hevent
    obtain ⟨child, -, rfl⟩ := List.mem_map.mp hevent
    exact Bool.false_ne_true
  unfold generate
  cases options.format with
  | json => rfl
  | markdown =>
      cases options.render.renderDocument document with
      | error e => exact hskip
      | ok text =>
          rw [List.filter_append, hskip]
          rfl

/-- The conversion of a file tells nothing of targets. -/
theorem filter_convertFile (fs : FileSystem) (cwd : Location) (file : Path) :
    (options.convertFile fs cwd file).1.filter Event.isOverwriting = [] := by
  unfold convertFile
  cases fs.readText cwd file with
  | error e => rfl
  | ok text =>
      change (options.convertText file text).1.filter Event.isOverwriting = []
      unfold convertText
      cases Gherkin.parse text with
      | error e => rfl
      | ok document => exact filter_generate file document

theorem isOverwriting_note (options : BatchOptions) (file : Path) :
    (options.note file).isOverwriting = false := by
  unfold note
  split <;> rfl

theorem filter_told (fs : FileSystem) (cwd : Location) (outputs : List Path) (file : Path) :
    (options.warning outputs file ++ (options.convertFile fs cwd file).1).filter
      Event.isOverwriting = options.warning outputs file := by
  rw [List.filter_append, filter_warning, filter_convertFile, List.append_nil]

/-- A loop behind the files `before` warns of the files that it processes as if it had processed
those before them itself. -/
theorem convertAll_processes (options : BatchOptions) (fs : FileSystem) (cwd : Location)
    (before files : List Path) :
    let run := options.convertAll cwd .never fs (before.map options.target) files
    let warnings := options.overwritings before ++ run.events.filter Event.isOverwriting
    (∃ final, files.foldlM (options.process cwd) fs = .ok final ∧
      run.result = .ok ⟨(before ++ files).map options.target, false⟩ ∧
      warnings = options.overwritings (before ++ files)) ∨
    ∃ earlier file later current e, files = earlier ++ file :: later ∧
      earlier.foldlM (options.process cwd) fs = .ok current ∧
      options.process cwd current file = .error e ∧ run.result = .error e ∧
      warnings = options.overwritings (before ++ (earlier ++ [file])) := by
  induction files generalizing fs before with
  | nil => exact .inl ⟨fs, rfl, by simp [convertAll_nil], by simp [convertAll_nil]⟩
  | cons file rest ih =>
      intro run warnings
      have hrun : run = _ := options.convertAll_cons fs cwd rfl file rest
      cases hprocess : options.process cwd fs file with
      | error e =>
          rw [hprocess] at hrun
          refine .inr ⟨[], file, rest, fs, e, rfl, rfl, hprocess, ?_, ?_⟩
          · simp only [run, hrun]
          · simp only [warnings, run, hrun, filter_told]
            rw [List.nil_append, overwritings_append_singleton]
      | ok after =>
          rw [hprocess] at hrun
          have htargets : before.map options.target ++ [options.target file] =
              (before ++ [file]).map options.target := by simp
          let next :=
            options.convertAll cwd .never after ((before ++ [file]).map options.target) rest
          have hresult : run.result = next.result := by
            simp only [run, next, hrun, htargets, BatchRun.tell_result]
          have hwarnings : warnings = options.overwritings (before ++ [file]) ++
              next.events.filter Event.isOverwriting := by
            simp only [warnings, run, next, hrun, htargets, BatchRun.tell_events,
              List.filter_append, filter_warning, filter_convertFile]
            simp [isOverwriting_note, overwritings_append_singleton]
          have hsplit (others : List Path) :
              before ++ [file] ++ others = before ++ file :: others :=
            List.append_assoc before [file] others
          rcases ih after (before ++ [file]) with ⟨final, hfold, hends, htold⟩ |
            ⟨earlier, other, later, current, e, rfl, hfold, hfails, hends, htold⟩
          · refine .inl ⟨final, ?_, ?_, ?_⟩
            · rw [List.foldlM_cons, hprocess]
              exact hfold
            · rw [hresult, hends, hsplit]
            · rw [hwarnings, htold, hsplit]
          · refine .inr ⟨file :: earlier, other, later, current, e, rfl, ?_, hfails, ?_, ?_⟩
            · rw [List.foldlM_cons, hprocess]
              exact hfold
            · rw [hresult, hends]
            · rw [hwarnings, htold, hsplit]
              rfl

/-- A run warns of the files that it processes, and of no others. -/
theorem filter_events_run (options : BatchOptions) (fs : FileSystem) (cwd : Location) :
    let run := options.run fs cwd .never
    ∃ processed, options.Processed fs cwd processed run.result ∧
      run.events.filter Event.isOverwriting = options.overwritings processed := by
  intro run
  rcases options.run_eq_cases fs cwd .never with
    ⟨e, hprepare, hrun⟩ | ⟨path, e, hprepare, hsearch, hrun⟩ | ⟨files, hprepare, hsearch, hrun⟩
  · simp only [run, hrun]
    exact ⟨[], .unprepared hprepare, rfl⟩
  · simp only [run, hrun]
    exact ⟨[], .unsearched hprepare hsearch, rfl⟩
  · simp only [run, hrun]
    rcases options.convertAll_processes (options.prepare fs cwd).1 cwd [] files with
      ⟨final, hfold, hends, htold⟩ |
      ⟨earlier, file, later, current, e, rfl, hfold, hfails, hends, htold⟩
    · rw [List.map_nil] at hends
      refine ⟨files, ?_, htold⟩
      rw [BatchRun.tell_result, hends]
      exact .completed hprepare hsearch hfold
    · rw [List.map_nil] at hends
      refine ⟨earlier ++ [file], ?_, htold⟩
      rw [BatchRun.tell_result, hends]
      exact .stopped hprepare hsearch hfold hfails

/-- What a run processes are the first of the files that it finds. -/
theorem Processed.eq_nil_or_prefix (h : options.Processed fs cwd processed result) :
    processed = [] ∨ ∃ files, processed <+: files ∧
      (options.prepare fs cwd).1.findFeatures cwd options.source options.recursive = .ok files := by
  cases h with
  | unprepared hprepare => exact .inl rfl
  | unsearched hprepare hsearch => exact .inl rfl
  | completed hprepare hsearch hfiles => exact .inr ⟨_, List.prefix_refl _, hsearch⟩
  | @stopped before after file _ _ hprepare hsearch hbefore hfile =>
      refine .inr ⟨_, ?_, hsearch⟩
      exact ⟨after, by simp⟩

theorem Processed.pairwise (h : options.Processed fs cwd processed result) :
    processed.Pairwise fun file later => file.moves ≤ later.moves := by
  rcases h.eq_nil_or_prefix with rfl | ⟨files, hprefix, hsearch⟩
  · exact List.Pairwise.nil
  · exact (FileSystem.pairwise_findFeatures hsearch).sublist hprefix.sublist

theorem isOverwriting_shown {level : LogLevel} (hlevel : level.shows .warn = true) (event : Event)
    (h : event.isOverwriting = true) : level.shows event.level = true := by
  cases event <;> first | exact hlevel | contradiction

/-- A log that shows warnings tells of each file that a run processes, in order, whether its target
is that of an earlier one. So the outputs of a run that succeeds are as many as their paths and the
warnings together. -/
theorem run_warns_of_every_overwriting (options : BatchOptions) (fs : FileSystem) (cwd : Location)
    {level : LogLevel} (hlevel : level.shows .warn = true) :
    let run := options.run fs cwd .never
    let warnings := (run.events.filter (level.shows ·.level)).filter Event.isOverwriting
    (∃ processed, options.Processed fs cwd processed run.result ∧
      (processed.Pairwise fun file later => file.moves ≤ later.moves) ∧
      warnings = options.overwritings processed) ∧
    ∀ report, run.result = .ok report →
      warnings.length + report.outputs.toFinset.card = report.outputs.length := by
  intro run warnings
  obtain ⟨processed, hprocessed, htold⟩ := options.filter_events_run fs cwd
  have hshown : warnings = options.overwritings processed := by
    rw [← htold]
    simp only [warnings, List.filter_filter]
    refine List.filter_congr fun event _ => ?_
    cases hevent : event.isOverwriting with
    | false => rfl
    | true => simp [isOverwriting_shown hlevel event hevent]
  refine ⟨⟨processed, hprocessed, hprocessed.pairwise, hshown⟩, fun report hreport => ?_⟩
  change options.Processed fs cwd processed run.result at hprocessed
  rw [hreport] at hprocessed
  cases hprocessed with
  | completed hprepare hsearch hfiles =>
      rw [hshown, List.length_map]
      exact options.length_overwritings_add_card processed

/-- Three feature files of one name, `n/c.feature`, `n/v/c.feature` and `n/w/c.feature`. -/
def namesakes : FileSystem :=
  (((((FileSystem.empty.add [⟨['n'], by decide⟩] .directory).add
    [⟨['n'], by decide⟩, ⟨['v'], by decide⟩] .directory).add
    [⟨['n'], by decide⟩, ⟨['w'], by decide⟩] .directory).add
    [⟨['n'], by decide⟩, ⟨"c.feature".toList, by decide⟩]
      (.file (Text.toBytes "Feature: One\n".toList))).add
    [⟨['n'], by decide⟩, ⟨['v'], by decide⟩, ⟨"c.feature".toList, by decide⟩]
      (.file (Text.toBytes "Feature: Two\n".toList))).add
    [⟨['n'], by decide⟩, ⟨['w'], by decide⟩, ⟨"c.feature".toList, by decide⟩]
      (.file (Text.toBytes "Feature: Three\n".toList))

/-- All three have one target, so the second and the third are told of. -/
theorem run_warns_of_every_overwriting_of_namesakes :
    let options : BatchOptions :=
      { source := "n".toList, output := "o".toList, recursive := true }
    let target : Path := "o/c.feature.md".toList
    let run := options.run namesakes [] .never
    let warnings := (run.events.filter (LogLevel.shows .warn ·.level)).filter Event.isOverwriting
    LogLevel.shows .warn .warn = true ∧ run.result = .ok ⟨[target, target, target], false⟩ ∧
      warnings = [.overwriting "n/v/c.feature".toList target,
        .overwriting "n/w/c.feature".toList target] ∧
      warnings.length + [target, target, target].toFinset.card = 3 := by
  intro options target run warnings
  have hshows : LogLevel.shows .warn .warn = true := by decide
  have hresult : run.result = .ok ⟨[target, target, target], false⟩ :=
    eq_ok_of_toOption (by decide +kernel)
  obtain ⟨-, hcount⟩ := run_warns_of_every_overwriting options namesakes [] hshows
  exact ⟨hshows, hresult, by decide +kernel, hcount _ hresult⟩

end BatchOptions

end FeatureMarkdown
