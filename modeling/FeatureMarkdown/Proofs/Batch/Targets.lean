import FeatureMarkdown.Proofs.Batch.Overwriting
import FeatureMarkdown.Proofs.File.Search

namespace FeatureMarkdown

section Target

variable {file other : Path}

theorem moves_outputPath {name : Text} (h : file.fileName? = some name) (directory : Path)
    (format : OutputFormat) :
    (outputPath directory file format).moves =
      directory.moves ++ [name ++ ['.'] ++ format.extension] := by
  rw [outputPath, h, Option.getD_some]
  exact Path.moves_join (isName_append_extension (Path.isName_of_fileName? h) format) directory

/-- The moves tell the names apart, so it makes no difference whether paths are compared as texts or
part by part. -/
theorem moves_outputPath_eq_iff (hfile : file.IsFeatureFile) (hother : other.IsFeatureFile)
    (directory : Path) (format : OutputFormat) :
    (outputPath directory file format).moves = (outputPath directory other format).moves ↔
      file.fileName? = other.fileName? := by
  obtain ⟨name, hname, -⟩ := hfile
  obtain ⟨otherName, hotherName, -⟩ := hother
  rw [moves_outputPath hname, moves_outputPath hotherName, hname, hotherName]
  simp

/-- The target is the name of the file with the extension, in the directory, and absolute only if
the directory is. -/
structure IsNamedTarget (directory file target : Path) (format : OutputFormat) (name : Name) :
    Prop where
  fileName : file.fileName? = some name.val
  target_eq : target = directory.join (name.val ++ ['.'] ++ format.extension)
  below : directory <+: target
  isAbsolute : target.isAbsolute = directory.isAbsolute

theorem isNamedTarget_outputPath {name : Name} (h : file.fileName? = some name.val)
    (directory : Path) (format : OutputFormat) :
    IsNamedTarget directory file (outputPath directory file format) format name := by
  have htarget := isName_append_extension name.property format
  have hjoin : outputPath directory file format =
      directory.join (name.val ++ ['.'] ++ format.extension) := by
    rw [outputPath, h, Option.getD_some]
  refine ⟨h, hjoin, ?_, ?_⟩
  · obtain ⟨gap, -, happend⟩ := Path.join_eq_append htarget directory
    rw [hjoin, happend, List.append_assoc]
    exact List.prefix_append directory _
  · rw [hjoin]
    by_cases hdirectory : directory = []
    · rw [hdirectory, Path.join_nil htarget, Path.isAbsolute_of_isName htarget]
      rfl
    · exact Path.isAbsolute_join hdirectory htarget

end Target

section Search

variable {fs : FileSystem} {cwd root : Location} {path : Path} {files : List Path}

theorem nodup_fileName?_of_featuresBelow
    (h : fs.featuresBelow path root false = .ok files) : (files.map Path.fileName?).Nodup := by
  rw [FileSystem.featuresBelow_eq_ok h, List.map_map]
  refine (fs.nodup_featureWays root false).map_on fun way hway other hother heq => ?_
  have hsingle {way : List Name} (hway : way ∈ fs.featureWays root false) :
      ∃ name, way = [name] := by
    obtain ⟨hreach, -⟩ := FileSystem.mem_featureWays_iff.mp hway
    exact List.length_eq_one_iff.mp ((FileSystem.inReach_iff.mp hreach).2 rfl)
  obtain ⟨name, rfl⟩ := hsingle hway
  obtain ⟨otherName, rfl⟩ := hsingle hother
  simp only [Function.comp_apply, FileSystem.fileName?_joinWay List.getLast?_singleton,
    Option.some.injEq] at heq
  rw [Subtype.ext heq]

/-- A search that does not go down finds each name once. -/
theorem nodup_fileName?_of_findFeatures
    (h : fs.findFeatures cwd path false = .ok files) : (files.map Path.fileName?).Nodup := by
  rcases FileSystem.findFeatures_cases h with ⟨location, hbelow⟩ | ⟨rfl, -⟩ | rfl
  · exact nodup_fileName?_of_featuresBelow hbelow
  · exact List.nodup_singleton _
  · exact List.nodup_nil

theorem nodup_moves_outputPath (h : fs.findFeatures cwd path false = .ok files)
    (directory : Path) (format : OutputFormat) :
    (files.map fun file => (outputPath directory file format).moves).Nodup := by
  have hnames := nodup_fileName?_of_findFeatures h
  refine hnames.of_map.map_on fun file hfile other hother heq => ?_
  have hname := (moves_outputPath_eq_iff (FileSystem.isFeatureFile_of_mem_findFeatures h hfile)
    (FileSystem.isFeatureFile_of_mem_findFeatures h hother) directory format).mp heq
  exact List.inj_on_of_nodup_map hnames hfile hother hname

end Search

namespace BatchOptions

variable {options : BatchOptions} {fs : FileSystem} {cwd : Location}

/-- A loop over files with different targets tells of no overwriting, and its outputs differ. -/
theorem convertAll_overwrites_nothing {files : List Path}
    (h : (files.map fun file => (options.target file).moves).Nodup) (cancelled : Cancellation) :
    let run := options.convertAll cwd cancelled fs [] files
    run.events.filter Event.isOverwriting = [] ∧
      ∀ report, run.result = .ok report → (report.outputs.map Path.moves).Nodup := by
  have hnone {first : List Path} (hfirst : first <+: files) : options.overwritings first = [] := by
    rw [← Function.comp_def, ← List.map_map] at h
    exact overwritings_eq_nil_of_nodup (h.of_map.sublist (hfirst.sublist.map _))
  have hnever {first : List Path} (hfirst : first <+: files) :
      (options.convertAll cwd .never fs [] first).events.filter Event.isOverwriting = [] := by
    rcases options.convertAll_processes fs cwd [] first with
      ⟨-, -, -, htold⟩ | ⟨earlier, file, later, -, -, rfl, -, -, -, htold⟩
    · exact htold.trans (hnone hfirst)
    · refine htold.trans (hnone (List.IsPrefix.trans ⟨later, ?_⟩ hfirst))
      simp
  intro run
  rcases options.convertAll_eq_never_or_cancelled fs cwd cancelled [] files with
    hsame | ⟨before, after, rfl, -, -, hcancelled⟩
  · refine ⟨?_, fun report hreport => ?_⟩
    · simp only [run, hsame, hnever (List.prefix_refl files)]
    · simp only [run, hsame] at hreport
      rcases options.convertAll_processes fs cwd [] files with
        ⟨-, -, hends, -⟩ | ⟨_, _, _, _, e, -, -, -, hends, -⟩
      · obtain rfl := Except.ok.inj (hends.symm.trans hreport)
        rw [List.map_map]
        exact h
      · cases hends.symm.trans hreport
  · have hbefore : before <+: before ++ after := List.prefix_append before after
    refine ⟨?_, fun report hreport => ?_⟩
    · simp only [run, hcancelled, List.filter_append, hnever hbefore]
      rfl
    · simp only [run, hcancelled, Except.ok.injEq] at hreport
      rw [← hreport, List.nil_append, List.map_map]
      exact h.sublist (hbefore.sublist.map _)

/-- A run that does not go down overwrites none of its outputs, whether or not it is cancelled. -/
theorem run_overwrites_nothing (hrecursive : options.recursive = false)
    (cancelled : Cancellation) :
    let run := options.run fs cwd cancelled
    run.events.filter Event.isOverwriting = [] ∧
      ∀ report, run.result = .ok report → (report.outputs.map Path.moves).Nodup := by
  intro run
  rcases options.run_eq_cases fs cwd cancelled with
    ⟨e, -, hrun⟩ | ⟨path, e, -, -, hrun⟩ | ⟨files, -, hsearch, hrun⟩
  · simp only [run, hrun]
    exact ⟨rfl, fun report hreport => by contradiction⟩
  · simp only [run, hrun]
    exact ⟨rfl, fun report hreport => by contradiction⟩
  · simp only [run, hrun]
    rw [hrecursive] at hsearch
    exact convertAll_overwrites_nothing
      (nodup_moves_outputPath hsearch options.output options.format) cancelled

end BatchOptions

/-- Of the files that one search finds, two have one target exactly if they have one name, and the
target is that name, with the extension, in the output directory, wherever the search began. So a
run that does not go down overwrites none of its outputs. -/
theorem targets_collide_only_by_name :
    (∀ (fs : FileSystem) (cwd : Location) (root directory : Path) (recursive : Bool)
        (format : OutputFormat) (files : List Path),
      fs.findFeatures cwd root recursive = .ok files →
        let target file := outputPath directory file format
        (∀ file ∈ files, ∃ name, IsNamedTarget directory file (target file) format name) ∧
        (∀ file ∈ files, ∀ other ∈ files,
          (target file = target other ↔ file.fileName? = other.fileName?) ∧
          ((target file).moves = (target other).moves ↔ file.fileName? = other.fileName?)) ∧
        (recursive = false → (files.map fun file => (target file).moves).Nodup)) ∧
    ∀ (options : BatchOptions) (fs : FileSystem) (cwd : Location) (cancelled : Cancellation),
      options.recursive = false →
        let run := options.run fs cwd cancelled
        run.events.filter Event.isOverwriting = [] ∧
          ∀ report, run.result = .ok report → (report.outputs.map Path.moves).Nodup := by
  constructor
  · intro fs cwd root directory recursive format files hfound target
    have hfeature : ∀ file ∈ files, file.IsFeatureFile := fun file hfile =>
      FileSystem.isFeatureFile_of_mem_findFeatures hfound hfile
    refine ⟨fun file hfile => ?_, fun file hfile other hother => ⟨?_, ?_⟩, ?_⟩
    · obtain ⟨name, hname, -⟩ := (hfeature file hfile).exists_name
      exact ⟨name, isNamedTarget_outputPath hname directory format⟩
    · obtain ⟨name, hname, -⟩ := hfeature file hfile
      obtain ⟨otherName, hotherName, -⟩ := hfeature other hother
      rw [outputPath_eq_iff hname hotherName, hname, hotherName, Option.some.injEq]
    · exact moves_outputPath_eq_iff (hfeature file hfile) (hfeature other hother) directory format
    · rintro rfl
      exact nodup_moves_outputPath hfound directory format
  · intro options fs cwd cancelled hrecursive
    exact BatchOptions.run_overwrites_nothing hrecursive cancelled

/-- The feature files `h/e.feature`, `h/f.feature` and `h/i/e.feature`. -/
def twiceNamed : FileSystem :=
  ((((FileSystem.empty.add [⟨['h'], by decide⟩] .directory).add
    [⟨['h'], by decide⟩, ⟨['i'], by decide⟩] .directory).add
    [⟨['h'], by decide⟩, ⟨"e.feature".toList, by decide⟩]
      (.file (Text.toBytes "Feature: One\n".toList))).add
    [⟨['h'], by decide⟩, ⟨"f.feature".toList, by decide⟩]
      (.file (Text.toBytes "Feature: Two\n".toList))).add
    [⟨['h'], by decide⟩, ⟨['i'], by decide⟩, ⟨"e.feature".toList, by decide⟩]
      (.file (Text.toBytes "Feature: Three\n".toList))

/-- The search begins at an absolute path with a slash at its end. If it goes down, the first file
and the last have one target and the second has another; a run over the directory alone has two
outputs. -/
theorem targets_collide_only_by_name_below_slash :
    let root : Path := "/h/".toList
    let target file := outputPath "o".toList file .markdown
    let first : Path := "/h/e.feature".toList
    let second : Path := "/h/f.feature".toList
    let last : Path := "/h/i/e.feature".toList
    let options : BatchOptions := { source := root, output := "o".toList }
    twiceNamed.findFeatures [] root true = .ok [first, second, last] ∧
      (∃ name, IsNamedTarget "o".toList last (target last) .markdown name) ∧
      target first = target last ∧ target first ≠ target second ∧
      (options.run twiceNamed [] .never).result = .ok ⟨[target first, target second], false⟩ ∧
      (options.run twiceNamed [] .never).events.filter Event.isOverwriting = [] ∧
      ([target first, target second].map Path.moves).Nodup := by
  intro root target first second last options
  have hfound : twiceNamed.findFeatures [] root true = .ok [first, second, last] := by
    decide +kernel
  have hresult : (options.run twiceNamed [] .never).result =
      .ok ⟨[target first, target second], false⟩ :=
    eq_ok_of_toOption (by decide +kernel)
  obtain ⟨hsearch, hrun⟩ := targets_collide_only_by_name
  obtain ⟨hnamed, hcollide, -⟩ := hsearch twiceNamed [] root "o".toList true .markdown _ hfound
  obtain ⟨htold, houtputs⟩ := hrun options twiceNamed [] .never rfl
  have hsame : target first = target last :=
    (hcollide first (by simp) last (by simp)).1.mpr (by decide +kernel)
  have hdiffer : target first ≠ target second := fun heq =>
    absurd ((hcollide first (by simp) second (by simp)).1.mp heq) (by decide +kernel)
  exact ⟨hfound, hnamed last (by simp), hsame, hdiffer, hresult, htold, houtputs _ hresult⟩

end FeatureMarkdown
