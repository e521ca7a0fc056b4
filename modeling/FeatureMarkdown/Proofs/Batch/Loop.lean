import FeatureMarkdown.Proofs.Batch.Conversion
import FeatureMarkdown.Proofs.File.Frames
import FeatureMarkdown.Proofs.File.Order

namespace FeatureMarkdown

namespace BatchOptions

/-- The files can be converted one after the other, each output being written before the next file
is read. -/
inductive Converted (options : BatchOptions) (cwd : Location) :
    FileSystem → List Path → FileSystem → Prop
  | nil (fs : FileSystem) : Converted options cwd fs [] fs
  | cons {fs after final : FileSystem} {file : Path} {rest : List Path} {text output : Text}
      (hread : fs.readText cwd file = .ok text) (hconverts : options.Converts text output)
      (hwrite : fs.writeFile cwd (options.target file) output.toBytes = .ok after)
      (hrest : Converted options cwd after rest final) : Converted options cwd fs (file :: rest) final

variable {options : BatchOptions} {cwd : Location} {fs final : FileSystem} {files : List Path}

/-- A loop that succeeds has converted all files and lists their targets. -/
theorem converted_of_convertAll_ok (hdry : options.dryRun = false) {outputs : List Path}
    {report : Report}
    (h : (options.convertAll cwd .never fs outputs files).result = .ok report) :
    Converted options cwd fs files (options.convertAll cwd .never fs outputs files).files ∧
      report = ⟨outputs ++ files.map options.target, false⟩ := by
  induction files generalizing fs outputs with
  | nil =>
      rw [convertAll_nil] at h ⊢
      exact ⟨.nil fs, by simpa using (Except.ok.inj h).symm⟩
  | cons file rest ih =>
      rcases options.convertAll_cons_cases fs cwd outputs file rest with
        ⟨e, -, hresult, -⟩ | ⟨output, hconvert, ⟨hwet, -⟩ | ⟨e, -, -, hresult, -⟩ |
          ⟨after, -, hwrite, hresult, hfiles⟩⟩
      · simp [h] at hresult
      · simp [hdry] at hwet
      · simp [h] at hresult
      · rcases options.convertFile_cases fs cwd file with
          ⟨cause, -, herror⟩ | ⟨text, cause, -, -, herror⟩ | ⟨text, same, hread, hconverts, hok⟩
        · simp [hconvert] at herror
        · simp [hconvert] at herror
        · obtain rfl : output = same := Except.ok.inj (hconvert.symm.trans hok)
          obtain ⟨hrest, hreport⟩ := ih (hresult ▸ h)
          refine ⟨hfiles ▸ .cons hread hconverts hwrite hrest, ?_⟩
          simpa using hreport

variable (options) in
theorem fileName?_target {file : Path} {name : Text} (h : file.fileName? = some name) :
    (options.target file).fileName? = some (name ++ ['.'] ++ options.format.extension) :=
  fileName?_outputPath h options.output options.format

theorem fileName?_target_ne {file other : Path} (hfile : file.IsFeatureFile)
    (hother : other.IsFeatureFile) (h : options.target other ≠ options.target file) :
    (options.target other).fileName? ≠ (options.target file).fileName? := by
  obtain ⟨name, hname, -⟩ := hfile
  obtain ⟨otherName, hotherName, -⟩ := hother
  intro heq
  apply h
  rw [target, target, outputPath_eq_iff hotherName hname]
  exact (fileName?_outputPath_eq_iff hotherName hname _ _).mp heq

theorem outputsOnly_of_writeFile_target (hfs : fs.LinkFree)
    (hcwd : fs.get? cwd = some .directory) {file : Path} (hfile : file.IsFeatureFile)
    {content : Bytes} {after : FileSystem}
    (h : fs.writeFile cwd (options.target file) content = .ok after) :
    fs.OutputsOnly after := by
  obtain ⟨location, hput, hfind⟩ := FileSystem.find_of_writeFile hfs hcwd h
  obtain ⟨found, hlast, hfound⟩ := FileSystem.fileName?_of_find (hput.linkFree hfs)
    (hput.directoriesWithin _ hcwd) hfind
  obtain ⟨name, hname, -⟩ := hfile
  rw [options.fileName?_target hname] at hfound
  apply hput.outputsOnly
  rw [FileSystem.leadsToFeature_of_getLast? hlast, ← Option.some.inj hfound]
  exact isFeatureName_append_extension name options.format

namespace Converted

/-- A file stays as it is if no target has its name. -/
theorem find_other (h : Converted options cwd fs files final) (hfs : fs.LinkFree)
    (hcwd : fs.get? cwd = some .directory) {path : Path} {location : Location} {content : Bytes}
    (hfind : fs.find cwd .target path = .ok (location, .file content))
    (hfiles : ∀ file ∈ files, (options.target file).fileName? ≠ path.fileName?) :
    final.find cwd .target path = .ok (location, .file content) := by
  induction h with
  | nil fs => exact hfind
  | @cons fs after final file rest text output hread hconverts hwrite hrest ih =>
      obtain ⟨written, hput, hwritten⟩ := FileSystem.find_of_writeFile hfs hcwd hwrite
      have hafter := hput.linkFree hfs
      have hcwd' := hput.directoriesWithin _ hcwd
      have hne : location ≠ written := by
        rintro rfl
        obtain ⟨name, hlast, hname⟩ := FileSystem.fileName?_of_find hfs hcwd hfind
        obtain ⟨other, hother, hotherName⟩ := FileSystem.fileName?_of_find hafter hcwd' hwritten
        obtain rfl : name = other := Option.some.inj (hlast.symm.trans hother)
        exact hfiles file List.mem_cons_self (hotherName.trans hname.symm)
      exact ih hafter hcwd' (hput.find_other hfs hne hfind)
        fun other hother => hfiles other (List.mem_cons_of_mem _ hother)

/-- Of the files with one target the last one leaves its output there. It is converted from the
text that it had before the first file was converted. -/
theorem last_stays (h : Converted options cwd fs files final) (hfs : fs.LinkFree)
    (hcwd : fs.get? cwd = some .directory) (hfiles : ∀ file ∈ files, file.IsFeatureFile)
    {target : Path} (htarget : target ∈ files.map options.target) :
    ∃ before file after, files = before ++ file :: after ∧ options.target file = target ∧
      target ∉ after.map options.target ∧
      ∃ text output location, fs.readText cwd file = .ok text ∧ options.Converts text output ∧
        final.find cwd .target target = .ok (location, .file output.toBytes) := by
  induction h with
  | nil fs => simp at htarget
  | @cons fs after final file rest text output hread hconverts hwrite hrest ih =>
      have hfile := hfiles file List.mem_cons_self
      have hothers : ∀ other ∈ rest, other.IsFeatureFile := fun other hother =>
        hfiles other (List.mem_cons_of_mem _ hother)
      have hstep := outputsOnly_of_writeFile_target hfs hcwd hfile hwrite
      have hafter := hstep.linkFree hfs
      have hcwd' := hstep.directoriesWithin _ hcwd
      by_cases hlater : target ∈ rest.map options.target
      · -- The output of this file is overwritten, so the rest of the loop decides.
        obtain ⟨before, last, behind, hsplit, hlast, hnone, text, output, location, htext, hrest⟩ :=
          ih hafter hcwd' hothers hlater
        refine ⟨file :: before, last, behind, by rw [hsplit]; rfl, hlast, hnone, text, output,
          location, ?_, hrest⟩
        obtain ⟨place, content, hfind, hcontent⟩ := FileSystem.readText_eq_ok_iff.mp htext
        have hfeature : last.IsFeatureFile := hothers last (by rw [hsplit]; simp)
        exact FileSystem.readText_eq_ok_iff.mpr ⟨place, content,
          (hstep.find_iff hfs hcwd hfeature .target).mp hfind, hcontent⟩
      · -- No later target has the name of this one, so nothing happens to it any more.
        obtain rfl : target = options.target file := by
          simpa [hlater] using htarget
        obtain ⟨location, -, hwritten⟩ := FileSystem.find_of_writeFile hfs hcwd hwrite
        refine ⟨[], file, rest, rfl, rfl, hlater, text, output, location, hread, hconverts, ?_⟩
        refine hrest.find_other hafter hcwd' hwritten fun other hother => ?_
        refine fileName?_target_ne hfile (hothers other hother) fun heq => hlater ?_
        exact List.mem_map.mpr ⟨other, hother, heq⟩

end Converted

theorem directoriesOnly_prepare (options : BatchOptions) (fs : FileSystem) (cwd : Location) :
    fs.DirectoriesOnly (options.prepare fs cwd).1 := by
  unfold prepare
  split
  · exact .refl fs
  · exact FileSystem.directoriesOnly_createDirectories fs cwd options.output

/-- The text that the file had before the run. Its path may lead through the output directory,
which the run may have made, so the path is followed there. -/
def HasInitialText (options : BatchOptions) (fs : FileSystem) (cwd : Location) (file : Path)
    (text : Text) : Prop :=
  ∃ location content,
    (options.prepare fs cwd).1.find cwd .target file = .ok (location, .file content) ∧
      fs.get? location = some (.file content) ∧ Text.ofBytes? content = some text

theorem hasInitialText_of_readText {file : Path} {text : Text}
    (h : (options.prepare fs cwd).1.readText cwd file = .ok text) :
    options.HasInitialText fs cwd file text := by
  obtain ⟨location, content, hfind, htext⟩ := FileSystem.readText_eq_ok_iff.mp h
  refine ⟨location, content, hfind, ?_, htext⟩
  exact (directoriesOnly_prepare options fs cwd).get?_file_iff.mp
    (FileSystem.find_eq_ok_iff.mp hfind).2

/-- The last of the files with this target is converted from its initial text, and that is what
stands at the target in the end. -/
def LastConversionAt (options : BatchOptions) (fs : FileSystem) (cwd : Location)
    (final : FileSystem) (files : List Path) (target : Path) : Prop :=
  ∃ before file after, files = before ++ file :: after ∧
    outputPath options.output file options.format = target ∧
    (∀ later ∈ after, outputPath options.output later options.format ≠ target) ∧
    ∃ text output location, options.HasInitialText fs cwd file text ∧
      options.Converts text output ∧
      final.find cwd .target target = .ok (location, .file output.toBytes)

/-- A run that succeeds, in a working directory that is one, finds the files in order, lists the
targets of all of them, and leaves the last conversion at each target. The output directory may be
the source, or lie below it. -/
theorem run_leaves_last_conversions {report : Report} (hlinks : fs.LinkFree)
    (hcwd : fs.get? cwd = some .directory) (hdry : options.dryRun = false)
    (h : (options.run fs cwd .never).result = .ok report) :
    ∃ files,
      (options.prepare fs cwd).1.findFeatures cwd options.source options.recursive = .ok files ∧
      (files.Pairwise fun file later => file.moves ≤ later.moves) ∧
      report.cancelled = false ∧
      report.outputs = files.map (outputPath options.output · options.format) ∧
      ∀ target ∈ report.outputs,
        options.LastConversionAt fs cwd (options.run fs cwd .never).files files target := by
  rcases options.run_cases fs cwd .never with
    ⟨-, ⟨e, -, hresult⟩ | ⟨path, e, -, -, hresult⟩⟩ | ⟨files, -, hfound, hresult, hleft⟩
  · simp [h] at hresult
  · simp [h] at hresult
  · have hmade := directoriesOnly_prepare options fs cwd
    obtain ⟨hconverted, rfl⟩ := converted_of_convertAll_ok hdry (hresult ▸ h)
    have hordered := FileSystem.pairwise_findFeatures hfound
    refine ⟨files, hfound, hordered, rfl, rfl, fun target htarget => ?_⟩
    obtain ⟨before, file, after, hsplit, hfile, hlast, text, output, location, htext, hconverts,
      hfind⟩ := hconverted.last_stays (hmade.linkFree hlinks) (hmade.directoriesWithin _ hcwd)
        (fun file hfile => FileSystem.isFeatureFile_of_mem_findFeatures hfound hfile) htarget
    refine ⟨before, file, after, hsplit, hfile, fun later hlater heq => ?_, text, output, location,
      hasInitialText_of_readText htext, hconverts, hleft ▸ hfind⟩
    exact hlast (List.mem_map.mpr ⟨later, hlater, heq⟩)

/-- Two feature files of one name, `s/a.feature` and `s/t/a.feature`. -/
def sameNameFiles : FileSystem :=
  (((FileSystem.empty.add [⟨['s'], by decide⟩] .directory).add
    [⟨['s'], by decide⟩, ⟨['t'], by decide⟩] .directory).add
    [⟨['s'], by decide⟩, ⟨"a.feature".toList, by decide⟩]
      (.file (Text.toBytes "Feature: One\n".toList))).add
    [⟨['s'], by decide⟩, ⟨['t'], by decide⟩, ⟨"a.feature".toList, by decide⟩]
      (.file (Text.toBytes "Feature: Two\n".toList))

/-- Both files have one target, which lies among the sources. -/
theorem run_leaves_last_conversions_below_source :
    let options : BatchOptions :=
      { source := "s".toList, output := "s/t".toList, recursive := true }
    let target : Path := "s/t/a.feature.md".toList
    (options.run sameNameFiles [] .never).result = .ok ⟨[target, target], false⟩ ∧
      ∃ files, files.length = 2 ∧ options.LastConversionAt sameNameFiles []
        (options.run sameNameFiles [] .never).files files target := by
  intro options target
  have hlinks : sameNameFiles.LinkFree := by
    have hentries : sameNameFiles.entries.all fun e => e.2 matches .file _ | .directory := by
      decide +kernel
    intro location link hlink
    rcases FileSystem.get?_eq_some_iff.mp hlink with ⟨-, hroot⟩ | hmem
    · contradiction
    · simpa using List.all_eq_true.mp hentries _ hmem
  have hresult : (options.run sameNameFiles [] .never).result = .ok ⟨[target, target], false⟩ :=
    eq_ok_of_toOption (by decide +kernel)
  obtain ⟨files, -, -, -, houtputs, hlast⟩ :=
    run_leaves_last_conversions hlinks rfl rfl hresult
  refine ⟨hresult, files, ?_, hlast target List.mem_cons_self⟩
  simpa using (congrArg List.length houtputs).symm

end BatchOptions

end FeatureMarkdown
