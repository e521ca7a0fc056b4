import FeatureMarkdown.Proofs.Batch.Loop
import FeatureMarkdown.Proofs.File.Writing

/-!
How the loop of a run that writes ends. The first file that cannot be converted ends it; the files
before that one, or else all files, have been converted and written in order, and nothing else has
been done.
-/

namespace FeatureMarkdown

namespace BatchOptions

/-- Why a file cannot be converted, judged by the file system before the first conversion. -/
inductive Fault (options : BatchOptions) (fs : FileSystem) (cwd : Location) (file : Path) :
    BatchError → Prop
  | unreadable {cause : FileError} (hread : fs.readText cwd file = .error cause) :
      Fault options fs cwd file (.read file cause)
  | malformed {text : Text} {cause : Gherkin.SyntaxError}
      (hread : fs.readText cwd file = .ok text) (hparse : Gherkin.parse text = .error cause) :
      Fault options fs cwd file (.parse file (.malformed cause))
  | occupied {text : Text} {document : Document} {location : Location}
      (hread : fs.readText cwd file = .ok text) (hparse : Gherkin.parse text = .ok document)
      (hdirectory : fs.find cwd .target (options.target file) = .ok (location, .directory)) :
      Fault options fs cwd file (.write (options.target file) .isDirectory)
  | tooLong {text name : Text} {document : Document}
      (hread : fs.readText cwd file = .ok text) (hparse : Gherkin.parse text = .ok document)
      (hname : (options.target file).fileName? = some name)
      (hlong : FileSystem.pathLimit < (options.target file).byteCount ∨
        FileSystem.nameLimit < name.byteCount) :
      Fault options fs cwd file (.write (options.target file) .nameTooLong)

/-- The targets of the files, each with what its file is converted to as it stands. -/
def Conversions (options : BatchOptions) (fs : FileSystem) (cwd : Location) :
    List Path → List (Path × Text) → Prop :=
  List.Forall₂ fun file output => output.1 = options.target file ∧
    ∃ text, fs.readText cwd file = .ok text ∧ options.Converts text output.2

def outputName (options : BatchOptions) (name : Name) : Name :=
  ⟨name.val ++ ['.'] ++ options.format.extension,
    isName_append_extension name.property options.format⟩

/-- What the loop relies on: the output directory is there, and the files are read in the same way
as long as all directories and feature files stay. -/
structure Ready (options : BatchOptions) (fs : FileSystem) (cwd root : Location)
    (files : List Path) : Prop where
  linkFree : fs.LinkFree
  cwd_directory : fs.get? cwd = some .directory
  opens : fs.Opens cwd options.output root
  isFeatureFile : ∀ file ∈ files, file.IsFeatureFile
  readText_eq : ∀ file ∈ files, ∀ after, fs.Keeps after → after.LinkFree →
    after.readText cwd file = fs.readText cwd file

variable {options : BatchOptions} {fs after : FileSystem} {cwd root : Location} {file : Path}
  {files rest : List Path} {e : BatchError} {text : Text}

theorem target_eq_join {name : Name} (h : file.fileName? = some name.val) :
    options.target file = options.output.join (options.outputName name).val := by
  rw [target, outputPath, h]
  rfl

theorem nul_notMem_outputName {name : Name} (hname : file.fileName? = some name.val)
    (hread : fs.readText cwd file = .ok text) : '\x00' ∉ (options.outputName name).val := by
  obtain ⟨location, content, hfind, -⟩ := FileSystem.readText_eq_ok_iff.mp hread
  have hpath := (FileSystem.locate_eq_ok_iff.mp (FileSystem.find_eq_ok_iff.mp hfind).1).2.1
  have hstem : '\x00' ∉ name.val := fun hmem => hpath (Path.mem_of_fileName? hname hmem)
  have hextension : '\x00' ∉ options.format.extension := by
    cases options.format <;> decide
  simp [outputName, hstem, hextension]

namespace Ready

theorem subset (h : options.Ready fs cwd root files) (hsubset : rest ⊆ files) :
    options.Ready fs cwd root rest where
  linkFree := h.linkFree
  cwd_directory := h.cwd_directory
  opens := h.opens
  isFeatureFile := fun file hfile => h.isFeatureFile file (hsubset hfile)
  readText_eq := fun file hfile => h.readText_eq file (hsubset hfile)

theorem mono (h : options.Ready fs cwd root files) (houtputs : fs.OutputsOnly after) :
    options.Ready after cwd root files where
  linkFree := houtputs.linkFree h.linkFree
  cwd_directory := houtputs.directoriesWithin _ h.cwd_directory
  opens := h.opens.mono h.linkFree (houtputs.linkFree h.linkFree) houtputs.directoriesWithin
  isFeatureFile := h.isFeatureFile
  readText_eq := by
    intro file hfile later hkeeps hlater
    have hfirst := h.readText_eq file hfile after houtputs.keeps (houtputs.linkFree h.linkFree)
    exact (h.readText_eq file hfile later (houtputs.keeps.trans hkeeps) hlater).trans hfirst.symm

theorem readText_of_outputsOnly (h : options.Ready fs cwd root files) (hfile : file ∈ files)
    (houtputs : fs.OutputsOnly after) : after.readText cwd file = fs.readText cwd file :=
  h.readText_eq file hfile after houtputs.keeps (houtputs.linkFree h.linkFree)

end Ready

/-- Outputs of other files neither make nor mend a fault. -/
theorem fault_iff_of_outputsOnly (h : options.Ready fs cwd root files) (hfile : file ∈ files)
    (houtputs : fs.OutputsOnly after) :
    options.Fault after cwd file e ↔ options.Fault fs cwd file e := by
  have hread := h.readText_of_outputsOnly hfile houtputs
  have hlinks := h.linkFree
  have hlinks' := houtputs.linkFree hlinks
  constructor
  · rintro (hfailed | ⟨htext, hparse⟩ | ⟨htext, hparse, hdirectory⟩ | ⟨htext, hparse, hname, hlong⟩)
    · exact .unreadable (hread ▸ hfailed)
    · exact .malformed (hread ▸ htext) hparse
    · exact .occupied (hread ▸ htext) hparse
        (FileSystem.find_directory_mono hlinks' hlinks houtputs.directoriesWithin_symm hdirectory)
    · exact .tooLong (hread ▸ htext) hparse hname hlong
  · rintro (hfailed | ⟨htext, hparse⟩ | ⟨htext, hparse, hdirectory⟩ | ⟨htext, hparse, hname, hlong⟩)
    · exact .unreadable (hread ▸ hfailed)
    · exact .malformed (hread ▸ htext) hparse
    · exact .occupied (hread ▸ htext) hparse
        (FileSystem.find_directory_mono hlinks hlinks' houtputs.directoriesWithin hdirectory)
    · exact .tooLong (hread ▸ htext) hparse hname hlong

theorem conversions_of_outputsOnly {outputs : List (Path × Text)}
    (h : options.Ready fs cwd root files) (houtputs : fs.OutputsOnly after)
    (hconversions : options.Conversions after cwd files outputs) :
    options.Conversions fs cwd files outputs := by
  induction hconversions with
  | nil => exact .nil
  | cons houtput _ ih =>
      obtain ⟨htarget, text, hread, hconverts⟩ := houtput
      rw [h.readText_of_outputsOnly List.mem_cons_self houtputs] at hread
      exact .cons ⟨htarget, text, hread, hconverts⟩ (ih (h.subset (List.subset_cons_self _ _)))

/-- The text of a file that is read and parsed has a fault if and only if its output cannot be
written, whatever the output is. -/
theorem fault_iff_writeFile_eq_error (h : options.Ready fs cwd root (file :: rest))
    {document : Document} (hread : fs.readText cwd file = .ok text)
    (hparse : Gherkin.parse text = .ok document) (content : Bytes) :
    options.Fault fs cwd file e ↔
      ∃ cause, fs.writeFile cwd (options.target file) content = .error cause ∧
        e = .write (options.target file) cause := by
  obtain ⟨name, hname, -⟩ := (h.isFeatureFile file List.mem_cons_self).exists_name
  have htarget : options.target file = options.output.join (options.outputName name).val :=
    target_eq_join hname
  have hnul : '\x00' ∉ (options.outputName name).val := nul_notMem_outputName hname hread
  have htargetName : (options.target file).fileName? = some (options.outputName name).val := by
    rw [htarget]
    exact Path.fileName?_join (options.outputName name).property options.output
  have hwrite (cause : FileError) :
      fs.writeFile cwd (options.target file) content = .error cause ↔ _ :=
    htarget ▸ h.opens.writeFile_eq_error_iff h.linkFree h.cwd_directory hnul
  constructor
  · rintro (hfailed | ⟨htext, hfailed⟩ | ⟨htext, -, hdirectory⟩ | ⟨htext, -, hlast, hlong⟩)
    · simp [hread] at hfailed
    · obtain rfl := Except.ok.inj (hread.symm.trans htext)
      simp [hparse] at hfailed
    · exact ⟨.isDirectory, (hwrite _).mpr (.inr ⟨⟨_, hdirectory⟩, rfl⟩), rfl⟩
    · obtain rfl := Option.some.inj (htargetName.symm.trans hlast)
      exact ⟨.nameTooLong, (hwrite _).mpr (.inl ⟨hlong, rfl⟩), rfl⟩
  · rintro ⟨cause, hfailed, rfl⟩
    rcases (hwrite cause).mp hfailed with ⟨hlong, rfl⟩ | ⟨⟨location, hdirectory⟩, rfl⟩
    · exact .tooLong hread hparse htargetName hlong
    · exact .occupied hread hparse hdirectory

theorem fault_of_convertFile (h : (options.convertFile fs cwd file).2 = .error e) :
    options.Fault fs cwd file e := by
  rcases options.convertFile_cases fs cwd file with
    ⟨cause, hread, hfailed⟩ | ⟨text, cause, hread, hparse, hfailed⟩ | ⟨text, output, -, -, hok⟩
  · obtain rfl := Except.error.inj (h.symm.trans hfailed)
    exact .unreadable hread
  · obtain rfl := Except.error.inj (h.symm.trans hfailed)
    exact .malformed hread hparse
  · simp [h] at hok

theorem converts_of_convertFile {output : Text}
    (h : (options.convertFile fs cwd file).2 = .ok output) :
    ∃ text, fs.readText cwd file = .ok text ∧ options.Converts text output := by
  rcases options.convertFile_cases fs cwd file with
    ⟨cause, -, hfailed⟩ | ⟨text, cause, -, -, hfailed⟩ | ⟨text, same, hread, hconverts, hok⟩
  · simp [h] at hfailed
  · simp [h] at hfailed
  · obtain rfl := Except.ok.inj (h.symm.trans hok)
    exact ⟨text, hread, hconverts⟩

/-- One round of the loop: the file has a fault, which ends the run and leaves the files alone, or
it has none, and the loop goes on with its output written. -/
theorem convertAll_cons_of_ready (h : options.Ready fs cwd root (file :: rest))
    (hdry : options.dryRun = false) (outputs : List Path) :
    let run := options.convertAll cwd .never fs outputs (file :: rest)
    (∃ e, options.Fault fs cwd file e ∧ run.result = .error e ∧ run.files = fs) ∨
    ((∀ e, ¬ options.Fault fs cwd file e) ∧ ∃ text output after,
      fs.readText cwd file = .ok text ∧ options.Converts text output ∧
      fs.writeFile cwd (options.target file) output.toBytes = .ok after ∧
      let next := options.convertAll cwd .never after (outputs ++ [options.target file]) rest
      run.result = next.result ∧ run.files = next.files) := by
  intro run
  rcases options.convertAll_cons_cases fs cwd outputs file rest with
    ⟨e, hfailed, hresult, hfiles⟩ | ⟨output, hconverted, hgoes⟩
  · exact .inl ⟨e, fault_of_convertFile hfailed, hresult, hfiles⟩
  · obtain ⟨text, hread, hconverts⟩ := converts_of_convertFile hconverted
    obtain ⟨document, hparse, -⟩ := id hconverts
    have hfault (e : BatchError) :=
      fault_iff_writeFile_eq_error (e := e) h hread hparse output.toBytes
    rcases hgoes with ⟨hwet, -⟩ | ⟨cause, -, hwrite, hresult, hfiles⟩ |
      ⟨after, -, hwrite, hresult, hfiles⟩
    · simp [hdry] at hwet
    · exact .inl ⟨_, (hfault _).mpr ⟨cause, hwrite, rfl⟩, hresult, hfiles⟩
    · refine .inr ⟨fun e he => ?_, text, output, after, hread, hconverts, hwrite, hresult, hfiles⟩
      obtain ⟨cause, hfailed, -⟩ := (hfault e).mp he
      simp [hwrite] at hfailed

/-- A file without a fault may be put before others that have none when its output is there. -/
theorem sound_cons (h : options.Ready fs cwd root rest) (houtputs : fs.OutputsOnly after)
    {others : List Path} (hothers : others ⊆ rest) (hsound : ∀ e, ¬ options.Fault fs cwd file e)
    (hlater : ∀ other ∈ others, ∀ e, ¬ options.Fault after cwd other e) :
    ∀ other ∈ file :: others, ∀ e, ¬ options.Fault fs cwd other e := by
  intro other hother e hfault
  rcases List.mem_cons.mp hother with rfl | hother
  · exact hsound e hfault
  · exact hlater other hother e
      ((fault_iff_of_outputsOnly h (hothers hother) houtputs).mpr hfault)

/-- A conversion that is written comes before those that are written after it. -/
theorem conversions_cons (h : options.Ready fs cwd root rest) (houtputs : fs.OutputsOnly after)
    {others : List Path} {converted : List (Path × Text)} {output : Text} {final : FileSystem}
    (hothers : others ⊆ rest) (hread : fs.readText cwd file = .ok text)
    (hconverts : options.Converts text output)
    (hwrite : fs.writeFile cwd (options.target file) output.toBytes = .ok after)
    (hconversions : options.Conversions after cwd others converted)
    (hwritten : after.writeAll cwd converted = .ok final) :
    options.Conversions fs cwd (file :: others) ((options.target file, output) :: converted) ∧
      fs.writeAll cwd ((options.target file, output) :: converted) = .ok final :=
  ⟨.cons ⟨rfl, text, hread, hconverts⟩
      (conversions_of_outputsOnly (h.subset hothers) houtputs hconversions),
    FileSystem.writeAll_cons_eq_ok_iff.mpr ⟨after, hwrite, hwritten⟩⟩

/-- The loop converts and writes all files, or those before the first one with a fault. -/
theorem convertAll_of_ready (h : options.Ready fs cwd root files)
    (hdry : options.dryRun = false) (outputs : List Path) :
    let run := options.convertAll cwd .never fs outputs files
    (∃ converted, options.Conversions fs cwd files converted ∧
      fs.writeAll cwd converted = .ok run.files ∧
      (∀ file ∈ files, ∀ e, ¬ options.Fault fs cwd file e) ∧
      run.result = .ok ⟨outputs ++ files.map options.target, false⟩) ∨
    ∃ before file after e converted, files = before ++ file :: after ∧
      (∀ earlier ∈ before, ∀ e, ¬ options.Fault fs cwd earlier e) ∧
      options.Fault fs cwd file e ∧ run.result = .error e ∧
      options.Conversions fs cwd before converted ∧
      fs.writeAll cwd converted = .ok run.files := by
  intro run
  induction files generalizing fs outputs with
  | nil =>
      left
      refine ⟨[], .nil, rfl, by simp, ?_⟩
      simp [run, convertAll_nil]
  | cons file rest ih =>
      rcases convertAll_cons_of_ready h hdry outputs with
        ⟨e, hfault, hresult, hfiles⟩ |
          ⟨hsound, text, output, after, hread, hconverts, hwrite, hresult, hfiles⟩
      · exact .inr ⟨[], file, rest, e, [], rfl, by simp, hfault, hresult, .nil,
          congrArg Except.ok hfiles.symm⟩
      · have houtputs := outputsOnly_of_writeFile_target h.linkFree h.cwd_directory
          (h.isFeatureFile file List.mem_cons_self) hwrite
        have hrest := h.subset (List.subset_cons_self file rest)
        rcases ih (hrest.mono houtputs) (outputs ++ [options.target file]) with
          ⟨converted, hconversions, hwritten, hlater, hok⟩ |
            ⟨before, failing, behind, e, converted, rfl, hlater, hfault, herror, hconversions,
              hwritten⟩
        · have hself : rest ⊆ rest := List.Subset.refl rest
          obtain ⟨hall, hwrittenAll⟩ :=
            conversions_cons hrest houtputs hself hread hconverts hwrite hconversions hwritten
          refine .inl ⟨_, hall, hfiles ▸ hwrittenAll, sound_cons hrest houtputs hself hsound hlater,
            ?_⟩
          rw [hresult, hok]
          simp
        · have hbefore : before ⊆ before ++ failing :: behind := List.subset_append_left _ _
          have hfailing : failing ∈ before ++ failing :: behind := by simp
          obtain ⟨hall, hwrittenAll⟩ :=
            conversions_cons hrest houtputs hbefore hread hconverts hwrite hconversions hwritten
          exact .inr ⟨file :: before, failing, behind, e, _, rfl,
            sound_cons hrest houtputs hbefore hsound hlater,
            (fault_iff_of_outputsOnly hrest hfailing houtputs).mp hfault,
            hresult.trans herror, hall, hfiles ▸ hwrittenAll⟩

theorem run_of_findFeatures (hmade : (options.prepare fs cwd).2 = none)
    (hfound : (options.prepare fs cwd).1.findFeatures cwd options.source options.recursive =
      .ok files) (cancelled : Cancellation) :
    let loop := options.convertAll cwd cancelled (options.prepare fs cwd).1 [] files
    (options.run fs cwd cancelled).result = loop.result ∧
      (options.run fs cwd cancelled).files = loop.files := by
  intro loop
  rcases options.run_cases fs cwd cancelled with
    ⟨-, ⟨e, hfailed, -⟩ | ⟨path, e, -, hfailed, -⟩⟩ | ⟨others, -, hothers, hresult, hfiles⟩
  · simp [hmade] at hfailed
  · simp [hfound] at hfailed
  · obtain rfl := Except.ok.inj (hfound.symm.trans hothers)
    exact ⟨hresult, hfiles⟩

theorem ready_of_findFeatures (hlinks : fs.LinkFree) (hcwd : fs.get? cwd = some .directory)
    (hdry : options.dryRun = false) (hmade : (options.prepare fs cwd).2 = none)
    (hfound : (options.prepare fs cwd).1.findFeatures cwd options.source options.recursive =
      .ok files) :
    ∃ root, options.Ready (options.prepare fs cwd).1 cwd root files := by
  have hdirectories := directoriesOnly_prepare options fs cwd
  have hlinks' := hdirectories.linkFree hlinks
  have hcwd' := hdirectories.directoriesWithin _ hcwd
  have hprepare : options.prepare fs cwd = fs.createDirectories cwd options.output := by
    simp [prepare, hdry]
  obtain ⟨root, hopens⟩ :=
    FileSystem.opens_of_createDirectories hlinks hcwd (hprepare ▸ hmade)
  refine ⟨root, hlinks', hcwd', hprepare ▸ hopens, ?_, ?_⟩
  · exact fun file hfile => FileSystem.isFeatureFile_of_mem_findFeatures hfound hfile
  · intro file hfile after hkept hafter
    exact hkept.readText_of_mem_findFeatures hlinks' hafter hcwd' hfound hfile

/-- A run that writes and has come to its loop fails if and only if one of its files has a fault.
Then it ends with the fault of the first one that has any, and it leaves the output directory with
the conversions of the files before that one, written in order, and nothing else. -/
theorem run_stops_at_first_fault (hlinks : fs.LinkFree) (hcwd : fs.get? cwd = some .directory)
    (hdry : options.dryRun = false) (hmade : (options.prepare fs cwd).2 = none)
    (hfound : (options.prepare fs cwd).1.findFeatures cwd options.source options.recursive =
      .ok files) :
    let made := (options.prepare fs cwd).1
    let run := options.run fs cwd .never
    (files.Pairwise fun file later => file.moves ≤ later.moves) ∧
    ((∃ e, run.result = .error e) ↔ ∃ file ∈ files, ∃ e, options.Fault made cwd file e) ∧
    ∀ e, run.result = .error e → ∃ before file after converted,
      files = before ++ file :: after ∧
      (∀ earlier ∈ before, ∀ cause, ¬ options.Fault made cwd earlier cause) ∧
      options.Fault made cwd file e ∧
      options.Conversions made cwd before converted ∧
      made.writeAll cwd converted = .ok run.files := by
  intro made run
  obtain ⟨root, hready⟩ := ready_of_findFeatures hlinks hcwd hdry hmade hfound
  obtain ⟨hresult, hfiles⟩ := run_of_findFeatures hmade hfound .never
  refine ⟨FileSystem.pairwise_findFeatures hfound, ?_⟩
  rw [hresult, hfiles]
  rcases convertAll_of_ready hready hdry [] with
    ⟨converted, -, -, hsound, hok⟩ |
      ⟨before, file, after, e, converted, hsplit, hbefore, hfault, herror, hconversions, hwritten⟩
  · rw [hok]
    refine ⟨⟨fun ⟨e, h⟩ => by contradiction, ?_⟩, fun e h => by contradiction⟩
    rintro ⟨file, hfile, e, hfault⟩
    exact absurd hfault (hsound file hfile e)
  · have hfile : file ∈ files := by simp [hsplit]
    refine ⟨⟨fun _ => ⟨file, hfile, e, hfault⟩, fun _ => ⟨e, herror⟩⟩, fun e' he' => ?_⟩
    obtain rfl := Except.error.inj (herror.symm.trans he')
    exact ⟨before, file, after, converted, hsplit, hbefore, hfault, hconversions, hwritten⟩

/-- Two files of one name, of which the second has a content that is no feature. -/
def soundAndMalformed : FileSystem :=
  (sameNameFiles.writeFile [] "s/t/a.feature".toList
    (Text.toBytes "Two\n".toList)).toOption.getD sameNameFiles

/-- The target of the second file, which fails, is the one of the first file, whose output stays. -/
theorem run_stops_at_first_fault_behind_output :
    let options : BatchOptions :=
      { source := "s".toList, output := "s/t".toList, recursive := true }
    let made := (options.prepare soundAndMalformed []).1
    let run := options.run soundAndMalformed [] .never
    ∃ cause converted, run.result = .error (.parse "s/t/a.feature".toList (.malformed cause)) ∧
      options.Conversions made [] ["s/a.feature".toList] converted ∧
      made.writeAll [] converted = .ok run.files := by
  intro options made run
  have hlinks : soundAndMalformed.LinkFree := FileSystem.linkFree_of_all (by decide +kernel)
  have hmade : (options.prepare soundAndMalformed []).2 = none := by decide +kernel
  have hfound : (options.prepare soundAndMalformed []).1.findFeatures [] options.source
      options.recursive = .ok ["s/a.feature".toList, "s/t/a.feature".toList] :=
    eq_ok_of_toOption (by decide +kernel)
  obtain ⟨cause, hresult⟩ : ∃ cause, run.result =
      .error (.parse "s/t/a.feature".toList (.malformed cause)) := by
    have hmatches : (match run.result with
        | .error (.parse path (.malformed _)) => path == "s/t/a.feature".toList
        | _ => false) = true := by decide +kernel
    split at hmatches
    next path cause heq => exact ⟨cause, by rw [heq, beq_iff_eq.mp hmatches]⟩
    next => contradiction
  obtain ⟨-, -, hfirst⟩ := run_stops_at_first_fault hlinks rfl rfl hmade hfound
  obtain ⟨before, file, after, converted, hsplit, -, hfault, hconversions, hwritten⟩ :=
    hfirst _ hresult
  obtain rfl : file = "s/t/a.feature".toList := by
    cases hfault
    rfl
  have hbefore : before = ["s/a.feature".toList] := by
    rcases before with _ | ⟨first, _ | ⟨second, others⟩⟩
    · simp at hsplit
    · simp at hsplit
      simp [hsplit.1]
    · simp at hsplit
  exact ⟨cause, converted, hresult, hbefore ▸ hconversions, hwritten⟩

/-- A feature file whose name is as long as a name may be. -/
def longestName : Name :=
  ⟨List.replicate 247 'a' ++ ".feature".toList, by decide⟩

/-- The file can be read and parsed, and no directory stands at its target, but the name of the
target is too long. -/
theorem run_fails_on_longest_name :
    let fs := FileSystem.empty.add [longestName] (.file (Text.toBytes "Feature: F\n".toList))
    let options := BatchOptions.new ".".toList
    let made := (options.prepare fs []).1
    fs.LinkFree ∧ fs.get? [] = some .directory ∧ (options.prepare fs []).2 = none ∧
      ∃ files, made.findFeatures [] options.source options.recursive = .ok files ∧
        (∃ target, (options.run fs [] .never).result = .error (.write target .nameTooLong)) ∧
        ∀ file ∈ files,
          (∃ text, made.readText [] file = .ok text ∧
            ∃ document, Gherkin.parse text = .ok document) ∧
          ∀ location, made.find [] .target (options.target file) ≠ .ok (location, .directory) := by
  intro fs options made
  have hlinks : fs.LinkFree := FileSystem.linkFree_of_all (by decide +kernel)
  have hfound : made.findFeatures [] options.source options.recursive =
      .ok ["./".toList ++ longestName.val] := eq_ok_of_toOption (by decide +kernel)
  refine ⟨hlinks, rfl, by decide +kernel, _, hfound, ?_, fun file hfile => ?_⟩
  · have hmatches : ((options.run fs [] .never).result matches
        .error (.write _ .nameTooLong)) = true := by decide +kernel
    generalize (options.run fs [] .never).result = outcome at hmatches ⊢
    split at hmatches
    next target => exact ⟨target, rfl⟩
    next => contradiction
  · obtain rfl := List.mem_singleton.mp hfile
    have hread : made.readText [] ("./".toList ++ longestName.val) = .ok "Feature: F\n".toList :=
      eq_ok_of_toOption (by decide +kernel)
    have hparse : (Gherkin.parse "Feature: F\n".toList).toOption.isSome = true := by
      decide +kernel
    obtain ⟨document, hdocument⟩ := Option.isSome_iff_exists.mp hparse
    refine ⟨⟨_, hread, document, eq_ok_of_toOption hdocument⟩, fun location hfind => ?_⟩
    have hnone : (made.find [] .target
        (options.target ("./".toList ++ longestName.val))).toOption = none := by decide +kernel
    have hsome := congrArg Except.toOption hfind
    rw [hnone] at hsome
    cases hsome

end BatchOptions

end FeatureMarkdown
