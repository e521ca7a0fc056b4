import FeatureMarkdown.Proofs.Batch.FirstFault

/-!
What a run touches, however it ends: the output directory with those above it, which it makes, and
the outputs directly in it. No output has the name of a feature file, so the sources stay as they
are, also if the outputs go among them.
-/

namespace FeatureMarkdown

namespace BatchOptions

/-- The places of outputs: directly in a directory, and named after the files. -/
def OutputPlace (options : BatchOptions) (root : Location) (files : List Path)
    (location : Location) : Prop :=
  ∃ file ∈ files, ∃ name : Name, file.fileName? = some name.val ∧
    location = root ++ [options.outputName name]

/-- What may be different after a run. -/
structure TouchesOnlyOutputs (options : BatchOptions) (fs : FileSystem) (cwd : Location)
    (after : FileSystem) : Prop where
  /-- Nothing is removed, and only the content of a file changes. -/
  kept : ∀ location entry, fs.get? location = some entry → after.get? location = some entry ∨
    ∃ old new, entry = .file old ∧ after.get? location = some (.file new)
  /-- A new or changed file stands directly in the output directory and is named after a file that
  the search has found. -/
  written : ∀ location content, after.get? location = some (.file content) →
    fs.get? location ≠ some (.file content) → ∃ root files,
      after.Opens cwd options.output root ∧
      (options.prepare fs cwd).1.findFeatures cwd options.source options.recursive = .ok files ∧
      options.OutputPlace root files location
  /-- A new directory is the output directory or stands above it. -/
  made : ∀ location, after.get? location = some .directory →
    fs.get? location ≠ some .directory → ∃ path ∈ options.output.withAncestors,
      after.find cwd .target path = .ok (location, .directory)
  linkFree : after.LinkFree
  feature_kept : ∀ location name content, location.getLast? = some name →
    ".feature".toList <:+ name.val → fs.get? location = some (.file content) →
      after.get? location = some (.file content)

variable {options : BatchOptions} {fs after : FileSystem} {cwd root : Location}
  {files : List Path} {cancelled : Cancellation}

/-- Whatever a token does to a loop, it leaves what the loop over the first of the files leaves. -/
theorem convertAll_files_of_prefix (options : BatchOptions) (fs : FileSystem) (cwd : Location)
    (cancelled : Cancellation) (outputs files : List Path) :
    ∃ before, before <+: files ∧ (options.convertAll cwd cancelled fs outputs files).files =
      (options.convertAll cwd .never fs outputs before).files := by
  rcases options.convertAll_eq_never_or_cancelled fs cwd cancelled outputs files with
    hsame | ⟨before, after, rfl, -, -, hcancelled⟩
  · exact ⟨files, List.prefix_refl files, congrArg BatchRun.files hsame⟩
  · exact ⟨before, List.prefix_append before after, by rw [hcancelled]⟩

theorem convertAll_files_of_dryRun (hdry : options.dryRun = true) (outputs : List Path) :
    (options.convertAll cwd cancelled fs outputs files).files = fs := by
  obtain ⟨before, -, hfiles⟩ := options.convertAll_files_of_prefix fs cwd cancelled outputs files
  rw [hfiles]
  clear hfiles
  induction before generalizing outputs with
  | nil => rfl
  | cons file rest ih =>
      rcases options.convertAll_cons_cases fs cwd outputs file rest with
        ⟨_, -, -, hfiles⟩ | ⟨_, -, ⟨-, -, hfiles⟩ | ⟨_, hwet, -⟩ | ⟨_, hwet, -⟩⟩
      · exact hfiles
      · exact hfiles.trans (ih _)
      · simp [hdry] at hwet
      · simp [hdry] at hwet

theorem convertAll_files_of_cancelled {outputs : List Path}
    (h : cancelled outputs.length = true) :
    (options.convertAll cwd cancelled fs outputs files).files = fs := by
  cases files with
  | nil => rfl
  | cons file rest => rw [options.convertAll_cancelled fs cwd h]

theorem outputPlace_of_mem_conversions {converted : List (Path × Text)} {output : Path × Text}
    (h : options.Conversions fs cwd files converted) (hfiles : ∀ file ∈ files, file.IsFeatureFile)
    (houtput : output ∈ converted) :
    ∃ name : Name, output.1 = options.output.join name.val ∧
      options.OutputPlace root files (root ++ [name]) := by
  induction h with
  | nil => simp at houtput
  | cons hfirst _ ih =>
      rcases List.mem_cons.mp houtput with rfl | houtput
      · obtain ⟨name, hname, -⟩ := (hfiles _ List.mem_cons_self).exists_name
        exact ⟨options.outputName name, hfirst.1.trans (target_eq_join hname), _,
          List.mem_cons_self, name, hname, rfl⟩
      · obtain ⟨name, hjoin, file, hfile, hplace⟩ :=
          ih (fun file hfile => hfiles file (List.mem_cons_of_mem _ hfile)) houtput
        exact ⟨name, hjoin, file, List.mem_cons_of_mem _ hfile, hplace⟩

theorem filesOnlyAt_convertAll (h : options.Ready fs cwd root files)
    (hdry : options.dryRun = false) (outputs : List Path) :
    fs.FilesOnlyAt (options.convertAll cwd cancelled fs outputs files).files
      (options.OutputPlace root files) := by
  have hprefix {before : List Path} (hbefore : before ⊆ files) {converted : List (Path × Text)}
      (hconversions : options.Conversions fs cwd before converted) {final : FileSystem}
      (hwritten : fs.writeAll cwd converted = .ok final) :
      fs.FilesOnlyAt final (options.OutputPlace root files) := by
    refine FileSystem.filesOnlyAt_writeAll h.linkFree h.cwd_directory h.opens ?_ hwritten
    intro output houtput
    obtain ⟨name, hjoin, file, hfile, hplace⟩ := outputPlace_of_mem_conversions hconversions
      (fun file hfile => h.isFeatureFile file (hbefore hfile)) houtput
    exact ⟨name, hjoin, file, hbefore hfile, hplace⟩
  obtain ⟨taken, htaken, hfiles⟩ :=
    options.convertAll_files_of_prefix fs cwd cancelled outputs files
  rw [hfiles]
  rcases convertAll_of_ready (h.subset htaken.subset) hdry outputs with
    ⟨converted, hconversions, hwritten, -⟩ |
      ⟨before, file, after, e, converted, rfl, -, -, -, hconversions, hwritten⟩
  · exact hprefix htaken.subset hconversions hwritten
  · have hbefore : before ⊆ files :=
      List.Subset.trans (List.subset_append_left before _) htaken.subset
    exact hprefix hbefore hconversions hwritten

theorem run_files_of_dryRun (hdry : options.dryRun = true) :
    (options.run fs cwd cancelled).files = fs := by
  have hprepare : options.prepare fs cwd = (fs, none) := by simp [prepare, hdry]
  rcases options.run_cases fs cwd cancelled with ⟨hfiles, -⟩ | ⟨files, -, -, -, hfiles⟩
  · rw [hfiles, hprepare]
  · rw [hfiles, convertAll_files_of_dryRun hdry, hprepare]

theorem run_files_of_cancelled (h : cancelled 0 = true) :
    (options.run fs cwd cancelled).files = (options.prepare fs cwd).1 := by
  rcases options.run_cases fs cwd cancelled with ⟨hfiles, -⟩ | ⟨files, -, -, -, hfiles⟩
  · exact hfiles
  · rw [hfiles]
    exact convertAll_files_of_cancelled h

/-- After the making of the output directory a run only writes outputs, if anything. -/
theorem filesOnlyAt_run (hlinks : fs.LinkFree) (hcwd : fs.get? cwd = some .directory) :
    let made := (options.prepare fs cwd).1
    made.FilesOnlyAt (options.run fs cwd cancelled).files fun location => ∃ root files,
      made.Opens cwd options.output root ∧
      made.findFeatures cwd options.source options.recursive = .ok files ∧
      options.OutputPlace root files location := by
  intro made
  cases hdry : options.dryRun with
  | true =>
      have hmade : made = fs := by simp [made, prepare, hdry]
      rw [run_files_of_dryRun hdry, hmade]
      exact .refl _ _
  | false =>
      rcases options.run_cases fs cwd cancelled with
        ⟨hfiles, -⟩ | ⟨files, hprepared, hfound, -, hfiles⟩
      · exact hfiles ▸ .refl _ _
      · obtain ⟨root, hready⟩ := ready_of_findFeatures hlinks hcwd hdry hprepared hfound
        rw [hfiles]
        exact (filesOnlyAt_convertAll hready hdry []).mono fun location hplace =>
          ⟨root, files, hready.opens, hfound, hplace⟩

theorem find_of_prepare (hlinks : fs.LinkFree) (hcwd : fs.get? cwd = some .directory)
    {location : Location} (hchanged : (options.prepare fs cwd).1.get? location ≠ fs.get? location) :
    ∃ path ∈ options.output.withAncestors,
      (options.prepare fs cwd).1.find cwd .target path = .ok (location, .directory) := by
  cases hdry : options.dryRun with
  | true => simp [prepare, hdry] at hchanged
  | false =>
      have hprepare : options.prepare fs cwd = fs.createDirectories cwd options.output := by
        simp [prepare, hdry]
      rw [hprepare] at hchanged ⊢
      exact FileSystem.find_of_createDirectories hlinks hcwd hchanged

theorem not_feature_suffix_of_outputPlace {location : Location} {name : Name}
    (h : options.OutputPlace root files location) (hlast : location.getLast? = some name) :
    ¬ ".feature".toList <:+ name.val := by
  obtain ⟨file, -, stem, -, rfl⟩ := h
  obtain rfl : options.outputName stem = name := by simpa using hlast
  exact not_feature_suffix_append_extension stem.val options.format

theorem leadsToFeature_of_outputPlace {location : Location}
    (h : options.OutputPlace root files location) :
    FileSystem.leadsToFeature location = false := by
  obtain ⟨file, -, stem, -, rfl⟩ := h
  rw [FileSystem.leadsToFeature_of_getLast? List.getLast?_concat]
  exact isFeatureName_append_extension stem.val options.format

/-- A run only makes the output directory, with those above it, and writes outputs in it, whether it
succeeds, fails or is cancelled, before whichever of its files. A dry run changes nothing, and a run
that is cancelled when it starts writes no file. -/
theorem run_touches_only_outputs (hlinks : fs.LinkFree) (hcwd : fs.get? cwd = some .directory)
    (cancelled : Cancellation) :
    let run := options.run fs cwd cancelled
    options.TouchesOnlyOutputs fs cwd run.files ∧
    (options.dryRun = true → run.files = fs) ∧
    (cancelled 0 = true → ∀ location content,
      run.files.get? location = some (.file content) ↔
        fs.get? location = some (.file content)) := by
  intro run
  have hdirectories := directoriesOnly_prepare options fs cwd
  have hmadeLinks := hdirectories.linkFree hlinks
  have hwritten : (options.prepare fs cwd).1.FilesOnlyAt run.files _ := filesOnlyAt_run hlinks hcwd
  have houtputs : (options.prepare fs cwd).1.OutputsOnly run.files :=
    hwritten.outputsOnly fun location ⟨_, _, _, _, hplace⟩ => leadsToFeature_of_outputPlace hplace
  have hafterLinks := houtputs.linkFree hmadeLinks
  refine ⟨⟨?_, ?_, ?_, hafterLinks, ?_⟩, run_files_of_dryRun, ?_⟩
  · intro location entry hentry
    have hmade : (options.prepare fs cwd).1.get? location = some entry := by
      rcases hdirectories location with heq | ⟨hnone, -⟩
      · exact heq.trans hentry
      · simp [hentry] at hnone
    rcases hwritten location with heq | ⟨-, ⟨new, hnew⟩, hold⟩
    · exact .inl (heq.trans hmade)
    · obtain ⟨old, rfl⟩ := hold entry hmade
      exact .inr ⟨old, new, rfl, hnew⟩
  · intro location content hafter hchanged
    rcases hwritten location with heq | ⟨⟨root, files, hopens, hfound, hplace⟩, -⟩
    · exact absurd (hdirectories.get?_file_iff.mp (heq.symm.trans hafter)) hchanged
    · exact ⟨root, files, hopens.mono hmadeLinks hafterLinks houtputs.directoriesWithin, hfound,
        hplace⟩
  · intro location hafter hchanged
    have hmade := houtputs.directoriesWithin_symm location hafter
    obtain ⟨path, hpath, hfind⟩ := find_of_prepare hlinks hcwd
      fun heq => hchanged (heq.symm.trans hmade)
    exact ⟨path, hpath, FileSystem.find_directory_mono hmadeLinks hafterLinks
      houtputs.directoriesWithin hfind⟩
  · intro location name content hlast hsuffix hfile
    rcases hwritten location with heq | ⟨⟨root, files, -, -, hplace⟩, -⟩
    · exact heq.trans (hdirectories.get?_file_iff.mpr hfile)
    · exact absurd hsuffix (not_feature_suffix_of_outputPlace hplace hlast)
  · intro hcancelled location content
    have hfiles : run.files = (options.prepare fs cwd).1 := run_files_of_cancelled hcancelled
    rw [hfiles]
    exact hdirectories.get?_file_iff

/-- The second of the files is malformed, so a run fails there, unless it is cancelled before that
file. Both ways it leaves the new directory `s/t/o/p`, with the one above it, and one output. -/
theorem run_touches_only_outputs_before_malformed :
    let options : BatchOptions :=
      { source := "s".toList, output := "s/t/o/p".toList, recursive := true }
    let directory : Location := [⟨['s'], by decide⟩, ⟨['t'], by decide⟩, ⟨['o'], by decide⟩]
    let changed (run : BatchRun) : List Location :=
      (soundAndMalformed.changesSince run.files []).map Prod.fst
    let places : List Location := [directory, directory ++ [⟨['p'], by decide⟩],
      directory ++ [⟨['p'], by decide⟩, ⟨"a.feature.md".toList, by decide⟩]]
    let failed := options.run soundAndMalformed [] .never
    let cancelled := options.run soundAndMalformed [] fun converted => converted == 1
    failed.result.toOption = none ∧ changed failed = places ∧
      options.TouchesOnlyOutputs soundAndMalformed [] failed.files ∧
      cancelled.result = .ok ⟨["s/t/o/p/a.feature.md".toList], true⟩ ∧
      changed cancelled = places ∧
      options.TouchesOnlyOutputs soundAndMalformed [] cancelled.files := by
  intro options directory changed places failed cancelled
  have hlinks : soundAndMalformed.LinkFree := FileSystem.linkFree_of_all (by decide +kernel)
  have htouches (token : Cancellation) : options.TouchesOnlyOutputs soundAndMalformed []
      (options.run soundAndMalformed [] token).files :=
    (run_touches_only_outputs hlinks rfl token).1
  exact ⟨by decide +kernel, by decide +kernel, htouches _,
    eq_ok_of_toOption (by decide +kernel), by decide +kernel, htouches _⟩

end BatchOptions

end FeatureMarkdown
