import FeatureMarkdown.Proofs.Batch.Loop
import FeatureMarkdown.Proofs.File.Kept

/-!
What a dry run tells of the run that writes. The two differ in the files that they read from: the
run that writes has made the output directory, which may lie below the source, and each file is read
after the outputs of those before it have been written. Neither changes how a file is read. The
search, however, fails on a directory whose path is too long, and that may be the one just made.
-/

namespace FeatureMarkdown

/-- The errors that a run can end with before it makes or writes anything. -/
def BatchError.IsForeseeable : BatchError → Prop
  | .discover _ _ | .read _ _ | .parse _ _ => True
  | _ => False

namespace BatchOptions

variable {options : BatchOptions} {fs current : FileSystem} {cwd : Location} {files : List Path}

theorem convertFile_withDryRun {file : Path}
    (h : current.readText cwd file = fs.readText cwd file) (dryRun : Bool) :
    (options.withDryRun dryRun).convertFile current cwd file = options.convertFile fs cwd file := by
  rw [convertFile, h]
  rfl

/-- One round of the loop that writes, over a file that is read as in the dry run: it ends as the
round of the dry run, or its output cannot be written, or both loops go on. -/
theorem convertAll_cons_foretold {file : Path} {rest : List Path}
    (h : current.readText cwd file = fs.readText cwd file) (outputs : List Path) :
    let real := fun (current : FileSystem) (outputs files : List Path) =>
      ((options.withDryRun false).convertAll cwd .never current outputs files).result
    let dry := fun (outputs files : List Path) =>
      ((options.withDryRun true).convertAll cwd .never fs outputs files).result
    real current outputs (file :: rest) = dry outputs (file :: rest) ∨
    (∃ e, real current outputs (file :: rest) = .error (.write (options.target file) e)) ∨
    ∃ output after,
      current.writeFile cwd (options.target file) output = .ok after ∧
      real current outputs (file :: rest) = real after (outputs ++ [options.target file]) rest ∧
      dry outputs (file :: rest) = dry (outputs ++ [options.target file]) rest := by
  intro real dry
  have hreal : (options.withDryRun false).convertFile current cwd file =
      options.convertFile fs cwd file := convertFile_withDryRun h false
  have hdry : (options.withDryRun true).convertFile fs cwd file =
      options.convertFile fs cwd file := convertFile_withDryRun rfl true
  rcases (options.withDryRun true).convertAll_cons_cases fs cwd outputs file rest with
    ⟨e, hconvert, hends, -⟩ | ⟨output, hconvert, ⟨-, hgoes, -⟩ | ⟨_, hnot, -⟩ | ⟨_, hnot, -⟩⟩
  · rcases (options.withDryRun false).convertAll_cons_cases current cwd outputs file rest with
      ⟨other, hother, hends', -⟩ | ⟨output, hother, -⟩
    · rw [hdry] at hconvert
      rw [hreal, hconvert] at hother
      obtain rfl := Except.error.inj hother
      exact .inl (hends'.trans hends.symm)
    · rw [hdry] at hconvert
      rw [hreal, hconvert] at hother
      contradiction
  · rcases (options.withDryRun false).convertAll_cons_cases current cwd outputs file rest with
      ⟨e, hother, -⟩ | ⟨_, -, ⟨hnot, -⟩ | ⟨e, -, -, hends, -⟩ | ⟨after, -, hwrite, hgoes', -⟩⟩
    · rw [hdry] at hconvert
      rw [hreal, hconvert] at hother
      contradiction
    · contradiction
    · exact .inr (.inl ⟨e, hends⟩)
    · exact .inr (.inr ⟨_, after, hwrite, hgoes', hgoes⟩)
  · contradiction
  · contradiction

/-- The loop that writes ends as the loop that does not, or with an output that it cannot write, if
each file is read in the same way as long as all directories and feature files stay. -/
theorem convertAll_foretold (hcwd : fs.get? cwd = some .directory)
    (hkept : fs.Keeps current) (hcurrent : current.LinkFree)
    (hfiles : ∀ file ∈ files, file.IsFeatureFile ∧ ∀ after, fs.Keeps after → after.LinkFree →
      after.readText cwd file = fs.readText cwd file) (outputs : List Path) :
    ((options.withDryRun false).convertAll cwd .never current outputs files).result =
        ((options.withDryRun true).convertAll cwd .never fs outputs files).result ∨
      ∃ target e, ((options.withDryRun false).convertAll cwd .never current outputs files).result =
        .error (.write target e) := by
  induction files generalizing current outputs with
  | nil => exact .inl rfl
  | cons file rest ih =>
      obtain ⟨hfeature, hstable⟩ := hfiles file List.mem_cons_self
      rcases convertAll_cons_foretold (hstable current hkept hcurrent) outputs with
        hsame | ⟨e, hfailed⟩ | ⟨output, after, hwrite, hreal, hdry⟩
      · exact .inl hsame
      · exact .inr ⟨_, e, hfailed⟩
      · -- The dry run goes on reading from `fs`, so what is kept is counted from there, over all
        -- rounds, and not from one round to the next.
        have hcwd' := hkept.directoriesWithin _ hcwd
        have hstep : current.OutputsOnly after :=
          outputsOnly_of_writeFile_target hcurrent hcwd' hfeature hwrite
        dsimp only at hreal hdry
        rw [hreal, hdry]
        apply ih (hkept.trans hstep.keeps) (hstep.linkFree hcurrent)
        exact fun other hother => hfiles other (List.mem_cons_of_mem file hother)

theorem isForeseeable_of_convertAll (hdry : options.dryRun = true) {outputs : List Path}
    {e : BatchError}
    (h : (options.convertAll cwd .never fs outputs files).result = .error e) : e.IsForeseeable := by
  induction files generalizing outputs with
  | nil => contradiction
  | cons file rest ih =>
      rcases options.convertAll_cons_cases fs cwd outputs file rest with
        ⟨cause, hconvert, hresult, -⟩ | ⟨_, -, ⟨-, hresult, -⟩ | ⟨_, hwet, -⟩ | ⟨_, hwet, -⟩⟩
      · obtain rfl : cause = e := Except.error.inj (hresult.symm.trans h)
        rcases options.convertFile_cases fs cwd file with
          ⟨_, -, hfailed⟩ | ⟨_, _, -, -, hfailed⟩ | ⟨_, _, -, -, hok⟩
        · obtain rfl := Except.error.inj (hconvert.symm.trans hfailed)
          trivial
        · obtain rfl := Except.error.inj (hconvert.symm.trans hfailed)
          trivial
        · simp [hconvert] at hok
      · exact ih (hresult ▸ h)
      · simp [hdry] at hwet
      · simp [hdry] at hwet

theorem dryRun_result (options : BatchOptions) (fs : FileSystem) (cwd : Location) :
    ((options.withDryRun true).run fs cwd .never).result =
      match fs.findFeatures cwd options.source options.recursive with
      | .error (path, e) => .error (.discover path e)
      | .ok files => ((options.withDryRun true).convertAll cwd .never fs [] files).result :=
  run_result _ fs cwd .never

theorem isForeseeable_of_dryRun {e : BatchError}
    (h : ((options.withDryRun true).run fs cwd .never).result = .error e) : e.IsForeseeable := by
  rw [dryRun_result] at h
  split at h
  · obtain rfl := Except.error.inj h
    trivial
  · exact isForeseeable_of_convertAll rfl h

/-- The run that writes ends as the dry run does, or it fails to make or to write something. -/
def Foretells (options : BatchOptions) (fs : FileSystem) (cwd : Location) : Prop :=
  let real := ((options.withDryRun false).run fs cwd .never).result
  let dry := ((options.withDryRun true).run fs cwd .never).result
  real = dry ∨ (∃ e, real = .error (.createOutput options.output e)) ∨
    ∃ target e, real = .error (.write target e)

/-- The run that writes fails in its search, on a directory that it has made itself below the source
and whose path is too long to be searched. -/
def FailsOnOwnDirectory (options : BatchOptions) (fs : FileSystem) (cwd : Location) : Prop :=
  let real := options.withDryRun false
  options.recursive = true ∧
    ∃ root way, fs.find cwd .entry options.source = .ok (root, .directory) ∧
      fs.get? (root ++ way) = none ∧
      (real.prepare fs cwd).1.get? (root ++ way) = some .directory ∧
      FileSystem.pathLimit < (FileSystem.joinWay options.source way).byteCount ∧
      (real.run fs cwd .never).result =
        .error (.discover (FileSystem.joinWay options.source way) .nameTooLong)

/-- If both searches end alike, then so do the runs. -/
theorem foretells_of_findFeatures_eq (hlinks : fs.LinkFree)
    (hcwd : fs.get? cwd = some .directory)
    (h : ((options.withDryRun false).prepare fs cwd).1.findFeatures cwd options.source
      options.recursive = fs.findFeatures cwd options.source options.recursive) :
    options.Foretells fs cwd := by
  have hmade := directoriesOnly_prepare (options.withDryRun false) fs cwd
  have hreal := (options.withDryRun false).run_result fs cwd .never
  have hdry := dryRun_result options fs cwd
  cases hprepare : ((options.withDryRun false).prepare fs cwd).2 with
  | some e =>
      rw [hprepare] at hreal
      exact .inr (.inl ⟨e, hreal⟩)
  | none =>
      have hsource : (options.withDryRun false).source = options.source := rfl
      have hrecursive : (options.withDryRun false).recursive = options.recursive := rfl
      rw [hprepare, hsource, hrecursive, h] at hreal
      cases hsearch : fs.findFeatures cwd options.source options.recursive with
      | error failure =>
          rw [hsearch] at hreal hdry
          exact .inl (hreal.trans hdry.symm)
      | ok files =>
          rw [hsearch] at hreal hdry
          have hstable : ∀ file ∈ files, file.IsFeatureFile ∧ ∀ after, fs.Keeps after →
              after.LinkFree → after.readText cwd file = fs.readText cwd file := by
            intro file hfile
            constructor
            · exact FileSystem.isFeatureFile_of_mem_findFeatures hsearch hfile
            · intro after hkept hafter
              exact hkept.readText_of_mem_findFeatures hlinks hafter hcwd hsearch hfile
          rcases convertAll_foretold hcwd hmade.keeps (hmade.linkFree hlinks) hstable [] with
            hsame | ⟨target, e, hwrite⟩
          · exact .inl (hreal.trans (hsame.trans hdry.symm))
          · exact .inr (.inr ⟨target, e, hreal.trans hwrite⟩)

theorem foretells_or_failsOnOwnDirectory {found : Location × Entry} (hlinks : fs.LinkFree)
    (hcwd : fs.get? cwd = some .directory)
    (hsource : fs.find cwd .entry options.source = .ok found) :
    options.Foretells fs cwd ∨ options.FailsOnOwnDirectory fs cwd := by
  have hmade := directoriesOnly_prepare (options.withDryRun false) fs cwd
  rcases hmade.findFeatures_cases hlinks hsource options.recursive with
    hsame | ⟨root, way, hroot, hrecursive, hnew, hdirectory, hlong, hfailed⟩
  · exact .inl (foretells_of_findFeatures_eq hlinks hcwd hsame)
  · have hreal := (options.withDryRun false).run_result fs cwd .never
    cases hprepare : ((options.withDryRun false).prepare fs cwd).2 with
    | some e =>
        rw [hprepare] at hreal
        exact .inl (.inr (.inl ⟨e, hreal⟩))
    | none =>
        have hsearch : ((options.withDryRun false).prepare fs cwd).1.findFeatures cwd
            (options.withDryRun false).source (options.withDryRun false).recursive =
            .error (FileSystem.joinWay options.source way, .nameTooLong) := hfailed
        rw [hprepare, hsearch] at hreal
        exact .inr ⟨hrecursive, root, way, hroot, hnew, hdirectory, hlong, hreal⟩

/-- A dry run over a source that exists ends in a report or in an error of the search, of reading or
of parsing. The run that writes ends in the same way, unless it fails to make or to write something,
or to search a directory that it has made itself. If it succeeds, so does the dry run, with the same
report. -/
theorem dryRun_foretells_run {found : Location × Entry} (hlinks : fs.LinkFree)
    (hcwd : fs.get? cwd = some .directory)
    (hsource : fs.find cwd .entry options.source = .ok found) :
    (∀ e, ((options.withDryRun true).run fs cwd .never).result = .error e → e.IsForeseeable) ∧
    (options.Foretells fs cwd ∨ options.FailsOnOwnDirectory fs cwd) ∧
    ∀ report, ((options.withDryRun false).run fs cwd .never).result = .ok report →
      ((options.withDryRun true).run fs cwd .never).result = .ok report := by
  have hcases := foretells_or_failsOnOwnDirectory hlinks hcwd hsource
  refine ⟨fun e => isForeseeable_of_dryRun, hcases, ?_⟩
  intro report hreport
  rcases hcases with (hsame | ⟨e, hfailed⟩ | ⟨target, e, hfailed⟩) | ⟨-, _, _, -, -, -, -, hfailed⟩
  · exact hsame.symm.trans hreport
  · cases hreport.symm.trans hfailed
  · cases hreport.symm.trans hfailed
  · cases hreport.symm.trans hfailed

/-- The second file is read when the output of the first already lies beside it. -/
theorem dryRun_foretells_run_below_source :
    let options : BatchOptions :=
      { source := "s".toList, output := "s/t".toList, recursive := true }
    let target : Path := "s/t/a.feature.md".toList
    ((options.withDryRun false).run sameNameFiles [] .never).result =
        .ok ⟨[target, target], false⟩ ∧
      ((options.withDryRun true).run sameNameFiles [] .never).result =
        .ok ⟨[target, target], false⟩ := by
  intro options target
  have hlinks : sameNameFiles.LinkFree := FileSystem.linkFree_of_all (by decide +kernel)
  have hsource : sameNameFiles.find [] .entry options.source =
      .ok ([⟨['s'], by decide⟩], .directory) := eq_ok_of_toOption (by decide +kernel)
  have hreal : ((options.withDryRun false).run sameNameFiles [] .never).result =
      .ok ⟨[target, target], false⟩ := eq_ok_of_toOption (by decide +kernel)
  exact ⟨hreal, (dryRun_foretells_run hlinks rfl hsource).2.2 _ hreal⟩

/-- The path `././…` of the source is as long as a path may be, so that the search cannot enter the
directory `d` that the run has made there. -/
theorem not_foretells_of_longest_source :
    let options : BatchOptions :=
      { source := '.' :: (List.replicate 2047 ['/', '.']).flatten, output := ['d'],
        recursive := true }
    options.source.byteCount = FileSystem.pathLimit ∧ FileSystem.empty.LinkFree ∧
      FileSystem.empty.get? [] = some .directory ∧
      FileSystem.empty.find [] .entry options.source = .ok ([], .directory) ∧
      ((options.withDryRun true).run .empty [] .never).result = .ok ⟨[], false⟩ ∧
      (∃ path, ((options.withDryRun false).run .empty [] .never).result =
        .error (.discover path .nameTooLong)) ∧
      ¬ options.Foretells .empty [] := by
  intro options
  have hreal : ∃ path, ((options.withDryRun false).run .empty [] .never).result =
      .error (.discover path .nameTooLong) := by
    have hmatches : (((options.withDryRun false).run .empty [] .never).result matches
        .error (.discover _ .nameTooLong)) = true := by decide +kernel
    generalize ((options.withDryRun false).run .empty [] .never).result = outcome at hmatches ⊢
    split at hmatches
    next path => exact ⟨path, rfl⟩
    next => contradiction
  have hlinks : FileSystem.empty.LinkFree := FileSystem.linkFree_of_all (by decide +kernel)
  have hdry : ((options.withDryRun true).run .empty [] .never).result = .ok ⟨[], false⟩ :=
    eq_ok_of_toOption (by decide +kernel)
  refine ⟨by decide +kernel, hlinks, rfl, eq_ok_of_toOption (by decide +kernel), hdry, hreal, ?_⟩
  obtain ⟨path, hreal⟩ := hreal
  rintro (hsame | ⟨e, hfailed⟩ | ⟨target, e, hfailed⟩)
  · cases hreal.symm.trans (hsame.trans hdry)
  · cases hreal.symm.trans hfailed
  · cases hreal.symm.trans hfailed

end BatchOptions

end FeatureMarkdown
