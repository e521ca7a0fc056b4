import FeatureMarkdown.Proofs.Batch.Footprint

namespace FeatureMarkdown

namespace BatchOptions

variable {options : BatchOptions} {fs : FileSystem} {cwd root : Location} {files : List Path}

theorem Converts.unique {text output other : Text} (h : options.Converts text output)
    (hother : options.Converts text other) : output = other := by
  obtain ⟨document, hparse, hgenerate⟩ := h
  obtain ⟨same, hsame, hgenerate'⟩ := hother
  obtain rfl := Except.ok.inj (hparse.symm.trans hsame)
  cases hformat : options.format with
  | markdown =>
      rw [hformat] at hgenerate hgenerate'
      exact Except.ok.inj (hgenerate.symm.trans hgenerate')
  | json =>
      rw [hformat] at hgenerate hgenerate'
      exact hgenerate.trans hgenerate'.symm

theorem Conversions.unique {outputs others : List (Path × Text)}
    (h : options.Conversions fs cwd files outputs)
    (hothers : options.Conversions fs cwd files others) : outputs = others := by
  induction h generalizing others with
  | nil =>
      cases hothers
      rfl
  | cons hfirst _ ih =>
      obtain ⟨htarget, text, hread, hconverts⟩ := hfirst
      rcases hothers with _ | ⟨⟨htarget', same, hsame, hconverts'⟩, hrest⟩
      obtain rfl := Except.ok.inj (hread.symm.trans hsame)
      exact congrArg₂ List.cons
        (Prod.ext (htarget.trans htarget'.symm) (hconverts.unique hconverts')) (ih hrest)

theorem outputsOnly_convertAll (h : options.Ready fs cwd root files)
    (hdry : options.dryRun = false) (outputs : List Path) :
    fs.OutputsOnly (options.convertAll cwd .never fs outputs files).files :=
  (filesOnlyAt_convertAll h hdry outputs).outputsOnly fun _ => leadsToFeature_of_outputPlace

/-- The loop does the same once more over the outputs that it has left. -/
theorem convertAll_repeats (h : options.Ready fs cwd root files) (hdry : options.dryRun = false)
    {report : Report} {outputs : List Path}
    (hok : (options.convertAll cwd .never fs outputs files).result = .ok report) :
    let after := (options.convertAll cwd .never fs outputs files).files
    let again := options.convertAll cwd .never after outputs files
    again.result = .ok report ∧ again.files = after := by
  intro after again
  have houtputs : fs.OutputsOnly after := outputsOnly_convertAll h hdry outputs
  have hready := h.mono houtputs
  rcases convertAll_of_ready h hdry outputs with
    ⟨converted, hconversions, hwritten, hsound, hresult⟩ | ⟨_, _, _, e, _, _, _, _, herror, _⟩
  · rcases convertAll_of_ready hready hdry outputs with
      ⟨converted', hconversions', hwritten', -, hresult'⟩ |
        ⟨before, file, rest, e, _, hsplit, -, hfault, -⟩
    · obtain rfl : converted' = converted :=
        (conversions_of_outputsOnly h houtputs hconversions').unique hconversions
      exact ⟨hresult'.trans (hresult.symm.trans hok),
        FileSystem.writeAll_idempotent h.linkFree hready.linkFree h.cwd_directory
          houtputs.directoriesWithin hwritten hwritten'⟩
    · have hfile : file ∈ files := by simp [hsplit]
      exact absurd ((fault_iff_of_outputsOnly h hfile houtputs).mp hfault) (hsound file hfile e)
  · simp [hok] at herror

/-- A run that has succeeded and is repeated reports the same and changes nothing, wherever the
outputs are and whether or not sources share a target. -/
theorem run_repeats (hlinks : fs.LinkFree) (hcwd : fs.get? cwd = some .directory)
    {report : Report} (h : (options.run fs cwd .never).result = .ok report) :
    let after := (options.run fs cwd .never).files
    let again := options.run after cwd .never
    again.result = .ok report ∧ again.files = after := by
  intro after again
  cases hdry : options.dryRun with
  | true =>
      have hafter : after = fs := run_files_of_dryRun hdry
      simp only [again, hafter]
      exact ⟨h, run_files_of_dryRun hdry⟩
  | false =>
      rcases options.run_cases fs cwd .never with
        ⟨-, ⟨e, -, hresult⟩ | ⟨path, e, -, -, hresult⟩⟩ | ⟨files, hmade, hfound, hresult, hfiles⟩
      · simp [h] at hresult
      · simp [h] at hresult
      · obtain ⟨root, hready⟩ := ready_of_findFeatures hlinks hcwd hdry hmade hfound
        obtain ⟨hok, hsame⟩ := convertAll_repeats hready hdry (hresult ▸ h)
        rw [← hfiles] at hok hsame
        have houtputs : (options.prepare fs cwd).1.OutputsOnly after := by
          simp only [after, hfiles]
          exact outputsOnly_convertAll hready hdry []
        have hprepare : options.prepare after cwd = (after, none) := by
          have hopens := (hready.mono houtputs).opens
          simp [prepare, hdry,
            FileSystem.createDirectories_of_opens (houtputs.linkFree hready.linkFree) hopens]
        have hmade' : (options.prepare after cwd).2 = none := by rw [hprepare]
        have hfound' : (options.prepare after cwd).1.findFeatures cwd options.source
            options.recursive = .ok files := by
          rw [hprepare]
          exact houtputs.findFeatures hready.linkFree hfound
        obtain ⟨hresult', hfiles'⟩ := run_of_findFeatures hmade' hfound' .never
        rw [hprepare] at hresult' hfiles'
        exact ⟨hresult'.trans hok, hfiles'.trans hsame⟩

/-- The output directory is below the source, and both files have one target. -/
theorem run_repeats_below_source :
    let options : BatchOptions :=
      { source := "s".toList, output := "s/t".toList, recursive := true }
    let target : Path := "s/t/a.feature.md".toList
    let after := (options.run sameNameFiles [] .never).files
    let again := options.run after [] .never
    again.result = .ok ⟨[target, target], false⟩ ∧ again.files = after := by
  intro options target after again
  have hlinks : sameNameFiles.LinkFree := FileSystem.linkFree_of_all (by decide +kernel)
  have hresult : (options.run sameNameFiles [] .never).result = .ok ⟨[target, target], false⟩ :=
    eq_ok_of_toOption (by decide +kernel)
  exact run_repeats hlinks rfl hresult

end BatchOptions

end FeatureMarkdown
