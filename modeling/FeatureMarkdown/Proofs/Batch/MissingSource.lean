import FeatureMarkdown.Proofs.Batch.Loop
import FeatureMarkdown.Proofs.File.Kept

namespace FeatureMarkdown

namespace BatchOptions

variable {options : BatchOptions} {fs : FileSystem} {cwd : Location} {e : FileError}
  {cancelled : Cancellation}

/-- The output directory could be made, with at least one new directory, and after that the path of
the source leads somewhere. -/
structure MakesSource (options : BatchOptions) (fs : FileSystem) (cwd : Location) : Prop where
  writes : options.dryRun = false
  made : (options.prepare fs cwd).2 = none
  isNew : ∃ location, fs.get? location = none ∧
    (options.prepare fs cwd).1.get? location = some .directory
  leads : ∃ found, (options.prepare fs cwd).1.find cwd .entry options.source = .ok found

/-- Over a source that is not there a dry run fails, and so does one that writes, unless it makes the
source together with the output directory. -/
theorem run_fails_without_source (h : fs.find cwd .entry options.source = .error e) :
    (options.dryRun = true →
      (options.run fs cwd cancelled).result = .error (.discover options.source e)) ∧
    (options.MakesSource fs cwd ∨
      (∃ cause, (options.run fs cwd cancelled).result =
        .error (.createOutput options.output cause)) ∨
      ∃ cause, (options.run fs cwd cancelled).result = .error (.discover options.source cause)) := by
  have hrun := options.run_result fs cwd cancelled
  constructor
  · intro hdry
    have hprepare : options.prepare fs cwd = (fs, none) := by simp [prepare, hdry]
    rw [hrun, hprepare]
    simp only [FileSystem.findFeatures, h]
  · cases hprepare : (options.prepare fs cwd).2 with
    | some cause =>
        rw [hprepare] at hrun
        exact .inr (.inl ⟨cause, hrun⟩)
    | none =>
        cases hfind : (options.prepare fs cwd).1.find cwd .entry options.source with
        | error cause =>
            simp only [hprepare, FileSystem.findFeatures, hfind] at hrun
            exact .inr (.inr ⟨cause, hrun⟩)
        | ok found =>
            have hwrites : options.dryRun = false := by
              cases hdry : options.dryRun with
              | false => rfl
              | true => simp [prepare, hdry, h] at hfind
            have hnew := (directoriesOnly_prepare options fs cwd).exists_new_of_find h hfind
            exact .inl ⟨hwrites, hprepare, hnew, found, hfind⟩

/-- A source that is its own output directory is made, and only a dry run misses it. -/
theorem run_fails_without_source_unless_made :
    let options := BatchOptions.new "missing".toList
    FileSystem.empty.find [] .entry options.source = .error .notFound ∧
      ((options.withDryRun true).run .empty [] .never).result =
        .error (.discover options.source .notFound) ∧
      options.MakesSource .empty [] := by
  intro options
  have hmissing : FileSystem.empty.find [] .entry options.source = .error .notFound := by
    decide +kernel
  have hresult : (options.run .empty [] .never).result = .ok ⟨[], false⟩ := by
    decide +kernel
  have hdry : FileSystem.empty.find [] .entry (options.withDryRun true).source =
      .error .notFound := hmissing
  refine ⟨hmissing, (run_fails_without_source hdry).1 rfl, ?_⟩
  rcases (run_fails_without_source hmissing).2 with hmakes | ⟨cause, hfailed⟩ | ⟨cause, hfailed⟩
  · exact hmakes
  · cases hresult.symm.trans hfailed
  · cases hresult.symm.trans hfailed

/-- No file is found below a directory that the run has made itself. -/
theorem run_over_new_source {root : Location} (hmade : (options.prepare fs cwd).2 = none)
    (hfind : (options.prepare fs cwd).1.find cwd .entry options.source = .ok (root, .directory))
    (hnew : fs.get? root = none) :
    (options.run fs cwd cancelled).result = .ok ⟨[], false⟩ ∨
      options.recursive = true ∧ ∃ way, (options.run fs cwd cancelled).result =
        .error (.discover (FileSystem.joinWay options.source way) .nameTooLong) := by
  have hdirectories := directoriesOnly_prepare options fs cwd
  have hnone : (options.prepare fs cwd).1.featureWays root options.recursive = [] := by
    refine List.eq_nil_iff_forall_not_mem.mpr fun way hway => ?_
    obtain ⟨-, hfeature, content, hfile⟩ := FileSystem.mem_featureWays_iff.mp hway
    have hne := FileSystem.ne_nil_of_leadsToFeature hfeature
    have hroot := FileSystem.get?_of_append (hdirectories.get?_file_iff.mp hfile) hne
    simp [hnew] at hroot
  have hrun := options.run_result fs cwd cancelled
  simp only [hmade, FileSystem.findFeatures, hfind, FileSystem.featuresBelow, hnone] at hrun
  cases hlong : (options.prepare fs cwd).1.unlistable? options.source root options.recursive with
  | none =>
      left
      simpa [hlong, convertAll_nil] using hrun
  | some path =>
      obtain ⟨hrecursive, way, -, rfl, -, -⟩ := FileSystem.unlistable?_eq_some_iff.mp hlong
      exact .inr ⟨hrecursive, way, by simpa [hlong] using hrun⟩

/-- By default the outputs go beside the sources: then a source that is not there is made, and there
is nothing to convert in it. -/
theorem run_new_of_missing {name : Name} (hcwd : fs.get? cwd = some .directory)
    (hmissing : fs.get? (cwd ++ [name]) = none) (hnul : '\x00' ∉ name.val)
    (hlimit : name.val.byteCount ≤ FileSystem.nameLimit) :
    fs.find cwd .entry name.val = .error .notFound ∧
      ((BatchOptions.new name.val).run fs cwd cancelled).result = .ok ⟨[], false⟩ := by
  have hlookup := Path.lookupComponents_of_isName name.property
  constructor
  · rw [FileSystem.find, hlookup, FileSystem.locate_name hcwd hnul hlimit (by simp [hmissing])]
    simp only [hmissing]
  · let options := BatchOptions.new name.val
    have hprepare : options.prepare fs cwd = (fs.add (cwd ++ [name]) .directory, none) :=
      FileSystem.createDirectories_name hcwd hmissing hnul hlimit
    have hdirectory : (options.prepare fs cwd).1.get? (cwd ++ [name]) = some .directory := by
      rw [hprepare, FileSystem.get?_add .directory hmissing (by simpa using hcwd), if_pos rfl]
    have hfind : (options.prepare fs cwd).1.find cwd .entry options.source =
        .ok (cwd ++ [name], .directory) := by
      refine FileSystem.find_eq_ok_iff.mpr ⟨?_, hdirectory⟩
      have hcwd' := (directoriesOnly_prepare options fs cwd).directoriesWithin _ hcwd
      exact hlookup ▸ FileSystem.locate_name hcwd' hnul hlimit (by simp [hdirectory])
    rcases run_over_new_source (congrArg Prod.snd hprepare) hfind hmissing with
      hresult | ⟨hrecursive, -⟩
    · exact hresult
    · contradiction

/-- The source `missing` is not there, and the run succeeds. -/
theorem run_succeeds_without_source :
    FileSystem.empty.find [] .entry "missing".toList = .error .notFound ∧
      ((BatchOptions.new "missing".toList).run .empty [] .never).result = .ok ⟨[], false⟩ := by
  let name : Name := ⟨"missing".toList, by decide⟩
  have hmissing : FileSystem.empty.get? ([] ++ [name]) = none := rfl
  exact run_new_of_missing rfl hmissing (by decide) (by decide)

end BatchOptions

end FeatureMarkdown
