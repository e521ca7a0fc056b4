import FeatureMarkdown.Proofs.File.Names
import FeatureMarkdown.File.Discovery

namespace FeatureMarkdown

namespace FileSystem

variable {fs : FileSystem} {cwd root : Location} {recursive : Bool} {way : List Name}

theorem ne_nil_of_leadsToFeature (h : leadsToFeature way = true) : way ≠ [] := by
  rintro rfl
  contradiction

theorem leadsToFeature_of_mem_featureWays (h : way ∈ fs.featureWays root recursive) :
    leadsToFeature way = true := by
  obtain ⟨⟨location, entry⟩, -, hentry⟩ :=
    List.mem_filterMap.mp ((sortBy_perm _ _).mem_iff.mp h)
  cases entry with
  | file content =>
      obtain ⟨-, hway⟩ := Option.filter_eq_some_iff.mp hentry
      simp only [Bool.and_eq_true] at hway
      exact hway.2
  | directory => contradiction
  | link target => contradiction

theorem fileName?_joinWay {name : Name} (hlast : way.getLast? = some name) (path : Path) :
    (joinWay path way).fileName? = some name.val := by
  obtain ⟨above, rfl⟩ := List.getLast?_eq_some_iff.mp hlast
  rw [joinWay, List.foldl_append, List.foldl_cons, List.foldl_nil]
  exact Path.fileName?_join name.property _

theorem featuresBelow_eq_ok {path : Path} {location : Location} {files : List Path}
    (h : fs.featuresBelow path location recursive = .ok files) :
    files = (fs.featureWays location recursive).map (joinWay path) := by
  unfold featuresBelow at h
  split at h
  · contradiction
  · exact (Except.ok.inj h).symm

theorem isFeatureFile_of_mem_featuresBelow {path file : Path} {location : Location}
    {files : List Path} (h : fs.featuresBelow path location recursive = .ok files)
    (hfile : file ∈ files) : file.IsFeatureFile := by
  rw [featuresBelow_eq_ok h] at hfile
  obtain ⟨way, hway, rfl⟩ := List.mem_map.mp hfile
  have hfeature := leadsToFeature_of_mem_featureWays hway
  cases hlast : way.getLast? with
  | none => simp [leadsToFeature, hlast] at hfeature
  | some name =>
      refine ⟨name.val, fileName?_joinWay hlast path, ?_⟩
      simpa [leadsToFeature, hlast] using hfeature

/-- A search finds the files below a directory, or its root, or nothing. -/
theorem findFeatures_cases {path : Path} {files : List Path}
    (h : fs.findFeatures cwd path recursive = .ok files) :
    (∃ location, fs.featuresBelow path location recursive = .ok files) ∨
      (files = [path] ∧ path.IsFeatureFile) ∨ files = [] := by
  unfold findFeatures at h
  split at h
  · contradiction
  · exact .inl ⟨_, h⟩
  · obtain rfl := Except.ok.inj h
    cases hname : path.fileName? with
    | none => exact .inr (.inr rfl)
    | some name =>
        cases hfeature : Path.isFeatureName name with
        | false => exact .inr (.inr (by simp [hfeature]))
        | true => exact .inr (.inl ⟨by simp [hfeature], name, hname, hfeature⟩)
  · split at h
    · contradiction
    · exact .inl ⟨_, h⟩
    · exact .inr (.inr (Except.ok.inj h).symm)

theorem isFeatureFile_of_mem_findFeatures {path file : Path} {files : List Path}
    (h : fs.findFeatures cwd path recursive = .ok files) (hfile : file ∈ files) :
    file.IsFeatureFile := by
  rcases findFeatures_cases h with ⟨location, hbelow⟩ | ⟨rfl, hpath⟩ | rfl
  · exact isFeatureFile_of_mem_featuresBelow hbelow hfile
  · rwa [List.mem_singleton.mp hfile]
  · contradiction

end FileSystem

end FeatureMarkdown
