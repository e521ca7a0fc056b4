import FeatureMarkdown.File.Discovery
import FeatureMarkdown.Proofs.File.Walk

namespace FeatureMarkdown

namespace FileSystem

/-- The file at the location, which may be new, has got this content, and nothing else has
happened. -/
structure Put (before after : FileSystem) (location : Location) (content : Bytes) : Prop where
  get?_self : after.get? location = some (.file content)
  get?_other : ∀ other, other ≠ location → after.get? other = before.get? other
  file_of_some : ∀ entry, before.get? location = some entry → ∃ old, entry = .file old

/-- Files have been made or refilled, none of them a feature file. -/
def OutputsOnly (before after : FileSystem) : Prop :=
  ∀ location, after.get? location = before.get? location ∨
    (leadsToFeature location = false ∧ (∃ content, after.get? location = some (.file content)) ∧
      ∀ entry, before.get? location = some entry → ∃ old, entry = .file old)

/-- Directories have been made. -/
def DirectoriesOnly (before after : FileSystem) : Prop :=
  ∀ location, after.get? location = before.get? location ∨
    (before.get? location = none ∧ after.get? location = some .directory)

variable {before middle after fs : FileSystem} {cwd location : Location} {path : Path}
  {content : Bytes}

theorem leadsToFeature_of_getLast? {name : Name} (h : location.getLast? = some name) :
    leadsToFeature location = Path.isFeatureName name.val := by
  rw [leadsToFeature, h]

theorem Put.outputsOnly (h : before.Put after location content)
    (hname : leadsToFeature location = false) : before.OutputsOnly after := by
  intro other
  by_cases heq : other = location
  · subst heq
    exact .inr ⟨hname, ⟨content, h.get?_self⟩, h.file_of_some⟩
  · exact .inl (h.get?_other other heq)

theorem Put.directoriesWithin (h : before.Put after location content) :
    before.DirectoriesWithin after := by
  intro other hother
  rw [h.get?_other other, hother]
  rintro rfl
  obtain ⟨old, hold⟩ := h.file_of_some _ hother
  contradiction

theorem Put.linkFree (h : before.Put after location content) (hbefore : before.LinkFree) :
    after.LinkFree := by
  intro other target hlink
  by_cases heq : other = location
  · rw [heq, h.get?_self] at hlink
    simp at hlink
  · exact hbefore other target (h.get?_other other heq ▸ hlink)

namespace OutputsOnly

theorem get?_eq (h : before.OutputsOnly after) (hname : leadsToFeature location = true) :
    after.get? location = before.get? location := by
  rcases h location with heq | ⟨hnot, -⟩
  · exact heq
  · simp [hname] at hnot

theorem directoriesWithin (h : before.OutputsOnly after) : before.DirectoriesWithin after := by
  intro location hlocation
  rcases h location with heq | ⟨-, -, hfile⟩
  · rw [heq, hlocation]
  · obtain ⟨old, hold⟩ := hfile _ hlocation
    contradiction

theorem directoriesWithin_symm (h : before.OutputsOnly after) :
    after.DirectoriesWithin before := by
  intro location hlocation
  rcases h location with heq | ⟨-, ⟨content, hfile⟩, -⟩
  · rw [← heq, hlocation]
  · simp [hlocation] at hfile

theorem linkFree (h : before.OutputsOnly after) (hbefore : before.LinkFree) :
    after.LinkFree := by
  intro location target hlink
  rcases h location with heq | ⟨-, ⟨content, hfile⟩, -⟩
  · exact hbefore location target (heq ▸ hlink)
  · simp [hlink] at hfile

/-- A path that ends in the name of a feature file leads to the same file as before. -/
theorem find_iff (h : before.OutputsOnly after) (hbefore : before.LinkFree)
    (hcwd : before.get? cwd = some .directory) (hpath : path.IsFeatureFile) (goal : Goal) :
    after.find cwd goal path = .ok (location, .file content) ↔
      before.find cwd goal path = .ok (location, .file content) := by
  have hafter := h.linkFree hbefore
  obtain ⟨name, hname, hfeature⟩ := hpath
  have hfeaturePlace {fs : FileSystem} (hfs : fs.LinkFree) (hcwd : fs.get? cwd = some .directory)
      (hfind : fs.find cwd goal path = .ok (location, .file content)) :
      leadsToFeature location = true := by
    obtain ⟨found, hlast, hfound⟩ := fileName?_of_find hfs hcwd hfind
    rw [hname] at hfound
    rwa [leadsToFeature_of_getLast? hlast, ← Option.some.inj hfound]
  constructor
  · intro hfind
    have hplace := hfeaturePlace hafter (h.directoriesWithin _ hcwd) hfind
    obtain ⟨hlocate, hfile⟩ := find_eq_ok_iff.mp hfind
    exact find_eq_ok_iff.mpr ⟨locate_mono hafter hbefore h.directoriesWithin_symm id hlocate,
      h.get?_eq hplace ▸ hfile⟩
  · intro hfind
    have hplace := hfeaturePlace hbefore hcwd hfind
    obtain ⟨hlocate, hfile⟩ := find_eq_ok_iff.mp hfind
    exact find_eq_ok_iff.mpr ⟨locate_mono hbefore hafter h.directoriesWithin id hlocate,
      (h.get?_eq hplace).trans hfile⟩

end OutputsOnly

namespace DirectoriesOnly

theorem refl (fs : FileSystem) : fs.DirectoriesOnly fs :=
  fun _ => .inl rfl

theorem trans (hfirst : before.DirectoriesOnly middle) (hsecond : middle.DirectoriesOnly after) :
    before.DirectoriesOnly after := by
  intro location
  rcases hfirst location with heq | ⟨hnone, hmade⟩
  · rw [← heq]
    exact hsecond location
  · refine .inr ⟨hnone, ?_⟩
    rcases hsecond location with heq | ⟨hnot, -⟩
    · rw [heq, hmade]
    · simp [hmade] at hnot

theorem directoriesWithin (h : before.DirectoriesOnly after) : before.DirectoriesWithin after := by
  intro location hlocation
  rcases h location with heq | ⟨-, hmade⟩
  · rw [heq, hlocation]
  · exact hmade

theorem linkFree (h : before.DirectoriesOnly after) (hbefore : before.LinkFree) :
    after.LinkFree := by
  intro location target hlink
  rcases h location with heq | ⟨-, hmade⟩
  · exact hbefore location target (heq ▸ hlink)
  · simp [hmade] at hlink

theorem get?_file_iff (h : before.DirectoriesOnly after) :
    after.get? location = some (.file content) ↔
      before.get? location = some (.file content) := by
  rcases h location with heq | ⟨hnone, hmade⟩
  · rw [heq]
  · simp [hnone, hmade]

end DirectoriesOnly

theorem put_of_writeFile (hfs : fs.LinkFree) (hcwd : fs.get? cwd = some .directory)
    (h : fs.writeFile cwd path content = .ok after) :
    ∃ location, fs.locate cwd .file path path.lookupComponents = .ok location ∧
      fs.Put after location content := by
  unfold writeFile at h
  split at h
  · contradiction
  rename_i location hlocate
  refine ⟨location, hlocate, ?_⟩
  split at h
  · rename_i habsent
    obtain rfl := Except.ok.inj h
    have hadd := get?_add (.file content) habsent (locate_place hfs hcwd hlocate).1
    exact ⟨by simp [hadd], fun other hother => by simp [hadd, hother], by simp [habsent]⟩
  · rename_i old hold
    obtain rfl := Except.ok.inj h
    have hset := get?_setContent content hold
    exact ⟨by simp [hset], fun other hother => by simp [hset, hother], by simp [hold]⟩
  · contradiction

theorem find_of_writeFile (hfs : fs.LinkFree) (hcwd : fs.get? cwd = some .directory)
    (h : fs.writeFile cwd path content = .ok after) :
    ∃ location, fs.Put after location content ∧
      after.find cwd .target path = .ok (location, .file content) := by
  obtain ⟨location, hlocate, hput⟩ := put_of_writeFile hfs hcwd h
  refine ⟨location, hput, find_eq_ok_iff.mpr ⟨?_, hput.get?_self⟩⟩
  exact locate_mono hfs (hput.linkFree hfs) hput.directoriesWithin (fun h => by cases h) hlocate

theorem Put.find_other {other : Location} {old : Bytes} (h : fs.Put after location content)
    (hfs : fs.LinkFree) (hother : other ≠ location)
    (hfind : fs.find cwd .target path = .ok (other, .file old)) :
    after.find cwd .target path = .ok (other, .file old) := by
  obtain ⟨hlocate, hfile⟩ := find_eq_ok_iff.mp hfind
  exact find_eq_ok_iff.mpr ⟨locate_mono hfs (h.linkFree hfs) h.directoriesWithin id hlocate,
    (h.get?_other other hother).trans hfile⟩

theorem directoriesOnly_add (fs : FileSystem) (location : Location) :
    fs.DirectoriesOnly (fs.add location .directory) := by
  intro other
  by_cases h : fs.get? location = none ∧ fs.get? location.dropLast = some .directory
  · rw [get?_add .directory h.1 h.2]
    split
    next heq => exact .inr ⟨heq ▸ h.1, rfl⟩
    next => exact .inl rfl
  · rw [add_of_no_room h]
    exact .inl rfl

theorem directoriesOnly_create (h : fs.create cwd path .directory = .ok after) :
    fs.DirectoriesOnly after := by
  unfold create at h
  split at h
  · contradiction
  split at h
  · contradiction
  obtain rfl := Except.ok.inj h
  exact directoriesOnly_add fs _

theorem directoriesOnly_createFirst (fs : FileSystem) (cwd : Location) (paths : List Path) :
    fs.DirectoriesOnly (fs.createFirst cwd paths).1 := by
  induction paths with
  | nil => exact .refl fs
  | cons path above ih =>
      rw [createFirst]
      split
      · rename_i made hmade
        exact directoriesOnly_create hmade
      · split
        · rename_i partly e heq
          exact heq ▸ ih
        · rename_i partly heq
          have hpartly : fs.DirectoriesOnly partly := by simpa [heq] using ih
          split
          · rename_i made hmade
            exact hpartly.trans (directoriesOnly_create hmade)
          · exact hpartly
      · exact .refl fs

theorem createDirectories_name {name : Name} (hcwd : fs.get? cwd = some .directory)
    (hmissing : fs.get? (cwd ++ [name]) = none)
    (hnul : '\x00' ∉ name.val) (hlimit : name.val.byteCount ≤ nameLimit) :
    fs.createDirectories cwd name.val = (fs.add (cwd ++ [name]) .directory, none) := by
  have hlocate : fs.locate cwd .entry name.val [.name name] = .ok (cwd ++ [name]) :=
    locate_name hcwd hnul hlimit (by simp [hmissing])
  have hcreate : fs.create cwd name.val .directory = .ok (fs.add (cwd ++ [name]) .directory) := by
    rw [create, Path.components_of_isName name.property]
    simp only [hlocate, hmissing]
  rw [createDirectories, Path.withAncestors_of_isName name.property, createFirst, hcreate]

theorem directoriesOnly_createDirectories (fs : FileSystem) (cwd : Location) (path : Path) :
    fs.DirectoriesOnly (fs.createDirectories cwd path).1 :=
  directoriesOnly_createFirst fs cwd path.withAncestors

end FileSystem

end FeatureMarkdown
