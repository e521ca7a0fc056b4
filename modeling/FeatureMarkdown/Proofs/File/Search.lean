import FeatureMarkdown.Proofs.File.Kept
import FeatureMarkdown.Proofs.Text.Utf8Order

/-!
What a search finds: the regular files with names of the form `stem.feature` to which directories
lead, each once, in the order of the bytes of their names. Links do not count, except one at the
root. A search that goes down fails instead if it comes to a directory whose path is too long.
-/

namespace FeatureMarkdown

theorem Path.isFeatureName_iff {name : Text} :
    isFeatureName name = true ↔ ∃ stem, stem ≠ [] ∧ name = stem ++ ".feature".toList := by
  simp only [isFeatureName, Bool.and_eq_true, List.isSuffixOf_iff_suffix, decide_eq_true_eq]
  constructor
  · rintro ⟨⟨stem, rfl⟩, hne⟩
    exact ⟨stem, fun hstem => hne (by rw [hstem, List.nil_append]), rfl⟩
  · rintro ⟨stem, hstem, rfl⟩
    exact ⟨List.suffix_append stem _, fun h => hstem (List.append_left_eq_self.mp h)⟩

namespace FileSystem

variable {fs : FileSystem} {cwd root location here : Location} {path : Path} {recursive : Bool}
  {way : List Name} {enter enter' : Location → List Component → Except FileError Location}

/-- The place is the location itself, or a link stands there. -/
def IsOrLinks (fs : FileSystem) (place location : Location) : Prop :=
  place = location ∨ ∃ target, fs.get? place = some (.link target)

/-- A path that leads somewhere names an entry, which is what it leads to or a link. -/
theorem walkWith_entry_of_target (henter : ∀ start components location,
      enter start components = .ok location →
        ∃ place, enter' start components = .ok place ∧ fs.IsOrLinks place location)
    {components : List Component} (h : fs.walkWith .target enter here components = .ok location) :
    ∃ place, fs.walkWith .entry enter' here components = .ok place ∧
      fs.IsOrLinks place location := by
  induction components generalizing here with
  | nil => exact ⟨here, rfl, .inl (Except.ok.inj h)⟩
  | cons component rest ih =>
      cases component with
      | current => exact ih h
      | slash => exact ih h
      | parent => exact ih h
      | name name =>
          rw [walkWith] at h ⊢
          simp only [reduceCtorEq, decide_false, Bool.false_and, Bool.false_eq_true, if_false,
            decide_true, Bool.and_true, Bool.and_false, decide_eq_true_eq] at h ⊢
          split at h
          · contradiction
          next hlimit =>
          rw [if_neg hlimit]
          cases hnext : fs.get? (here ++ [name]) with
          | none =>
              rw [hnext] at h
              exact ⟨location, h, .inl rfl⟩
          | some entry =>
              rw [hnext] at h
              cases entry with
              | directory => exact ih h
              | file content => exact ⟨location, h, .inl rfl⟩
              | link target =>
                  dsimp only at h ⊢
                  -- Only a link at the end of the path makes a difference: it is followed or not.
                  by_cases hrest : rest = []
                  · rw [if_pos hrest]
                    exact ⟨_, rfl, .inr ⟨target, hnext⟩⟩
                  · rw [if_neg hrest]
                    split at h
                    · contradiction
                    · next htarget =>
                      rw [if_neg htarget]
                      exact henter _ _ _ h

theorem walk_entry_of_target (links : Nat) {components : List Component}
    (h : fs.walk .target links here components = .ok location) :
    ∃ place, fs.walk .entry links here components = .ok place ∧ fs.IsOrLinks place location := by
  induction links generalizing here components location with
  | zero => exact walkWith_entry_of_target (fun _ _ _ hnone => by contradiction) h
  | succ links ih => exact walkWith_entry_of_target (fun _ _ _ hwalk => ih hwalk) h

theorem locate_entry_of_target {components : List Component}
    (h : fs.locate cwd .target path components = .ok location) :
    ∃ place, fs.locate cwd .entry path components = .ok place ∧ fs.IsOrLinks place location := by
  obtain ⟨hempty, hnul, hlimit, hstarts, htarget⟩ := locate_eq_ok_iff.mp h
  obtain ⟨place, hwalk, hplace⟩ := walk_entry_of_target linkLimit htarget
  exact ⟨place, locate_eq_ok_iff.mpr ⟨hempty, hnul, hlimit, hstarts, hwalk⟩, hplace⟩

/-- The search over a directory, or over a link to one, is the search below it. -/
theorem findFeatures_of_directory (h : fs.find cwd .target path = .ok (root, .directory))
    (recursive : Bool) :
    fs.findFeatures cwd path recursive = fs.featuresBelow path root recursive := by
  obtain ⟨hlocate, hdirectory⟩ := find_eq_ok_iff.mp h
  obtain ⟨place, hplace, rfl | ⟨target, hlink⟩⟩ := locate_entry_of_target hlocate
  · have hentry : fs.find cwd .entry path = .ok (place, .directory) :=
      find_eq_ok_iff.mpr ⟨hplace, hdirectory⟩
    simp only [findFeatures, hentry]
  · have hentry : fs.find cwd .entry path = .ok (place, .link target) :=
      find_eq_ok_iff.mpr ⟨hplace, hlink⟩
    simp only [findFeatures, hentry, h]

/-- The way leads from the root, through directories that are no links, to a regular file with a
name of the form `stem.feature`. -/
structure IsFeatureWay (fs : FileSystem) (root : Location) (recursive : Bool) (way : List Name) :
    Prop where
  ne_nil : way ≠ []
  length_eq_one : recursive = false → way.length = 1
  directories : ∀ above, above <+: way → above ≠ way → fs.get? (root ++ above) = some .directory
  file : ∃ content, fs.get? (root ++ way) = some (.file content)
  name : ∃ name stem, way.getLast? = some name ∧ stem ≠ [] ∧ name.val = stem ++ ".feature".toList

theorem inReach_iff :
    inReach recursive way = true ↔ way ≠ [] ∧ (recursive = false → way.length = 1) := by
  match way with
  | [] => simp [inReach]
  | [name] => simp [inReach]
  | first :: second :: rest => cases recursive <;> simp [inReach]

theorem leadsToFeature_iff :
    leadsToFeature way = true ↔
      ∃ name stem, way.getLast? = some name ∧ stem ≠ [] ∧
        name.val = stem ++ ".feature".toList := by
  cases hlast : way.getLast? with
  | none => simp [leadsToFeature, hlast]
  | some name => simp [leadsToFeature, hlast, Path.isFeatureName_iff]

theorem mem_featureWays_iff_isFeatureWay :
    way ∈ fs.featureWays root recursive ↔ fs.IsFeatureWay root recursive way := by
  rw [mem_featureWays_iff, inReach_iff, leadsToFeature_iff]
  constructor
  · rintro ⟨⟨hne, hlength⟩, hname, content, hfile⟩
    refine ⟨hne, hlength, ?_, ⟨content, hfile⟩, hname⟩
    rintro above ⟨rest, rfl⟩ hproper
    rw [← List.append_assoc] at hfile
    exact get?_of_append hfile fun hrest => hproper (by simp [hrest])
  · intro h
    exact ⟨⟨h.ne_nil, h.length_eq_one⟩, h.name, h.file⟩

theorem lt_of_wayLE {first second : List Name} (hle : wayLE first second = true)
    (hne : first ≠ second) : first.map Subtype.val < second.map Subtype.val := by
  refine lt_of_le_of_ne (wayLE_iff.mp hle) fun heq => hne ?_
  exact List.map_injective_iff.mpr Subtype.val_injective heq

/-- The ways are in the order of the bytes of their names, and so are the paths below a root. -/
theorem moves_joinWay_lt {first second : List Name} (path : Path)
    (h : first.map Subtype.val < second.map Subtype.val) :
    (joinWay path first).moves.map Text.toBytes < (joinWay path second).moves.map Text.toBytes := by
  rw [moves_joinWay, moves_joinWay, List.map_append, List.map_append]
  exact List.append_left_lt (List.map_lt (fun _ _ => Text.toBytes_lt_toBytes) h)

/-- The files are those to which feature ways lead, each once, in the order of the bytes of their
names. -/
structure ListsFeatures (fs : FileSystem) (path : Path) (root : Location) (recursive : Bool)
    (files : List Path) : Prop where
  mem_iff : ∀ file, file ∈ files ↔
    ∃ way, fs.IsFeatureWay root recursive way ∧ file = joinWay path way
  nodup : files.Nodup
  increasing : files.Pairwise fun file later =>
    file.moves.map Text.toBytes < later.moves.map Text.toBytes

theorem listsFeatures_featureWays (fs : FileSystem) (path : Path) (root : Location)
    (recursive : Bool) :
    fs.ListsFeatures path root recursive
      ((fs.featureWays root recursive).map (joinWay path)) := by
  have hways : (fs.featureWays root recursive).Pairwise fun way later =>
      way.map Subtype.val < later.map Subtype.val := by
    refine ((pairwise_featureWays root recursive).and
      (nodup_featureWays fs root recursive)).imp ?_
    rintro way later ⟨hle, hne⟩
    exact lt_of_wayLE hle hne
  have hincreasing : ((fs.featureWays root recursive).map (joinWay path)).Pairwise
      fun file later => file.moves.map Text.toBytes < later.moves.map Text.toBytes :=
    List.pairwise_map.mpr (hways.imp fun hlt => moves_joinWay_lt path hlt)
  refine ⟨fun file => ?_, hincreasing.imp ?_, hincreasing⟩
  · simp only [List.mem_map, mem_featureWays_iff_isFeatureWay, eq_comm]
  · rintro file later hlt rfl
    exact List.lt_irrefl _ hlt

/-- A search that goes down comes to a directory whose path is too long. -/
def IsUnlistable (fs : FileSystem) (path : Path) (root : Location) (recursive : Bool)
    (way : List Name) : Prop :=
  recursive = true ∧ way ≠ [] ∧ fs.get? (root ++ way) = some .directory ∧
    pathLimit < (joinWay path way).byteCount

theorem featuresBelow_eq_error (h : ∃ way, fs.IsUnlistable path root recursive way) :
    ∃ way, fs.IsUnlistable path root recursive way ∧
      fs.featuresBelow path root recursive = .error (joinWay path way, .nameTooLong) := by
  cases hunlistable : fs.unlistable? path root recursive with
  | none =>
      obtain ⟨way, hrecursive, hne, hdirectory, hlong⟩ := h
      have hshort := unlistable?_eq_none_iff.mp hunlistable hrecursive way
        (mem_directoryWays_iff.mpr ⟨hne, hdirectory⟩)
      exact absurd hlong (Nat.not_lt.mpr hshort)
  | some found =>
      obtain ⟨hrecursive, way, hway, rfl, hlong, -⟩ := unlistable?_eq_some_iff.mp hunlistable
      obtain ⟨hne, hdirectory⟩ := mem_directoryWays_iff.mp hway
      exact ⟨way, ⟨hrecursive, hne, hdirectory, hlong⟩, by simp only [featuresBelow, hunlistable]⟩

theorem featuresBelow_eq_ok_of_listable (h : ¬ ∃ way, fs.IsUnlistable path root recursive way) :
    fs.featuresBelow path root recursive =
      .ok ((fs.featureWays root recursive).map (joinWay path)) := by
  have hunlistable : fs.unlistable? path root recursive = none := by
    refine unlistable?_eq_none_iff.mpr fun hrecursive way hway => Nat.not_lt.mp fun hlong => ?_
    obtain ⟨hne, hdirectory⟩ := mem_directoryWays_iff.mp hway
    exact h ⟨way, hrecursive, hne, hdirectory, hlong⟩
  simp only [featuresBelow, hunlistable]

theorem get?_of_perm {listing : FileSystem} (h : listing.entries.Perm fs.entries)
    (location : Location) : listing.get? location = fs.get? location := by
  apply Option.ext
  intro entry
  rw [get?_eq_some_iff, get?_eq_some_iff, h.mem_iff]

/-- A search over a directory or over a link to one fails if it goes down to a directory whose path
is too long, and only then. Otherwise it finds the regular files that are called `stem.feature` and
to which directories lead, each once and in the order of the bytes of their names, in whatever order
the entries of the directories are listed. -/
theorem findFeatures_lists_features (recursive : Bool)
    (hroot : fs.find cwd .target path = .ok (root, .directory)) :
    ((∃ way, fs.IsUnlistable path root recursive way) →
      ∃ way, fs.IsUnlistable path root recursive way ∧
        fs.findFeatures cwd path recursive = .error (joinWay path way, .nameTooLong)) ∧
    ((¬ ∃ way, fs.IsUnlistable path root recursive way) →
      ∃ files, fs.findFeatures cwd path recursive = .ok files ∧
        fs.ListsFeatures path root recursive files ∧
        ∀ listing : FileSystem, listing.entries.Perm fs.entries →
          listing.findFeatures cwd path recursive = .ok files) := by
  constructor
  · intro hunlistable
    obtain ⟨way, hway, hfailed⟩ := featuresBelow_eq_error hunlistable
    exact ⟨way, hway, (findFeatures_of_directory hroot recursive).trans hfailed⟩
  · intro hlistable
    refine ⟨_, (findFeatures_of_directory hroot recursive).trans
      (featuresBelow_eq_ok_of_listable hlistable),
      listsFeatures_featureWays fs path root recursive, fun listing hlisting => ?_⟩
    have hsame := get?_of_perm hlisting
    have hroot' : listing.find cwd .target path = .ok (root, .directory) :=
      (find_congr hsame).trans hroot
    have hlistable' : ¬ ∃ way, listing.IsUnlistable path root recursive way := by
      simpa only [IsUnlistable, hsame] using hlistable
    have hways : listing.featureWays root recursive = fs.featureWays root recursive :=
      featureWays_congr fun location content => by rw [hsame]
    rw [findFeatures_of_directory hroot' recursive, featuresBelow_eq_ok_of_listable hlistable',
      hways]

def tangledFiles : FileSystem :=
  (((((((((FileSystem.empty.add [⟨['u'], by decide⟩] .directory).add
    [⟨['u'], by decide⟩, ⟨['b'], by decide⟩] .directory).add
    [⟨['u'], by decide⟩, ⟨"b.feature".toList, by decide⟩] (.file [])).add
    [⟨['u'], by decide⟩, ⟨".feature".toList, by decide⟩] (.file [])).add
    [⟨['u'], by decide⟩, ⟨['b'], by decide⟩, ⟨"z.feature".toList, by decide⟩] (.file [])).add
    [⟨['u'], by decide⟩, ⟨['b'], by decide⟩, ⟨"up".toList, by decide⟩] (.link "..".toList)).add
    [⟨['u'], by decide⟩, ⟨"b-c".toList, by decide⟩] .directory).add
    [⟨['u'], by decide⟩, ⟨"b-c".toList, by decide⟩, ⟨"z.feature".toList, by decide⟩]
      (.file [])).add
    [⟨['u'], by decide⟩, ⟨"d.feature".toList, by decide⟩] .directory).add
    [⟨['r'], by decide⟩] (.link ['u'])

/-- The root is a link, and another link leads from below it back up. As a string `r/b-c/z.feature`
comes first, since `-` comes before `/`. -/
theorem findFeatures_lists_features_behind_link :
    let path : Path := ['r']
    let root : Location := [⟨['u'], by decide⟩]
    let files : List Path :=
      ["r/b/z.feature".toList, "r/b-c/z.feature".toList, "r/b.feature".toList]
    tangledFiles.find [] .target path = .ok (root, .directory) ∧
      (¬ ∃ way, tangledFiles.IsUnlistable path root true way) ∧
      tangledFiles.findFeatures [] path true = .ok files ∧
      tangledFiles.ListsFeatures path root true files := by
  intro path root files
  have hroot : tangledFiles.find [] .target path = .ok (root, .directory) := by decide +kernel
  have hfound : tangledFiles.findFeatures [] path true = .ok files := by decide +kernel
  obtain ⟨hfails, hfinds⟩ := findFeatures_lists_features true hroot
  have hlistable : ¬ ∃ way, tangledFiles.IsUnlistable path root true way := by
    intro hunlistable
    obtain ⟨way, -, hfailed⟩ := hfails hunlistable
    cases hfound.symm.trans hfailed
  obtain ⟨others, hothers, hlists, -⟩ := hfinds hlistable
  obtain rfl : files = others := Except.ok.inj (hfound.symm.trans hothers)
  exact ⟨hroot, hlistable, hfound, hlists⟩

/-- The path `././…` is as long as a path may be, so that the search cannot go into the directory
`d`, and fails although there is no feature file. -/
theorem not_findFeatures_of_longest_root :
    let path : Path := '.' :: (List.replicate 2047 ['/', '.']).flatten
    let fs := FileSystem.empty.add [⟨['d'], by decide⟩] .directory
    fs.find [] .target path = .ok ([], .directory) ∧ fs.ListsFeatures path [] true [] ∧
      (∃ found, fs.findFeatures [] path true = .error (found, .nameTooLong)) ∧
      ¬ ∃ files, fs.findFeatures [] path true = .ok files ∧
        fs.ListsFeatures path [] true files := by
  intro path fs
  have hroot : fs.find [] .target path = .ok ([], .directory) := by decide +kernel
  have hunlistable : fs.IsUnlistable path [] true [⟨['d'], by decide⟩] :=
    ⟨rfl, by simp, by decide +kernel, by decide +kernel⟩
  obtain ⟨way, -, hfailed⟩ := featuresBelow_eq_error ⟨_, hunlistable⟩
  rw [← findFeatures_of_directory hroot true] at hfailed
  have hways : fs.featureWays [] true = [] := by decide +kernel
  have hlists := listsFeatures_featureWays fs path [] true
  rw [hways] at hlists
  refine ⟨hroot, hlists, ⟨_, hfailed⟩, ?_⟩
  rintro ⟨files, hfiles, -⟩
  cases hfailed.symm.trans hfiles

end FileSystem

end FeatureMarkdown
