import FeatureMarkdown.Proofs.File.Frames
import FeatureMarkdown.Proofs.File.Ways

namespace FeatureMarkdown

namespace FileSystem

/-- All directories and all feature files are still there. -/
def Keeps (before after : FileSystem) : Prop :=
  ∀ location entry, before.get? location = some entry →
    entry = .directory ∨ leadsToFeature location = true → after.get? location = some entry

variable {fs before middle after : FileSystem} {cwd root location : Location} {path : Path}
  {goal : Goal} {recursive : Bool} {way : List Name}

namespace Keeps

theorem refl (fs : FileSystem) : fs.Keeps fs :=
  fun _ _ h _ => h

theorem trans (hfirst : before.Keeps middle) (hsecond : middle.Keeps after) :
    before.Keeps after :=
  fun location entry h hkept => hsecond location entry (hfirst location entry h hkept) hkept

theorem directoriesWithin (h : before.Keeps after) : before.DirectoriesWithin after :=
  fun location hdirectory => h location .directory hdirectory (.inl rfl)

end Keeps

theorem DirectoriesOnly.keeps (h : before.DirectoriesOnly after) : before.Keeps after := by
  intro location entry hentry _
  rcases h location with heq | ⟨hnone, -⟩
  · exact heq.trans hentry
  · simp [hentry] at hnone

theorem OutputsOnly.keeps (h : before.OutputsOnly after) : before.Keeps after := by
  intro location entry hentry hkept
  rcases h location with heq | ⟨hname, -, hfile⟩
  · exact heq.trans hentry
  · obtain ⟨old, rfl⟩ := hfile entry hentry
    rcases hkept with hdirectory | hfeature
    · contradiction
    · simp [hname] at hfeature

section Walk

variable {enter : Location → List Component → Except FileError Location} {here middle : Location}

theorem walkWith_directory {name : Name} {rest : List Component}
    (hslash : ¬ (goal = .file ∧ rest = [.slash])) (hlimit : name.val.byteCount ≤ nameLimit)
    (hnext : fs.get? (here ++ [name]) = some .directory) :
    fs.walkWith goal enter here (.name name :: rest) =
      fs.walkWith goal enter (here ++ [name]) rest := by
  rw [walkWith]
  simp [hslash, Nat.not_lt.mpr hlimit, hnext]

/-- A walk that has come to a directory goes on from there. -/
theorem walkWith_append (hfs : fs.LinkFree) (hgoal : goal ≠ .file) {components : List Component}
    (hwalk : fs.walkWith goal enter here components = .ok middle)
    (hmiddle : fs.get? middle = some .directory) (rest : List Component) :
    fs.walkWith goal enter here (components ++ rest) = fs.walkWith goal enter middle rest := by
  induction components generalizing here with
  | nil =>
      obtain rfl : here = middle := Except.ok.inj hwalk
      rfl
  | cons component components ih =>
      cases component with
      | current => exact ih hwalk
      | slash => exact ih hwalk
      | parent => exact ih hwalk
      | name name =>
          obtain ⟨-, hlimit, hstep⟩ := (walkWith_name_eq_ok_iff hfs).mp hwalk
          rcases hstep with ⟨hnext, hrest⟩ | ⟨hnext, -, rfl⟩
          · rw [List.cons_append, walkWith_directory (fun h => hgoal h.1) hlimit hnext]
            exact ih hrest
          · exact absurd hmiddle hnext

theorem walkWith_of_slash (hfs : fs.LinkFree) (hgoal : goal ≠ .file) {components : List Component}
    (hwalk : fs.walkWith goal enter here (components ++ [.slash]) = .ok middle) :
    fs.walkWith goal enter here components = .ok middle := by
  induction components generalizing here with
  | nil => exact hwalk
  | cons component components ih =>
      cases component with
      | current => exact ih hwalk
      | slash => exact ih hwalk
      | parent => exact ih hwalk
      | name name =>
          obtain ⟨-, hlimit, hstep⟩ := (walkWith_name_eq_ok_iff hfs).mp hwalk
          rcases hstep with ⟨hnext, hrest⟩ | ⟨-, hempty, -⟩
          · rw [walkWith_directory (fun h => hgoal h.1) hlimit hnext]
            exact ih hrest
          · simp at hempty

theorem walkWith_way_eq_ok (hfs : fs.LinkFree)
    (hwalk : fs.walkWith goal enter here (way.map .name) = .ok location) :
    location = here ++ way := by
  induction way generalizing here with
  | nil => simpa [walkWith] using (Except.ok.inj hwalk).symm
  | cons name way ih =>
      obtain ⟨-, -, hstep⟩ := (walkWith_name_eq_ok_iff hfs).mp hwalk
      rcases hstep with ⟨-, hrest⟩ | ⟨-, hempty, rfl⟩
      · simpa using ih hrest
      · simp [List.map_eq_nil_iff.mp hempty]

/-- Walks down the same way end alike, also in the same failure, if the same stands on the way. -/
theorem walkWith_way_congr {enter' : Location → List Component → Except FileError Location}
    (hbefore : before.LinkFree)
    (hsame : ∀ below, below ≠ [] → below <+: way →
      after.get? (here ++ below) = before.get? (here ++ below)) :
    after.walkWith goal enter' here (way.map .name) =
      before.walkWith goal enter here (way.map .name) := by
  induction way generalizing here with
  | nil => rfl
  | cons name way ih =>
      have hslash : way.map Component.name ≠ [.slash] := by
        cases way <;> simp
      have hnext := hsame [name] (by simp) ⟨way, rfl⟩
      have hbehind : ∀ below, below ≠ [] → below <+: way →
          after.get? (here ++ [name] ++ below) = before.get? (here ++ [name] ++ below) := by
        intro below _ hbelow
        have hlonger := hsame (name :: below) (by simp) (List.cons_prefix_cons.mpr ⟨rfl, hbelow⟩)
        simpa using hlonger
      have hrest := ih hbehind
      rw [List.map_cons, walkWith, walkWith]
      simp only [hslash, decide_false, Bool.and_false, Bool.false_eq_true, if_false, hnext]
      split
      · rfl
      · cases hentry : before.get? (here ++ [name]) with
        | none => rfl
        | some entry =>
            cases entry with
            | file content => rfl
            | directory => exact hrest
            | link target => exact absurd hentry (hbefore _ _)

end Walk

theorem isAbsolute_joinWay (hpath : path ≠ []) (way : List Name) :
    (joinWay path way).isAbsolute = path.isAbsolute := by
  induction way generalizing path with
  | nil => rfl
  | cons name way ih =>
      exact (ih (Path.join_ne_nil name.property path)).trans
        (Path.isAbsolute_join hpath name.property)

theorem lookupComponents_joinWay (path : Path) (hway : way ≠ []) :
    (joinWay path way).lookupComponents = path.components ++ way.map .name := by
  have hcomponents (path : Path) (way : List Name) :
      (joinWay path way).components = path.components ++ way.map .name := by
    induction way generalizing path with
    | nil => simp [joinWay]
    | cons name way ih =>
        have hstep : joinWay path (name :: way) = joinWay (path.join name.val) way := rfl
        rw [hstep, ih, Path.components_join name.property, List.map_cons, List.append_assoc]
        rfl
  have hslash : (joinWay path way).endsInSlash = false := by
    obtain ⟨front, name, rfl⟩ := (List.eq_nil_or_concat way).resolve_left hway
    rw [List.concat_eq_append, joinWay, List.foldl_append]
    exact Path.endsInSlash_join name.property _
  rw [Path.lookupComponents, hcomponents, hslash]
  simp

theorem ne_nil_of_find {found : Location × Entry} (h : fs.find cwd goal path = .ok found) :
    path ≠ [] := by
  rintro rfl
  simp [find, locate] at h

/-- The path of a directory leads there without the slash at its end as well. -/
theorem walk_components (hfs : fs.LinkFree)
    (hfind : fs.find cwd .entry path = .ok (root, .directory))
    (enter : Location → List Component → Except FileError Location) :
    fs.walkWith .target enter (if path.isAbsolute then [] else cwd) path.components = .ok root := by
  obtain ⟨hlocate, -⟩ := find_eq_ok_iff.mp hfind
  obtain ⟨enter', henter⟩ := walk_eq_walkWith fs .entry linkLimit
  have hentry := locate_eq_ok hlocate
  rw [henter] at hentry
  generalize (if path.isAbsolute then [] else cwd) = start at hentry ⊢
  have hwalk : fs.walkWith .target enter start path.lookupComponents = .ok root :=
    walkWith_mono hfs hfs (fun _ h => h) (fun h => by cases h) hentry
  rw [Path.lookupComponents] at hwalk
  cases hslash : path.endsInSlash with
  | true =>
      rw [hslash] at hwalk
      exact walkWith_of_slash hfs (by simp) hwalk
  | false => simpa [hslash] using hwalk

/-- Below a directory that both file systems have, a path leads to the same in both, or fails in
the same way, if the same stands on the way. -/
theorem find_joinWay_congr (hbefore : before.LinkFree) (hafter : after.LinkFree)
    (hfind : before.find cwd .entry path = .ok (root, .directory))
    (hfind' : after.find cwd .entry path = .ok (root, .directory)) (hway : way ≠ [])
    (hsame : ∀ below, below ≠ [] → below <+: way →
      after.get? (root ++ below) = before.get? (root ++ below)) :
    after.find cwd .target (joinWay path way) = before.find cwd .target (joinWay path way) := by
  obtain ⟨enter, henter⟩ := walk_eq_walkWith before .target linkLimit
  obtain ⟨enter', henter'⟩ := walk_eq_walkWith after .target linkLimit
  -- The front of the path may lead to the root in different ways; from the root on the way is one.
  have hpath := ne_nil_of_find hfind
  have hroot := (find_eq_ok_iff.mp hfind).2
  have hroot' := (find_eq_ok_iff.mp hfind').2
  have hstart := isAbsolute_joinWay hpath way
  have hwalk : before.walk .target linkLimit (if (joinWay path way).isAbsolute then [] else cwd)
      (joinWay path way).lookupComponents = before.walkWith .target enter root (way.map .name) := by
    rw [henter, hstart, lookupComponents_joinWay path hway]
    exact walkWith_append hbefore (by simp) (walk_components hbefore hfind enter) hroot _
  have hwalk' : after.walk .target linkLimit (if (joinWay path way).isAbsolute then [] else cwd)
      (joinWay path way).lookupComponents = before.walkWith .target enter root (way.map .name) := by
    rw [henter', hstart, lookupComponents_joinWay path hway,
      walkWith_append hafter (by simp) (walk_components hafter hfind' enter') hroot']
    exact walkWith_way_congr hbefore hsame
  have hlocate : after.locate cwd .target (joinWay path way) (joinWay path way).lookupComponents =
      before.locate cwd .target (joinWay path way) (joinWay path way).lookupComponents := by
    have hstarts := (starts_of_find hfind).of_isAbsolute_eq hstart
    have hstarts' := (starts_of_find hfind').of_isAbsolute_eq hstart
    rw [locate, locate, hwalk, hwalk', if_neg (not_not_intro hstarts),
      if_neg (not_not_intro hstarts')]
  rw [find, find, hlocate]
  cases hplace : before.locate cwd .target (joinWay path way)
      (joinWay path way).lookupComponents with
  | error e => rfl
  | ok location =>
      have hwalked := hwalk ▸ locate_eq_ok hplace
      obtain rfl := walkWith_way_eq_ok hbefore hwalked
      simp only [hsame way hway (List.prefix_refl way)]

/-- Above whatever is there stand directories. -/
theorem get?_of_append {above below : Location} {entry : Entry}
    (h : fs.get? (above ++ below) = some entry) (hbelow : below ≠ []) :
    fs.get? above = some .directory := by
  induction below using List.reverseRecOn generalizing entry with
  | nil => contradiction
  | append_singleton below name ih =>
      have hparent := get?_dropLast h
      rw [← List.append_assoc, List.dropLast_concat] at hparent
      cases below with
      | nil => simpa using hparent
      | cons first rest => exact ih hparent (by simp)

theorem Keeps.get?_of_prefix (h : before.Keeps after) {below : List Name} {content : Bytes}
    (hfile : before.get? (root ++ way) = some (.file content))
    (hfeature : leadsToFeature way = true) (hbelow : below <+: way) :
    after.get? (root ++ below) = before.get? (root ++ below) := by
  obtain ⟨rest, rfl⟩ := hbelow
  cases rest with
  | nil =>
      rw [List.append_nil] at hfeature hfile
      have hway := ne_nil_of_leadsToFeature hfeature
      have hplace : leadsToFeature (root ++ below) = true := by
        rwa [leadsToFeature, List.getLast?_append_of_ne_nil root hway]
      rw [hfile]
      exact h _ _ hfile (.inr hplace)
  | cons name rest =>
      rw [← List.append_assoc] at hfile
      have hdirectory := get?_of_append hfile (by simp)
      rw [hdirectory]
      exact h _ _ hdirectory (.inl rfl)

theorem Keeps.find_entry (h : before.Keeps after) (hbefore : before.LinkFree)
    (hafter : after.LinkFree) {entry : Entry} {wanted : Goal} (hwanted : wanted ≠ .file)
    (hfind : before.find cwd .entry path = .ok (location, entry))
    (hkept : entry = .directory ∨ leadsToFeature location = true) :
    after.find cwd wanted path = .ok (location, entry) := by
  obtain ⟨hlocate, hentry⟩ := find_eq_ok_iff.mp hfind
  refine find_eq_ok_iff.mpr ⟨?_, h location entry hentry hkept⟩
  exact locate_mono hbefore hafter h.directoriesWithin (fun hfile => absurd hfile hwanted) hlocate

theorem readText_congr (h : after.find cwd .target path = before.find cwd .target path) :
    after.readText cwd path = before.readText cwd path := by
  rw [readText, readText, h]

/-- A search comes to a directory, or to a file that is its root. -/
theorem findFeatures_of_find (hfs : fs.LinkFree) {found : Location × Entry}
    (h : fs.find cwd .entry path = .ok found) (recursive : Bool) :
    (∃ root, found = (root, .directory) ∧
      fs.findFeatures cwd path recursive = fs.featuresBelow path root recursive) ∨
    ∃ location content, found = (location, .file content) ∧
      fs.findFeatures cwd path recursive =
        .ok (if (path.fileName?.map Path.isFeatureName).getD false then [path] else []) := by
  obtain ⟨location, entry⟩ := found
  cases entry with
  | file content => exact .inr ⟨location, content, rfl, by simp only [findFeatures, h]⟩
  | directory => exact .inl ⟨location, rfl, by simp only [findFeatures, h]⟩
  | link target => exact absurd (find_eq_ok_iff.mp h).2 (hfs location target)

/-- The files that a search finds are read as before, as long as they and the directories stay. -/
theorem Keeps.readText_of_mem_findFeatures (h : before.Keeps after) (hbefore : before.LinkFree)
    (hafter : after.LinkFree) (hcwd : before.get? cwd = some .directory) {files : List Path}
    {file : Path} (hfound : before.findFeatures cwd path recursive = .ok files)
    (hfile : file ∈ files) : after.readText cwd file = before.readText cwd file := by
  apply readText_congr
  cases hfind : before.find cwd .entry path with
  | error e => simp [findFeatures, hfind] at hfound
  | ok found =>
      rcases findFeatures_of_find hbefore hfind recursive with
        ⟨root, rfl, hbelow⟩ | ⟨location, content, rfl, hsingle⟩
      · -- Not every file that is found can be read: its path may be too long, so that the reading
        -- fails before and after.
        obtain rfl := featuresBelow_eq_ok (hbelow ▸ hfound)
        obtain ⟨way, hway, rfl⟩ := List.mem_map.mp hfile
        obtain ⟨-, hfeature, content, hcontent⟩ := mem_featureWays_iff.mp hway
        have hne := ne_nil_of_leadsToFeature hfeature
        have hfind' : after.find cwd .entry path = .ok (root, .directory) :=
          h.find_entry hbefore hafter (by simp) hfind (.inl rfl)
        apply find_joinWay_congr hbefore hafter hfind hfind' hne
        intro below _ hbelow
        exact h.get?_of_prefix hcontent hfeature hbelow
      · rw [hsingle] at hfound
        obtain rfl := Except.ok.inj hfound
        split at hfile
        next hname =>
          obtain rfl := List.mem_singleton.mp hfile
          obtain ⟨name, hlast, hpath⟩ := fileName?_of_find hbefore hcwd hfind
          have hkept : leadsToFeature location = true := by
            rw [leadsToFeature_of_getLast? hlast]
            simpa [hpath] using hname
          have hself : before.find cwd .target file = .ok (location, .file content) :=
            (Keeps.refl before).find_entry hbefore hbefore (by simp) hfind (.inr hkept)
          have hother : after.find cwd .target file = .ok (location, .file content) :=
            h.find_entry hbefore hafter (by simp) hfind (.inr hkept)
          rw [hself, hother]
        next => contradiction

/-- After directories have been made a search ends as before, unless it comes to one of them whose
path is too long. -/
theorem DirectoriesOnly.featuresBelow_cases (h : before.DirectoriesOnly after) (path : Path)
    (root : Location) (recursive : Bool) :
    after.featuresBelow path root recursive = before.featuresBelow path root recursive ∨
    ∃ way, recursive = true ∧ before.get? (root ++ way) = none ∧
      after.get? (root ++ way) = some .directory ∧ pathLimit < (joinWay path way).byteCount ∧
      after.featuresBelow path root recursive = .error (joinWay path way, .nameTooLong) := by
  have hwithin : ∀ way ∈ before.directoryWays root, way ∈ after.directoryWays root := by
    intro way hway
    obtain ⟨hne, hdirectory⟩ := mem_directoryWays_iff.mp hway
    exact mem_directoryWays_iff.mpr ⟨hne, h.directoriesWithin _ hdirectory⟩
  cases hafter : after.unlistable? path root recursive with
  | none =>
      have hbefore : before.unlistable? path root recursive = none :=
        unlistable?_eq_none_iff.mpr fun hrecursive way hway =>
          unlistable?_eq_none_iff.mp hafter hrecursive way (hwithin way hway)
      have hways : after.featureWays root recursive = before.featureWays root recursive :=
        featureWays_congr fun _ _ => h.get?_file_iff
      exact .inl (by simp only [featuresBelow, hafter, hbefore, hways])
  | some found =>
      obtain ⟨hrecursive, way, hway, rfl, hlong, hleast⟩ := unlistable?_eq_some_iff.mp hafter
      obtain ⟨hne, hdirectory⟩ := mem_directoryWays_iff.mp hway
      rcases h (root ++ way) with heq | ⟨hnew, -⟩
      · have hold : way ∈ before.directoryWays root :=
          mem_directoryWays_iff.mpr ⟨hne, heq ▸ hdirectory⟩
        have hbefore : before.unlistable? path root recursive = some (joinWay path way) :=
          unlistable?_eq_some_iff.mpr ⟨hrecursive, way, hold, rfl, hlong,
            fun other hother => hleast other (hwithin other hother)⟩
        exact .inl (by simp only [featuresBelow, hafter, hbefore])
      · exact .inr ⟨way, hrecursive, hnew, hdirectory, hlong, by
          simp only [featuresBelow, hafter]⟩

theorem DirectoriesOnly.find_entry (h : before.DirectoriesOnly after) (hbefore : before.LinkFree)
    {found : Location × Entry} (hfind : before.find cwd .entry path = .ok found) :
    after.find cwd .entry path = .ok found := by
  obtain ⟨location, entry⟩ := found
  obtain ⟨hlocate, hentry⟩ := find_eq_ok_iff.mp hfind
  have hkept : after.get? location = some entry := by
    rcases h location with heq | ⟨hnone, -⟩
    · exact heq.trans hentry
    · simp [hentry] at hnone
  have hafter := h.linkFree hbefore
  exact find_eq_ok_iff.mpr
    ⟨locate_mono hbefore hafter h.directoriesWithin id hlocate, hkept⟩

/-- A path leads somewhere that it did not lead before only if something is new. -/
theorem DirectoriesOnly.exists_new_of_find (h : before.DirectoriesOnly after) {e : FileError}
    {found : Location × Entry} (hbefore : before.find cwd goal path = .error e)
    (hafter : after.find cwd goal path = .ok found) :
    ∃ location, before.get? location = none ∧ after.get? location = some .directory := by
  by_contra hnone
  have hsame : ∀ location, after.get? location = before.get? location := by
    intro location
    rcases h location with heq | hnew
    · exact heq
    · exact absurd ⟨location, hnew⟩ hnone
  rw [find_congr hsame, hbefore] at hafter
  contradiction

/-- A search from a path that leads somewhere ends as before, unless it comes to a directory that is
new and whose path is too long. -/
theorem DirectoriesOnly.findFeatures_cases (h : before.DirectoriesOnly after)
    (hbefore : before.LinkFree) {found : Location × Entry}
    (hfind : before.find cwd .entry path = .ok found) (recursive : Bool) :
    after.findFeatures cwd path recursive = before.findFeatures cwd path recursive ∨
    ∃ root way, before.find cwd .entry path = .ok (root, .directory) ∧ recursive = true ∧
      before.get? (root ++ way) = none ∧ after.get? (root ++ way) = some .directory ∧
      pathLimit < (joinWay path way).byteCount ∧
      after.findFeatures cwd path recursive = .error (joinWay path way, .nameTooLong) := by
  have hfind' := h.find_entry hbefore hfind
  rcases findFeatures_of_find hbefore hfind recursive with
    ⟨root, rfl, hsearch⟩ | ⟨location, content, rfl, hsearch⟩
  · have hsearch' : after.findFeatures cwd path recursive =
        after.featuresBelow path root recursive := by
      simp only [findFeatures, hfind']
    rcases h.featuresBelow_cases path root recursive with
      hsame | ⟨way, hrecursive, hnew, hmade, hlong, hfailed⟩
    · exact .inl (hsearch'.trans (hsame.trans hsearch.symm))
    · exact .inr ⟨root, way, hfind, hrecursive, hnew, hmade, hlong, hsearch'.trans hfailed⟩
  · left
    rw [hsearch]
    simp only [findFeatures, hfind']

/-- Outputs that have been written are not found, and they stand in nobody's way. -/
theorem OutputsOnly.featuresBelow (h : before.OutputsOnly after) (path : Path) (root : Location)
    (recursive : Bool) :
    after.featuresBelow path root recursive = before.featuresBelow path root recursive := by
  have hfeature {way : List Name} (hway : leadsToFeature way = true) :
      after.get? (root ++ way) = before.get? (root ++ way) := by
    rcases h (root ++ way) with heq | ⟨hplace, -⟩
    · exact heq
    · rw [leadsToFeature, List.getLast?_append_of_ne_nil root (ne_nil_of_leadsToFeature hway)]
        at hplace
      exact absurd hway (Bool.not_eq_true _ ▸ hplace)
  have hdirectories : after.directoryWays root = before.directoryWays root := by
    refine eq_of_mem_iff (after.pairwise_directoryWays root) (before.pairwise_directoryWays root)
      (after.nodup_directoryWays root) (before.nodup_directoryWays root) fun way => ?_
    rw [mem_directoryWays_iff, mem_directoryWays_iff]
    exact and_congr_right fun _ => ⟨h.directoriesWithin_symm _, h.directoriesWithin _⟩
  have hfeatures : after.featureWays root recursive = before.featureWays root recursive := by
    refine featureWays_eq_of_mem_iff fun way => ?_
    rw [mem_featureWays_iff, mem_featureWays_iff]
    exact and_congr_right fun _ => and_congr_right fun hway => by rw [hfeature hway]
  rw [FileSystem.featuresBelow, FileSystem.featuresBelow, unlistable?, unlistable?, hdirectories,
    hfeatures]

theorem OutputsOnly.findFeatures (h : before.OutputsOnly after) (hbefore : before.LinkFree)
    {files : List Path} (hfound : before.findFeatures cwd path recursive = .ok files) :
    after.findFeatures cwd path recursive = .ok files := by
  have hafter := h.linkFree hbefore
  cases hfind : before.find cwd .entry path with
  | error e => simp [FileSystem.findFeatures, hfind] at hfound
  | ok found =>
      rcases findFeatures_of_find hbefore hfind recursive with
        ⟨root, rfl, hsearch⟩ | ⟨location, content, rfl, hsearch⟩
      · have hfind' : after.find cwd .entry path = .ok (root, .directory) :=
          h.keeps.find_entry hbefore hafter (by simp) hfind (.inl rfl)
        rw [← hfound, hsearch, ← h.featuresBelow]
        simp only [FileSystem.findFeatures, hfind']
      · obtain ⟨hlocate, hcontent⟩ := find_eq_ok_iff.mp hfind
        obtain ⟨new, hnew⟩ : ∃ new, after.get? location = some (.file new) := by
          rcases h location with heq | ⟨-, hfile, -⟩
          · exact ⟨content, heq.trans hcontent⟩
          · exact hfile
        have hfind' : after.find cwd .entry path = .ok (location, .file new) :=
          find_eq_ok_iff.mpr ⟨locate_mono hbefore hafter h.directoriesWithin id hlocate, hnew⟩
        rw [← hfound, hsearch]
        simp only [FileSystem.findFeatures, hfind']

end FileSystem

end FeatureMarkdown
