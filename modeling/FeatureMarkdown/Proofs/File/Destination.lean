import FeatureMarkdown.Proofs.File.Kept

namespace FeatureMarkdown

namespace FileSystem

variable {fs before after : FileSystem} {cwd root location : Location} {path : Path} {goal : Goal}

/-- The directory in which names that are joined to the path stand. For the empty path, which by
itself leads nowhere, that is the working directory. -/
def Opens (fs : FileSystem) (cwd : Location) (path : Path) (root : Location) : Prop :=
  fs.find cwd .target path = .ok (root, .directory) ∨ (path = [] ∧ root = cwd)

theorem Opens.get? (h : fs.Opens cwd path root) (hcwd : fs.get? cwd = some .directory) :
    fs.get? root = some .directory := by
  rcases h with hfind | ⟨-, rfl⟩
  · exact (find_eq_ok_iff.mp hfind).2
  · exact hcwd

theorem find_directory_mono (hbefore : before.LinkFree) (hafter : after.LinkFree)
    (hwithin : before.DirectoriesWithin after)
    (h : before.find cwd goal path = .ok (location, .directory)) :
    after.find cwd goal path = .ok (location, .directory) := by
  obtain ⟨hlocate, hdirectory⟩ := find_eq_ok_iff.mp h
  exact find_eq_ok_iff.mpr
    ⟨locate_mono hbefore hafter hwithin id hlocate, hwithin _ hdirectory⟩

theorem Opens.mono (h : before.Opens cwd path root) (hbefore : before.LinkFree)
    (hafter : after.LinkFree) (hwithin : before.DirectoriesWithin after) :
    after.Opens cwd path root :=
  h.imp_left (find_directory_mono hbefore hafter hwithin)

/-- A walk does not depend on its goal as long as a directory is reached before the last name. -/
theorem walkWith_append_name {enter enter' : Location → List Component → Except FileError Location}
    {wanted : Goal} (hfs : fs.LinkFree) {here middle : Location} {components : List Component}
    (hwalk : fs.walkWith wanted enter here components = .ok middle)
    (hmiddle : fs.get? middle = some .directory) (name : Name) :
    fs.walkWith goal enter' here (components ++ [.name name]) =
      fs.walkWith goal enter' middle [.name name] := by
  induction components generalizing here with
  | nil =>
      obtain rfl : here = middle := Except.ok.inj hwalk
      rfl
  | cons component components ih =>
      cases component with
      | current => exact ih hwalk
      | slash => exact ih hwalk
      | parent => exact ih hwalk
      | name above =>
          obtain ⟨-, hlimit, hstep⟩ := (walkWith_name_eq_ok_iff hfs).mp hwalk
          have hslash : components ++ [.name name] ≠ [.slash] := by
            intro heq
            have hlast := congrArg List.getLast? heq
            simp at hlast
          rcases hstep with ⟨hnext, hrest⟩ | ⟨hnext, -, rfl⟩
          · rw [List.cons_append, walkWith_directory (fun h => hslash h.2) hlimit hnext]
            exact ih hrest
          · exact absurd hmiddle hnext

theorem walkWith_name (hfs : fs.LinkFree)
    {enter : Location → List Component → Except FileError Location} (name : Name) :
    fs.walkWith goal enter root [.name name] =
      if nameLimit < name.val.byteCount then .error .nameTooLong else .ok (root ++ [name]) := by
  rw [walkWith]
  simp only [show ([] : List Component) ≠ [.slash] by simp, decide_false, Bool.and_false,
    Bool.false_eq_true, if_false, if_true]
  split
  · rfl
  · cases hnext : fs.get? (root ++ [name]) with
    | none => rfl
    | some entry =>
        cases entry with
        | file content => rfl
        | directory => rfl
        | link target => exact absurd hnext (hfs _ _)

theorem Opens.walk_components (h : fs.Opens cwd path root) (hfs : fs.LinkFree)
    (enter : Location → List Component → Except FileError Location) :
    fs.walkWith .target enter (if path.isAbsolute then [] else cwd) path.components = .ok root := by
  rcases h with hfind | ⟨rfl, rfl⟩
  · obtain ⟨hlocate, hdirectory⟩ := find_eq_ok_iff.mp hfind
    have hentry : fs.find cwd .entry path = .ok (root, .directory) :=
      find_eq_ok_iff.mpr
        ⟨locate_mono hfs hfs (fun _ h => h) (fun h => by cases h) hlocate, hdirectory⟩
    exact FileSystem.walk_components hfs hentry enter
  · rfl

theorem Opens.nul_notMem (h : fs.Opens cwd path root) : '\x00' ∉ path := by
  rcases h with hfind | ⟨rfl, -⟩
  · exact (locate_eq_ok_iff.mp (find_eq_ok_iff.mp hfind).1).2.1
  · simp

theorem walk_lookupComponents (hfs : fs.LinkFree) (hroot : fs.get? root = some .directory)
    {enter : Location → List Component → Except FileError Location} {here : Location}
    (hwalk : fs.walkWith .target enter here path.components = .ok root) :
    fs.walkWith .target enter here path.lookupComponents = .ok root := by
  rw [Path.lookupComponents]
  split
  · rw [walkWith_append hfs (by simp) hwalk hroot]
    rfl
  · rwa [List.append_nil]

/-- The path of a name in the directory is followed to its place, unless it or the name is too
long. -/
theorem Opens.locate_join (h : fs.Opens cwd path root) (hfs : fs.LinkFree)
    (hcwd : fs.get? cwd = some .directory) {name : Name} (hnul : '\x00' ∉ name.val) (goal : Goal) :
    fs.locate cwd goal (path.join name.val) (path.join name.val).lookupComponents =
      if pathLimit < (path.join name.val).byteCount ∨ nameLimit < name.val.byteCount then
        .error .nameTooLong
      else .ok (root ++ [name]) := by
  have hpath : '\x00' ∉ path.join name.val := by
    obtain ⟨gap, hgap, hjoin⟩ := Path.join_eq_append name.property path
    have hslash : '\x00' ∉ gap := by
      rcases hgap with rfl | rfl <;> decide
    simp [hjoin, h.nul_notMem, hslash, hnul]
  have hcomponents : (path.join name.val).lookupComponents = path.components ++ [.name name] :=
    lookupComponents_joinWay path (List.cons_ne_nil name [])
  have hstart : (if (path.join name.val).isAbsolute then [] else cwd) =
      if path.isAbsolute then [] else cwd := by
    by_cases hempty : path = []
    · rw [hempty, Path.join_nil name.property, Path.isAbsolute_of_isName name.property]
      rfl
    · rw [Path.isAbsolute_join hempty name.property]
  obtain ⟨enter, henter⟩ := walk_eq_walkWith fs goal linkLimit
  have hwalk : fs.walk goal linkLimit (if (path.join name.val).isAbsolute then [] else cwd)
      (path.join name.val).lookupComponents =
      if nameLimit < name.val.byteCount then .error .nameTooLong else .ok (root ++ [name]) := by
    rw [henter, hcomponents, hstart,
      walkWith_append_name hfs (h.walk_components hfs enter) (h.get? hcwd) name,
      walkWith_name hfs name]
  rw [locate, if_neg (Path.join_ne_nil name.property path), if_neg hpath,
    if_neg (not_not_intro (starts_of_directory hcwd _)), hwalk]
  by_cases hlong : pathLimit < (path.join name.val).byteCount <;> simp [hlong]

/-- A file can be written in the directory unless its path or its name is too long or a directory
stands at its place. -/
theorem Opens.writeFile_eq_error_iff (h : fs.Opens cwd path root) (hfs : fs.LinkFree)
    (hcwd : fs.get? cwd = some .directory) {name : Name} (hnul : '\x00' ∉ name.val)
    {content : Bytes} {e : FileError} :
    fs.writeFile cwd (path.join name.val) content = .error e ↔
      ((pathLimit < (path.join name.val).byteCount ∨ nameLimit < name.val.byteCount) ∧
        e = .nameTooLong) ∨
      ((∃ location, fs.find cwd .target (path.join name.val) = .ok (location, .directory)) ∧
        e = .isDirectory) := by
  have hlocate := h.locate_join hfs hcwd hnul
  by_cases hlong : pathLimit < (path.join name.val).byteCount ∨ nameLimit < name.val.byteCount
  · simp only [hlong, if_true] at hlocate
    have hnot (location : Location) :
        fs.find cwd .target (path.join name.val) ≠ .ok (location, .directory) := by
      rw [find, hlocate]
      simp
    rw [writeFile, hlocate]
    simp [hlong, hnot, eq_comm]
  · simp only [hlong, if_false] at hlocate
    have hfind : (∃ location, fs.find cwd .target (path.join name.val) =
        .ok (location, .directory)) ↔ fs.get? (root ++ [name]) = some .directory := by
      simp only [find_eq_ok_iff, hlocate]
      simp
    rw [hfind, writeFile, hlocate]
    cases hentry : fs.get? (root ++ [name]) with
    | none => simp [hlong, hentry]
    | some entry =>
        cases entry with
        | file content => simp [hlong, hentry]
        | directory => simp [hlong, hentry, eq_comm]
        | link target => exact absurd hentry (hfs _ _)

theorem Opens.put_of_writeFile (h : fs.Opens cwd path root) (hfs : fs.LinkFree)
    (hcwd : fs.get? cwd = some .directory) {name : Name} {content : Bytes}
    (hwrite : fs.writeFile cwd (path.join name.val) content = .ok after) :
    fs.Put after (root ++ [name]) content := by
  obtain ⟨location, hlocate, hput⟩ := FileSystem.put_of_writeFile hfs hcwd hwrite
  have hnul : '\x00' ∉ name.val := by
    obtain ⟨gap, -, hjoin⟩ := Path.join_eq_append name.property path
    have hpath := (locate_eq_ok_iff.mp hlocate).2.1
    rw [hjoin] at hpath
    exact fun hmem => hpath (List.mem_append_right _ hmem)
  rw [h.locate_join hfs hcwd hnul] at hlocate
  split at hlocate
  · contradiction
  · exact Except.ok.inj hlocate ▸ hput

section Create

/-- A directory that is made is new, its path leads to it, and nothing else has happened. -/
theorem find_of_create (hfs : fs.LinkFree) (hcwd : fs.get? cwd = some .directory)
    (h : fs.create cwd path .directory = .ok after) :
    ∃ location, after.find cwd .target path = .ok (location, .directory) ∧
      ∀ other, other ≠ location → after.get? other = fs.get? other := by
  have hafter := (directoriesOnly_create h).linkFree hfs
  have hwithin := (directoriesOnly_create h).directoriesWithin
  unfold create at h
  split at h
  · contradiction
  rename_i location hlocate
  split at h
  · contradiction
  rename_i habsent
  obtain ⟨hempty, hnul, hlimit, hstarts, hwalk⟩ := locate_eq_ok_iff.mp hlocate
  obtain ⟨enter, henter⟩ := walk_eq_walkWith fs .entry linkLimit
  obtain ⟨enter', henter'⟩ := walk_eq_walkWith after .target linkLimit
  rw [henter] at hwalk
  have hparent : fs.get? location.dropLast = some .directory := by
    refine (walkWith_place hfs ?_ hwalk).1
    split
    · rfl
    · exact hcwd
  have hget := get?_add .directory habsent hparent
  obtain rfl := Except.ok.inj h
  have hdirectory : (fs.add location .directory).get? location = some .directory := by
    simp [hget]
  refine ⟨location, ?_, fun other hother => by simp [hget, hother]⟩
  refine find_eq_ok_iff.mpr
    ⟨locate_eq_ok_iff.mpr ⟨hempty, hnul, hlimit, hstarts.mono hwithin, ?_⟩, hdirectory⟩
  rw [henter']
  apply walk_lookupComponents hafter hdirectory
  exact walkWith_mono hfs hafter hwithin (fun h => by cases h) hwalk

/-- What making a directory comes to, with those above it made or not: it is new, or it is there
already, or the making fails. -/
theorem createFirst_cons_cases (fs : FileSystem) (cwd : Location) (path : Path)
    (above : List Path) :
    let run := fs.createFirst cwd (path :: above)
    ∃ partly, fs.DirectoriesOnly partly ∧ (partly = fs ∨ partly = (fs.createFirst cwd above).1) ∧
      ((∃ made, partly.create cwd path .directory = .ok made ∧ run = (made, none)) ∨
        (run.1 = partly ∧ (run.2 = none → partly.isDirectory cwd path = true))) := by
  intro run
  cases hfirst : fs.create cwd path .directory with
  | ok made => exact ⟨fs, .refl fs, .inl rfl, .inl ⟨made, hfirst, by simp [run, createFirst, hfirst]⟩⟩
  | error e =>
      by_cases hmissing : e = .notFound
      · subst hmissing
        refine ⟨(fs.createFirst cwd above).1, directoriesOnly_createFirst fs cwd above, .inr rfl, ?_⟩
        rcases habove : fs.createFirst cwd above with ⟨partly, failure⟩
        cases failure with
        | some cause => exact .inr (by simp [run, createFirst, hfirst, habove])
        | none =>
            cases hsecond : partly.create cwd path .directory with
            | ok made => exact .inl ⟨made, rfl, by simp [run, createFirst, hfirst, habove, hsecond]⟩
            | error cause => exact .inr (by simp [run, createFirst, hfirst, habove, hsecond])
      · refine ⟨fs, .refl fs, .inl rfl, .inr ?_⟩
        have hrun : run = (fs, if fs.isDirectory cwd path then none else some e) := by
          simp only [run, createFirst, hfirst]
        simp [hrun]

theorem isDirectory_eq_true_iff :
    fs.isDirectory cwd path = true ↔
      ∃ location, fs.find cwd .target path = .ok (location, .directory) := by
  unfold isDirectory
  split
  next location heq => simp [heq]
  next hnot =>
    simp only [Bool.false_eq_true, false_iff, not_exists]
    exact hnot

/-- Wherever something has changed, one of the paths leads to a directory there. -/
theorem find_of_createFirst (hfs : fs.LinkFree) (hcwd : fs.get? cwd = some .directory)
    {paths : List Path} (hchanged : (fs.createFirst cwd paths).1.get? location ≠ fs.get? location) :
    ∃ path ∈ paths, (fs.createFirst cwd paths).1.find cwd .target path =
      .ok (location, .directory) := by
  induction paths with
  | nil => exact absurd rfl hchanged
  | cons path above ih =>
      obtain ⟨partly, hfirst, hpartly, hrun⟩ := createFirst_cons_cases fs cwd path above
      have hlinks := hfirst.linkFree hfs
      by_cases hsame : partly.get? location = fs.get? location
      · rcases hrun with ⟨made, hmade, hrun⟩ | ⟨hrun, -⟩
        · rw [hrun] at hchanged ⊢
          obtain ⟨place, hfind, hother⟩ :=
            find_of_create hlinks (hfirst.directoriesWithin _ hcwd) hmade
          obtain rfl : location = place := by
            by_contra hne
            exact hchanged ((hother location hne).trans hsame)
          exact ⟨path, List.mem_cons_self, hfind⟩
        · exact absurd (hrun ▸ hsame) hchanged
      · have habove : partly = (fs.createFirst cwd above).1 := by
          refine hpartly.resolve_left ?_
          rintro rfl
          exact hsame rfl
        obtain ⟨higher, hhigher, hfind⟩ := ih (habove ▸ hsame)
        rw [← habove] at hfind
        refine ⟨higher, List.mem_cons_of_mem path hhigher, ?_⟩
        rcases hrun with ⟨made, hmade, hrun⟩ | ⟨hrun, -⟩
        · have hsecond := directoriesOnly_create hmade
          rw [hrun]
          exact find_directory_mono hlinks (hsecond.linkFree hlinks) hsecond.directoriesWithin hfind
        · rwa [hrun]

/-- The changes of a directory that is made, and of those above it. -/
theorem find_of_createDirectories (hfs : fs.LinkFree) (hcwd : fs.get? cwd = some .directory)
    (hchanged : (fs.createDirectories cwd path).1.get? location ≠ fs.get? location) :
    ∃ higher ∈ path.withAncestors,
      (fs.createDirectories cwd path).1.find cwd .target higher = .ok (location, .directory) :=
  find_of_createFirst hfs hcwd hchanged

theorem opens_of_createDirectories (hfs : fs.LinkFree) (hcwd : fs.get? cwd = some .directory)
    (h : (fs.createDirectories cwd path).2 = none) :
    ∃ root, (fs.createDirectories cwd path).1.Opens cwd path root := by
  by_cases hempty : path = []
  · exact ⟨cwd, .inr ⟨hempty, rfl⟩⟩
  obtain ⟨above, habove⟩ : ∃ above, path.withAncestors = path :: above := by
    rw [Path.withAncestors, if_neg hempty]
    exact ⟨_, rfl⟩
  rw [createDirectories, habove] at h ⊢
  obtain ⟨partly, hfirst, -, hrun⟩ := createFirst_cons_cases fs cwd path above
  rcases hrun with ⟨made, hmade, hrun⟩ | ⟨hrun, hdirectory⟩
  · obtain ⟨root, hfind, -⟩ :=
      find_of_create (hfirst.linkFree hfs) (hfirst.directoriesWithin _ hcwd) hmade
    rw [hrun]
    exact ⟨root, .inl hfind⟩
  · obtain ⟨root, hfind⟩ := isDirectory_eq_true_iff.mp (hdirectory h)
    rw [hrun]
    exact ⟨root, .inl hfind⟩

/-- Nothing is done for a directory that is there already. -/
theorem createDirectories_of_opens (hfs : fs.LinkFree) (h : fs.Opens cwd path root) :
    fs.createDirectories cwd path = (fs, none) := by
  rcases h with hfind | ⟨rfl, -⟩
  · have hopens : fs.Opens cwd path root := .inl hfind
    obtain ⟨hlocate, hroot⟩ := find_eq_ok_iff.mp hfind
    obtain ⟨hempty, hnul, hlimit, hstarts, -⟩ := locate_eq_ok_iff.mp hlocate
    obtain ⟨enter, henter⟩ := walk_eq_walkWith fs .entry linkLimit
    have hwalk : fs.locate cwd .entry path path.components = .ok root := by
      refine locate_eq_ok_iff.mpr ⟨hempty, hnul, hlimit, hstarts, ?_⟩
      rw [henter]
      exact walkWith_mono hfs hfs (fun _ h => h) (fun h => by cases h)
        (hopens.walk_components hfs enter)
    have hcreate : fs.create cwd path .directory = .error .alreadyExists := by
      rw [create, hwalk]
      simp only [hroot]
    have hdirectory := isDirectory_eq_true_iff.mpr ⟨root, hfind⟩
    rw [createDirectories, Path.withAncestors, if_neg hempty, createFirst, hcreate]
    simp [hdirectory]
  · rfl

end Create

end FileSystem

end FeatureMarkdown
