import FeatureMarkdown.File.Lookup
import FeatureMarkdown.Proofs.File.Entries
import FeatureMarkdown.Proofs.File.Names

namespace FeatureMarkdown

def Entry.isLink : Entry → Bool
  | .link _ => true
  | _ => false

namespace FileSystem

def LinkFree (fs : FileSystem) : Prop :=
  ∀ location target, fs.get? location ≠ some (.link target)

/-- Every directory of the first file system is one of the second. -/
def DirectoriesWithin (a b : FileSystem) : Prop :=
  ∀ location, a.get? location = some .directory → b.get? location = some .directory

variable {fs a b : FileSystem} {goal wanted : Goal} {here location : Location}
  {enter enter' : Location → List Component → Except FileError Location}

theorem linkFree_of_all (h : (fs.entries.all fun e => !e.2.isLink) = true) : fs.LinkFree := by
  intro location target hlink
  rcases get?_eq_some_iff.mp hlink with ⟨-, hroot⟩ | hmem
  · contradiction
  · simpa [Entry.isLink] using List.all_eq_true.mp h _ hmem

/-- A name is gone through if it is a directory, and otherwise it has to be the last step. -/
theorem walkWith_name_eq_ok_iff (hfs : fs.LinkFree) {name : Name} {rest : List Component} :
    fs.walkWith goal enter here (.name name :: rest) = .ok location ↔
      ¬ (goal = .file ∧ rest = [.slash]) ∧ name.val.byteCount ≤ nameLimit ∧
      ((fs.get? (here ++ [name]) = some .directory ∧
          fs.walkWith goal enter (here ++ [name]) rest = .ok location) ∨
        (fs.get? (here ++ [name]) ≠ some .directory ∧ rest = [] ∧ location = here ++ [name])) := by
  rw [walkWith]
  by_cases hslash : goal = .file ∧ rest = [.slash]
  · simp [hslash]
  by_cases hlimit : nameLimit < name.val.byteCount
  · simp [hslash, hlimit, Nat.not_le.mpr hlimit]
  simp only [hslash, hlimit, Nat.not_lt.mp hlimit, decide_eq_true_eq, Bool.and_eq_true, if_false,
    not_false_eq_true, true_and]
  cases hnext : fs.get? (here ++ [name]) with
  | none => by_cases hrest : rest = [] <;> simp [hrest, eq_comm]
  | some entry =>
      cases entry with
      | file content => by_cases hrest : rest = [] <;> simp [hrest, eq_comm]
      | directory => simp
      | link target => exact absurd hnext (hfs _ _)

theorem walkWith_mono (ha : a.LinkFree) (hb : b.LinkFree) (hab : a.DirectoriesWithin b)
    (hgoal : wanted = .file → goal = .file) {components : List Component}
    (h : a.walkWith goal enter here components = .ok location) :
    b.walkWith wanted enter' here components = .ok location := by
  induction components generalizing here with
  | nil => exact h
  | cons component rest ih =>
      cases component with
      | current => exact ih h
      | slash => exact ih h
      | parent => exact ih h
      | name name =>
          rw [walkWith_name_eq_ok_iff ha] at h
          rw [walkWith_name_eq_ok_iff hb]
          obtain ⟨hslash, hlimit, hstep⟩ := h
          refine ⟨fun hfile => hslash ⟨hgoal hfile.1, hfile.2⟩, hlimit, ?_⟩
          rcases hstep with ⟨hnext, hrest⟩ | ⟨-, rfl, rfl⟩
          · exact .inl ⟨hab _ hnext, ih hrest⟩
          · by_cases hnext : b.get? (here ++ [name]) = some .directory
            · exact .inl ⟨hnext, rfl⟩
            · exact .inr ⟨hnext, rfl, rfl⟩

/-- What a path leads to stands in a directory, and it is a directory itself unless the last step
is its name. -/
theorem walkWith_place (hfs : fs.LinkFree) (hhere : fs.get? here = some .directory)
    {components : List Component}
    (h : fs.walkWith goal enter here components = .ok location) :
    fs.get? location.dropLast = some .directory ∧
      (fs.get? location = some .directory ∨
        ∃ name, location.getLast? = some name ∧ components.getLast? = some (.name name)) := by
  induction components generalizing here with
  | nil =>
      obtain rfl : here = location := Except.ok.inj h
      exact ⟨get?_dropLast hhere, .inl hhere⟩
  | cons component rest ih =>
      have hlater (start : Location) (hstart : fs.get? start = some .directory)
          (hwalk : fs.walkWith goal enter start rest = .ok location) :
          fs.get? location.dropLast = some .directory ∧
            (fs.get? location = some .directory ∨ ∃ name, location.getLast? = some name ∧
              (component :: rest).getLast? = some (.name name)) := by
        obtain ⟨hparent, hlast⟩ := ih hstart hwalk
        refine ⟨hparent, hlast.imp_right ?_⟩
        rintro ⟨name, hname, hrest⟩
        exact ⟨name, hname, by simp [List.getLast?_cons, hrest]⟩
      cases component with
      | current => exact hlater here hhere h
      | slash => exact hlater here hhere h
      | parent => exact hlater here.dropLast (get?_dropLast hhere) h
      | name name =>
          obtain ⟨-, -, hstep⟩ := (walkWith_name_eq_ok_iff hfs).mp h
          rcases hstep with ⟨hnext, hrest⟩ | ⟨-, rfl, rfl⟩
          · exact hlater _ hnext hrest
          · exact ⟨by simpa using hhere, .inr ⟨name, by simp, rfl⟩⟩

theorem walk_eq_walkWith (fs : FileSystem) (goal : Goal) (links : Nat) :
    ∃ enter, fs.walk goal links = fs.walkWith goal enter := by
  cases links <;> exact ⟨_, rfl⟩

theorem walkWith_congr (h : ∀ location, b.get? location = a.get? location)
    (here : Location) (components : List Component) :
    b.walkWith goal enter here components = a.walkWith goal enter here components := by
  induction components generalizing here with
  | nil => rfl
  | cons component rest ih =>
      cases component with
      | current => exact ih here
      | slash => exact ih here
      | parent => exact ih here.dropLast
      | name name =>
          rw [walkWith, walkWith]
          simp only [h, ih]

theorem walk_congr (h : ∀ location, b.get? location = a.get? location) (links : Nat) :
    b.walk goal links = a.walk goal links := by
  induction links with
  | zero =>
      funext here components
      exact walkWith_congr h here components
  | succ links ih =>
      funext here components
      rw [walk, walk, ih]
      exact walkWith_congr h here components

variable {cwd : Location} {path : Path}

theorem starts_of_directory (h : fs.get? cwd = some .directory) (path : Path) :
    fs.Starts cwd path :=
  .inr h

theorem Starts.mono (h : a.Starts cwd path) (hab : a.DirectoriesWithin b) : b.Starts cwd path :=
  h.imp_right (hab cwd)

theorem Starts.of_isAbsolute_eq {other : Path} (h : fs.Starts cwd path)
    (heq : other.isAbsolute = path.isAbsolute) : fs.Starts cwd other :=
  h.imp_left heq.trans

theorem starts_congr (h : ∀ location, b.get? location = a.get? location) :
    b.Starts cwd path ↔ a.Starts cwd path := by
  rw [Starts, Starts, h]

/-- What a path leads to depends only on what stands where. -/
theorem find_congr (h : ∀ location, b.get? location = a.get? location) :
    b.find cwd goal path = a.find cwd goal path := by
  rw [find, find, locate, locate, walk_congr h]
  simp only [h, starts_congr h]

theorem locate_eq_ok_iff {components : List Component} :
    fs.locate cwd goal path components = .ok location ↔
      path ≠ [] ∧ '\x00' ∉ path ∧ path.byteCount ≤ pathLimit ∧ fs.Starts cwd path ∧
        fs.walk goal linkLimit (if path.isAbsolute then [] else cwd) components = .ok location := by
  unfold locate
  by_cases hempty : path = []
  · simp [hempty]
  by_cases hnul : '\x00' ∈ path
  · simp [hempty, hnul]
  by_cases hlimit : pathLimit < path.byteCount
  · simp [hempty, hnul, hlimit, Nat.not_le.mpr hlimit]
  by_cases hstarts : fs.Starts cwd path
  · simp [hempty, hnul, hlimit, Nat.not_lt.mp hlimit, hstarts]
  · simp [hempty, hnul, hlimit, hstarts]

theorem locate_eq_ok {components : List Component}
    (h : fs.locate cwd goal path components = .ok location) :
    fs.walk goal linkLimit (if path.isAbsolute then [] else cwd) components = .ok location :=
  (locate_eq_ok_iff.mp h).2.2.2.2

/-- A name in the working directory leads to its place there, if no link stands in it. -/
theorem locate_name {name : Name} (hcwd : fs.get? cwd = some .directory) (hnul : '\x00' ∉ name.val)
    (hlimit : name.val.byteCount ≤ nameLimit)
    (hentry : ∀ target, fs.get? (cwd ++ [name]) ≠ some (.link target)) :
    fs.locate cwd goal name.val [.name name] = .ok (cwd ++ [name]) := by
  obtain ⟨enter, henter⟩ := walk_eq_walkWith fs goal linkLimit
  have habsolute := Path.isAbsolute_of_isName name.property
  have hlength : ¬ pathLimit < name.val.byteCount := by
    unfold pathLimit
    unfold nameLimit at hlimit
    omega
  have hslash : ([] : List Component) ≠ [.slash] := by simp
  rw [locate, if_neg name.property.1, if_neg hnul, if_neg hlength,
    if_neg (not_not_intro (starts_of_directory hcwd _)), henter, habsolute, walkWith]
  simp only [hslash, decide_false, Bool.and_false, Bool.false_eq_true, if_false,
    Nat.not_lt.mpr hlimit, if_true]
  cases hnext : fs.get? (cwd ++ [name]) with
  | none => rfl
  | some entry =>
      cases entry with
      | file content => rfl
      | directory => rfl
      | link target => exact absurd hnext (hentry target)

theorem locate_mono (ha : a.LinkFree) (hb : b.LinkFree) (hab : a.DirectoriesWithin b)
    (hgoal : wanted = .file → goal = .file) {components : List Component}
    (h : a.locate cwd goal path components = .ok location) :
    b.locate cwd wanted path components = .ok location := by
  obtain ⟨hempty, hnul, hlimit, hstarts, hwalk⟩ := locate_eq_ok_iff.mp h
  refine locate_eq_ok_iff.mpr ⟨hempty, hnul, hlimit, hstarts.mono hab, ?_⟩
  obtain ⟨enter, henter⟩ := walk_eq_walkWith a goal linkLimit
  obtain ⟨enter', henter'⟩ := walk_eq_walkWith b wanted linkLimit
  rw [henter] at hwalk
  rw [henter']
  exact walkWith_mono ha hb hab hgoal hwalk

theorem locate_place (hfs : fs.LinkFree) (hcwd : fs.get? cwd = some .directory)
    (h : fs.locate cwd goal path path.lookupComponents = .ok location) :
    fs.get? location.dropLast = some .directory ∧
      (fs.get? location = some .directory ∨
        ∃ name, location.getLast? = some name ∧ path.fileName? = some name.val) := by
  obtain ⟨enter, henter⟩ := walk_eq_walkWith fs goal linkLimit
  have hwalk := locate_eq_ok h
  rw [henter] at hwalk
  have hstart : fs.get? (if path.isAbsolute then [] else cwd) = some .directory := by
    split
    · rfl
    · exact hcwd
  obtain ⟨hparent, hlast⟩ := walkWith_place hfs hstart hwalk
  refine ⟨hparent, hlast.imp_right ?_⟩
  rintro ⟨name, hname, hcomponents⟩
  exact ⟨name, hname, Path.fileName?_of_lookupComponents hcomponents⟩

theorem find_eq_ok_iff {entry : Entry} :
    fs.find cwd goal path = .ok (location, entry) ↔
      fs.locate cwd goal path path.lookupComponents = .ok location ∧
        fs.get? location = some entry := by
  unfold find
  cases fs.locate cwd goal path path.lookupComponents with
  | error e => simp
  | ok found =>
      dsimp only
      constructor
      · intro h
        split at h
        · contradiction
        · rename_i other hother
          obtain ⟨rfl, rfl⟩ := Prod.mk.inj (Except.ok.inj h)
          exact ⟨rfl, hother⟩
      · rintro ⟨hfound, hentry⟩
        obtain rfl : found = location := Except.ok.inj hfound
        simp [hentry]

theorem starts_of_find {entry : Entry} (h : fs.find cwd goal path = .ok (location, entry)) :
    fs.Starts cwd path :=
  (locate_eq_ok_iff.mp (find_eq_ok_iff.mp h).1).2.2.2.1

/-- A file has the name that its path ends in. -/
theorem fileName?_of_find (hfs : fs.LinkFree) (hcwd : fs.get? cwd = some .directory)
    {content : Bytes} (h : fs.find cwd goal path = .ok (location, .file content)) :
    ∃ name, location.getLast? = some name ∧ path.fileName? = some name.val := by
  obtain ⟨hlocate, hfile⟩ := find_eq_ok_iff.mp h
  rcases (locate_place hfs hcwd hlocate).2 with hdirectory | hname
  · simp [hfile] at hdirectory
  · exact hname

theorem readText_eq_ok_iff {text : Text} :
    fs.readText cwd path = .ok text ↔
      ∃ location content, fs.find cwd .target path = .ok (location, .file content) ∧
        Text.ofBytes? content = some text := by
  unfold readText
  rcases fs.find cwd .target path with e | ⟨found, entry⟩
  · simp
  · cases entry with
    | file content =>
        cases htext : Text.ofBytes? content <;> simp [htext]
    | directory => simp
    | link target => simp

end FileSystem

end FeatureMarkdown
