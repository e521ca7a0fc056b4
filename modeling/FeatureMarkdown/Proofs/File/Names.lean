import FeatureMarkdown.Batch.Options
import FeatureMarkdown.File.Location
import Mathlib.Data.List.Basic
import Mathlib.Data.List.Induction

namespace FeatureMarkdown

namespace Path

/-- The path ends in the name of a feature file. -/
def IsFeatureFile (path : Path) : Prop :=
  ∃ name, path.fileName? = some name ∧ isFeatureName name = true

theorem pieces_ne_nil (path : Path) : path.pieces ≠ [] := by
  cases path with
  | nil => simp [pieces]
  | cons c rest =>
      rw [pieces]
      split
      · simp
      · split <;> simp

theorem pieces_cons_of_ne {c : Char} (hc : c ≠ '/') (path : Path) :
    ∃ piece rest, path.pieces = piece :: rest ∧ pieces (c :: path) = (c :: piece) :: rest := by
  obtain ⟨piece, rest, h⟩ := List.exists_cons_of_ne_nil path.pieces_ne_nil
  exact ⟨piece, rest, h, by simp [pieces, hc, h]⟩

theorem pieces_append_slash (first second : Path) :
    pieces (first ++ '/' :: second) = first.pieces ++ second.pieces := by
  induction first with
  | nil => simp [pieces]
  | cons c first ih =>
      by_cases hc : c = '/'
      · simp [pieces, hc, ih]
      · obtain ⟨piece, rest, hpieces, -⟩ := pieces_cons_of_ne hc first
        simp [pieces, hc, ih, hpieces]

theorem pieces_of_notMem {piece : Text} (h : '/' ∉ piece) : pieces piece = [piece] := by
  induction piece with
  | nil => rfl
  | cons c piece ih =>
      have hc : c ≠ '/' := fun hc => h (hc ▸ List.mem_cons_self)
      simp [pieces, hc, ih fun hmem => h (List.mem_cons_of_mem c hmem)]

theorem notMem_of_mem_pieces {path : Path} {piece : Text} (h : piece ∈ path.pieces) :
    '/' ∉ piece := by
  induction path generalizing piece with
  | nil =>
      obtain rfl : piece = [] := by simpa [pieces] using h
      simp
  | cons c path ih =>
      by_cases hc : c = '/'
      · simp only [pieces, hc, if_true, List.mem_cons] at h
        rcases h with rfl | h
        · simp
        · exact ih h
      · obtain ⟨first, rest, hpieces, hcons⟩ := pieces_cons_of_ne hc path
        rw [hcons] at h
        rcases List.mem_cons.mp h with rfl | h
        · have hfirst : '/' ∉ first := ih (hpieces ▸ List.mem_cons_self)
          simp [Ne.symm hc, hfirst]
        · exact ih (hpieces ▸ List.mem_cons_of_mem first h)

theorem mem_of_mem_pieces {path : Path} {piece : Text} {c : Char} (h : piece ∈ path.pieces)
    (hc : c ∈ piece) : c ∈ path := by
  induction path generalizing piece with
  | nil =>
      obtain rfl : piece = [] := by simpa [pieces] using h
      exact hc
  | cons d path ih =>
      by_cases hd : d = '/'
      · simp only [pieces, hd, if_true, List.mem_cons] at h
        rcases h with rfl | h
        · simp at hc
        · exact List.mem_cons_of_mem d (ih h hc)
      · obtain ⟨first, rest, hpieces, hcons⟩ := pieces_cons_of_ne hd path
        rw [hcons] at h
        rcases List.mem_cons.mp h with rfl | h
        · rcases List.mem_cons.mp hc with rfl | hc
          · exact List.mem_cons_self
          · exact List.mem_cons_of_mem d (ih (hpieces ▸ List.mem_cons_self) hc)
        · exact List.mem_cons_of_mem d (ih (hpieces ▸ List.mem_cons_of_mem first h) hc)

theorem isAbsolute_of_isName {name : Text} (h : IsName name) : Path.isAbsolute name = false := by
  obtain ⟨hne, hslash, -⟩ := h
  cases name with
  | nil => contradiction
  | cons c rest =>
      have hc : c ≠ '/' := fun hc => hslash (hc ▸ List.mem_cons_self)
      simp [isAbsolute, hc]

/-- Joining a name adds one piece, apart from empty ones. -/
theorem filterMap_pieces_join {α : Type} {f : Text → Option α} (hempty : f [] = none) {name : Text}
    (h : IsName name) (directory : Path) :
    (directory.join name).pieces.filterMap f = directory.pieces.filterMap f ++ [name].filterMap f := by
  have hname := pieces_of_notMem h.2.1
  rw [join, isAbsolute_of_isName h]
  simp only [Bool.false_eq_true, if_false]
  split
  next hend =>
    rcases List.eq_nil_or_concat directory with rfl | ⟨init, c, rfl⟩
    · rw [List.nil_append, hname, pieces, List.filterMap_cons_none hempty]
      rfl
    · have hc : c = '/' := by simpa [endsInSlash] using hend
      rw [hc, List.concat_eq_append, List.append_assoc, List.singleton_append,
        pieces_append_slash, pieces_append_slash, hname, List.filterMap_append,
        List.filterMap_append, pieces, List.filterMap_cons_none hempty, List.filterMap_nil,
        List.append_nil]
  next =>
    rw [List.append_assoc, List.singleton_append, pieces_append_slash, hname,
      List.filterMap_append]

theorem moves_join {name : Text} (h : IsName name) (directory : Path) :
    (directory.join name).moves = directory.moves ++ [name] := by
  let moves? := Option.guard fun piece : Text => piece ≠ [] && piece ≠ ['.']
  have hmoves (path : Path) : path.moves = path.pieces.filterMap moves? :=
    (List.filterMap_eq_filter).symm ▸ rfl
  have hname : [name].filterMap moves? = [name] := by
    simp [moves?, Option.guard, h.1, h.2.2.1]
  have hempty : moves? [] = none := by simp [moves?, Option.guard]
  rw [hmoves, hmoves, filterMap_pieces_join hempty h, hname]

theorem components_join {name : Text} (h : IsName name) (directory : Path) :
    (directory.join name).components = directory.components ++ [.name ⟨name, h⟩] := by
  have hname : component? name = some (.name ⟨name, h⟩) := dif_pos h
  have hempty : component? [] = none := rfl
  rw [components, components, filterMap_pieces_join hempty h, List.filterMap_cons_some hname,
    List.filterMap_nil]

theorem join_eq_append {name : Text} (h : IsName name) (directory : Path) :
    ∃ gap, (gap = [] ∨ gap = ['/']) ∧ directory.join name = directory ++ gap ++ name := by
  rw [join, isAbsolute_of_isName h]
  simp only [Bool.false_eq_true, if_false]
  split
  · exact ⟨[], .inl rfl, by simp⟩
  · exact ⟨['/'], .inr rfl, rfl⟩

theorem endsInSlash_join {name : Text} (h : IsName name) (directory : Path) :
    (directory.join name).endsInSlash = false := by
  obtain ⟨gap, -, hjoin⟩ := join_eq_append h directory
  have hlast : name.getLast? ≠ some '/' := fun hlast => h.2.1 (List.mem_of_getLast? hlast)
  rw [endsInSlash, hjoin, List.getLast?_append_of_ne_nil _ h.1]
  simpa using hlast

theorem join_ne_nil {name : Text} (h : IsName name) (directory : Path) :
    directory.join name ≠ [] := by
  obtain ⟨gap, -, hjoin⟩ := join_eq_append h directory
  simp [hjoin, h.1]

theorem isAbsolute_join {directory : Path} (hdirectory : directory ≠ []) {name : Text}
    (h : IsName name) : (directory.join name).isAbsolute = directory.isAbsolute := by
  obtain ⟨c, rest, rfl⟩ := List.exists_cons_of_ne_nil hdirectory
  rw [join, isAbsolute_of_isName h]
  simp only [Bool.false_eq_true, if_false]
  split <;> rfl

section Name

variable {name : Text} (h : IsName name)
include h

theorem join_nil : join [] name = name := by
  simp [join, isAbsolute_of_isName h]

theorem components_of_isName : components name = [.name ⟨name, h⟩] := by
  have hjoin := components_join h []
  rwa [join_nil h] at hjoin

theorem lookupComponents_of_isName : lookupComponents name = [.name ⟨name, h⟩] := by
  have hslash := endsInSlash_join h []
  rw [join_nil h] at hslash
  rw [lookupComponents, components_of_isName h, hslash]
  rfl

theorem withAncestors_of_isName : withAncestors name = [name] := by
  have hmoves := moves_join h []
  rw [join_nil h] at hmoves
  rw [withAncestors, if_neg h.1, hmoves]
  rfl

end Name

theorem fileName?_join {name : Text} (h : IsName name) (directory : Path) :
    (directory.join name).fileName? = some name := by
  have hlast : (directory.join name).moves.getLast? = some name := by
    rw [moves_join h, List.getLast?_concat]
  rw [fileName?, hlast]
  split
  · rename_i heq
    exact absurd (Option.some.inj heq) h.2.2.2
  · rfl

theorem isName_of_fileName? {path : Path} {name : Text} (h : path.fileName? = some name) :
    IsName name := by
  unfold fileName? at h
  split at h
  · contradiction
  · rename_i hdots
    have hmem : name ∈ path.moves := List.mem_of_getLast? h
    rw [moves, List.mem_filter] at hmem
    refine ⟨?_, notMem_of_mem_pieces hmem.1, ?_, ?_⟩
    · rintro rfl
      simp at hmem
    · rintro rfl
      simp at hmem
    · rintro rfl
      exact hdots h

theorem IsFeatureFile.exists_name {path : Path} (h : path.IsFeatureFile) :
    ∃ name : Name, path.fileName? = some name.val ∧ isFeatureName name.val = true := by
  obtain ⟨name, hname, hfeature⟩ := h
  exact ⟨⟨name, isName_of_fileName? hname⟩, hname, hfeature⟩

theorem mem_of_fileName? {path : Path} {name : Text} {c : Char} (h : path.fileName? = some name)
    (hc : c ∈ name) : c ∈ path := by
  unfold fileName? at h
  split at h
  · contradiction
  · have hmoves : name ∈ path.moves := List.mem_of_getLast? h
    exact mem_of_mem_pieces (List.mem_filter.mp hmoves).1 hc

/-- What a piece between slashes can be, and the step that it stands for. -/
theorem component?_cases {piece : Text} (h : '/' ∉ piece) :
    (∃ hname : IsName piece, component? piece = some (.name ⟨piece, hname⟩)) ∨
    (piece = [] ∧ component? piece = none) ∨
    (piece = ['.'] ∧ component? piece = some .current) ∨
    (piece = ['.', '.'] ∧ component? piece = some .parent) := by
  by_cases hempty : piece = []
  · subst hempty
    exact .inr (.inl ⟨rfl, rfl⟩)
  by_cases hdot : piece = ['.']
  · subst hdot
    exact .inr (.inr (.inl ⟨rfl, by decide⟩))
  by_cases hdots : piece = ['.', '.']
  · subst hdots
    exact .inr (.inr (.inr ⟨rfl, by decide⟩))
  have hname : IsName piece := ⟨hempty, h, hdot, hdots⟩
  exact .inl ⟨hname, dif_pos hname⟩

theorem getLast?_filter_of_filterMap {pieces : List Text} {name : Name}
    (hslash : ∀ piece ∈ pieces, '/' ∉ piece)
    (hlast : (pieces.filterMap component?).getLast? = some (.name name)) :
    (pieces.filter fun piece => piece ≠ [] && piece ≠ ['.']).getLast? = some name.val := by
  induction pieces using List.reverseRecOn with
  | nil => simp at hlast
  | append_singleton pieces piece ih =>
      rw [List.filterMap_append] at hlast
      rw [List.filter_append]
      rcases component?_cases (hslash piece (by simp)) with
        ⟨hname, hcomponent⟩ | ⟨rfl, hcomponent⟩ | ⟨rfl, hcomponent⟩ | ⟨rfl, hcomponent⟩
      · have heq : ⟨piece, hname⟩ = name := by simpa [hcomponent] using hlast
        simp [← heq, hname.1, hname.2.2.1]
      · simpa using ih (fun other hother => hslash other (List.mem_append_left _ hother))
          (by simpa [hcomponent] using hlast)
      · simp [hcomponent] at hlast
      · simp [hcomponent] at hlast

theorem fileName?_of_lookupComponents {path : Path} {name : Name}
    (h : path.lookupComponents.getLast? = some (.name name)) :
    path.fileName? = some name.val := by
  have hcomponents : path.components.getLast? = some (.name name) := by
    unfold lookupComponents at h
    split at h
    · simp at h
    · simpa using h
  have hlast : path.moves.getLast? = some name.val :=
    getLast?_filter_of_filterMap (fun _ => notMem_of_mem_pieces) hcomponents
  rw [fileName?, hlast]
  split
  · rename_i heq
    exact absurd (Option.some.inj heq) name.property.2.2.2
  · rfl

end Path

theorem isName_append_extension {name : Text} (h : IsName name) (format : OutputFormat) :
    IsName (name ++ ['.'] ++ format.extension) := by
  have hlength : 2 ≤ format.extension.length := by cases format <;> decide
  have hslash : '/' ∉ format.extension := by cases format <;> decide
  refine ⟨by simp, ?_, ?_, ?_⟩
  · simp [h.2.1, hslash]
  · intro heq
    have := congrArg List.length heq
    simp at this
    omega
  · intro heq
    have := congrArg List.length heq
    simp at this
    omega

theorem not_feature_suffix_append_extension (name : Text) (format : OutputFormat) :
    ¬ ".feature".toList <:+ name ++ ['.'] ++ format.extension := by
  rintro ⟨rest, hrest⟩
  have hlast := congrArg List.getLast? hrest
  cases format <;> simp [OutputFormat.extension] at hlast

theorem isFeatureName_append_extension (name : Text) (format : OutputFormat) :
    Path.isFeatureName (name ++ ['.'] ++ format.extension) = false := by
  simp only [Path.isFeatureName, Bool.and_eq_false_iff]
  left
  rw [Bool.eq_false_iff, ne_eq, List.isSuffixOf_iff_suffix]
  exact not_feature_suffix_append_extension name format

theorem fileName?_outputPath {file : Path} {name : Text} (h : file.fileName? = some name)
    (directory : Path) (format : OutputFormat) :
    (outputPath directory file format).fileName? = some (name ++ ['.'] ++ format.extension) := by
  rw [outputPath, h, Option.getD_some]
  exact Path.fileName?_join (isName_append_extension (Path.isName_of_fileName? h) format) directory

theorem fileName?_outputPath_eq_iff {first second : Path} {name other : Text}
    (hfirst : first.fileName? = some name) (hsecond : second.fileName? = some other)
    (directory : Path) (format : OutputFormat) :
    (outputPath directory first format).fileName? =
      (outputPath directory second format).fileName? ↔ name = other := by
  rw [fileName?_outputPath hfirst, fileName?_outputPath hsecond]
  simp

theorem outputPath_eq_iff {first second : Path} {name other : Text}
    (hfirst : first.fileName? = some name) (hsecond : second.fileName? = some other)
    (directory : Path) (format : OutputFormat) :
    outputPath directory first format = outputPath directory second format ↔ name = other := by
  constructor
  · intro h
    exact (fileName?_outputPath_eq_iff hfirst hsecond directory format).mp (h ▸ rfl)
  · rintro rfl
    simp [outputPath, hfirst, hsecond]

end FeatureMarkdown
