import FeatureMarkdown.Proofs.File.Entries
import FeatureMarkdown.Proofs.File.Order

namespace FeatureMarkdown

namespace FileSystem

variable {fs before after : FileSystem} {root location : Location} {recursive : Bool}
  {way : List Name}

theorem below?_eq_some_iff : below? root location = some way ↔ location = root ++ way := by
  unfold below?
  constructor
  · intro h
    split at h
    next hprefix =>
      obtain ⟨rest, rfl⟩ := List.isPrefixOf_iff_prefix.mp hprefix
      simpa using h
    next => contradiction
  · rintro rfl
    rw [if_pos (List.isPrefixOf_iff_prefix.mpr (List.prefix_append root way)), List.drop_left]

theorem featureWay?_eq_some_iff {entry : Entry} :
    featureWay? root recursive (location, entry) = some way ↔
      location = root ++ way ∧ inReach recursive way = true ∧ leadsToFeature way = true ∧
        ∃ content, entry = .file content := by
  cases entry with
  | file content => simp [featureWay?, Option.filter_eq_some_iff, below?_eq_some_iff]
  | directory => simp [featureWay?]
  | link target => simp [featureWay?]

theorem directoryWay?_eq_some_iff {entry : Entry} :
    directoryWay? root (location, entry) = some way ↔
      location = root ++ way ∧ way ≠ [] ∧ entry = .directory := by
  cases entry with
  | file content => simp [directoryWay?]
  | directory => simp [directoryWay?, Option.filter_eq_some_iff, below?_eq_some_iff]
  | link target => simp [directoryWay?]

theorem mem_featureWays_iff :
    way ∈ fs.featureWays root recursive ↔
      inReach recursive way = true ∧ leadsToFeature way = true ∧
        ∃ content, fs.get? (root ++ way) = some (.file content) := by
  rw [featureWays, (sortBy_perm _ _).mem_iff, List.mem_filterMap]
  constructor
  · rintro ⟨⟨location, entry⟩, hmem, hway⟩
    obtain ⟨rfl, hreach, hfeature, content, rfl⟩ := featureWay?_eq_some_iff.mp hway
    exact ⟨hreach, hfeature, content, get?_eq_some_iff.mpr (.inr hmem)⟩
  · rintro ⟨hreach, hfeature, content, hfile⟩
    have hmem : (root ++ way, .file content) ∈ fs.entries := by
      rcases get?_eq_some_iff.mp hfile with ⟨-, hdirectory⟩ | hmem
      · contradiction
      · exact hmem
    exact ⟨_, hmem, featureWay?_eq_some_iff.mpr ⟨rfl, hreach, hfeature, content, rfl⟩⟩

theorem mem_directoryWays_iff :
    way ∈ fs.directoryWays root ↔ way ≠ [] ∧ fs.get? (root ++ way) = some .directory := by
  rw [directoryWays, (sortBy_perm _ _).mem_iff, List.mem_filterMap]
  constructor
  · rintro ⟨⟨location, entry⟩, hmem, hway⟩
    obtain ⟨rfl, hne, rfl⟩ := directoryWay?_eq_some_iff.mp hway
    exact ⟨hne, get?_eq_some_iff.mpr (.inr hmem)⟩
  · rintro ⟨hne, hdirectory⟩
    have hmem : (root ++ way, .directory) ∈ fs.entries := by
      rcases get?_eq_some_iff.mp hdirectory with ⟨hroot, -⟩ | hmem
      · exact absurd (List.append_eq_nil_iff.mp hroot).2 hne
      · exact hmem
    exact ⟨_, hmem, directoryWay?_eq_some_iff.mpr ⟨rfl, hne, rfl⟩⟩

/-- Different entries have different ways. -/
theorem nodup_filterMap_entries (fs : FileSystem) (root : Location)
    {f : Location × Entry → Option (List Name)}
    (h : ∀ location entry way, f (location, entry) = some way → location = root ++ way) :
    (fs.entries.filterMap f).Nodup := by
  have hentries : fs.entries.Pairwise fun a b => a.1 ≠ b.1 := List.pairwise_map.mp fs.nodup
  refine List.pairwise_filterMap.mpr (hentries.imp ?_)
  rintro ⟨first, entry⟩ ⟨second, other⟩ hne way hway way' hway' rfl
  exact hne ((h _ _ _ hway).trans (h _ _ _ hway').symm)

theorem nodup_featureWays (fs : FileSystem) (root : Location) (recursive : Bool) :
    (fs.featureWays root recursive).Nodup := by
  refine (sortBy_perm _ _).nodup_iff.mpr (nodup_filterMap_entries fs root ?_)
  intro location entry way hway
  exact (featureWay?_eq_some_iff.mp hway).1

theorem nodup_directoryWays (fs : FileSystem) (root : Location) :
    (fs.directoryWays root).Nodup := by
  refine (sortBy_perm _ _).nodup_iff.mpr (nodup_filterMap_entries fs root ?_)
  intro location entry way hway
  exact (directoryWay?_eq_some_iff.mp hway).1

theorem pairwise_directoryWays (fs : FileSystem) (root : Location) :
    (fs.directoryWays root).Pairwise (wayLE · ·) := by
  apply pairwise_sortBy
  · exact fun _ _ _ => wayLE_trans
  · exact wayLE_total

theorem eq_of_mem_iff {ways others : List (List Name)} (hways : ways.Pairwise (wayLE · ·))
    (hothers : others.Pairwise (wayLE · ·)) (hnodup : ways.Nodup) (hnodup' : others.Nodup)
    (h : ∀ way, way ∈ ways ↔ way ∈ others) : ways = others :=
  ((List.perm_ext_iff_of_nodup hnodup hnodup').mpr h).eq_of_pairwise
    (fun _ _ _ _ => wayLE_antisymm) hways hothers

theorem featureWays_eq_of_mem_iff
    (h : ∀ way, way ∈ after.featureWays root recursive ↔ way ∈ before.featureWays root recursive) :
    after.featureWays root recursive = before.featureWays root recursive :=
  eq_of_mem_iff (pairwise_featureWays root recursive) (pairwise_featureWays root recursive)
    (after.nodup_featureWays root recursive) (before.nodup_featureWays root recursive) h

/-- The search finds the same ways where the same feature files are. -/
theorem featureWays_congr (h : ∀ location content,
      after.get? location = some (.file content) ↔ before.get? location = some (.file content)) :
    after.featureWays root recursive = before.featureWays root recursive := by
  refine featureWays_eq_of_mem_iff fun way => ?_
  rw [mem_featureWays_iff, mem_featureWays_iff]
  simp only [h]

/-- In an ordered list the first member that is found comes before all others that could be. -/
theorem le_of_find?_eq_some {ways : List (List Name)} (hordered : ways.Pairwise (wayLE · ·))
    {p : List Name → Bool} (hfind : ways.find? p = some way) {other : List Name}
    (hother : other ∈ ways) (hp : p other = true) : wayLE way other = true := by
  obtain ⟨-, earlier, later, rfl, hearlier⟩ := List.find?_eq_some_iff_append.mp hfind
  rcases List.mem_append.mp hother with hmem | hmem
  · have hnot := hearlier other hmem
    simp [hp] at hnot
  · rcases List.mem_cons.mp hmem with rfl | hmem
    · exact wayLE_iff.mpr le_rfl
    · obtain ⟨-, hrest, -⟩ := List.pairwise_append.mp hordered
      exact (List.pairwise_cons.mp hrest).1 other hmem

theorem unlistable?_eq_none_iff {path : Path} :
    fs.unlistable? path root recursive = none ↔
      (recursive = true → ∀ way ∈ fs.directoryWays root,
        (joinWay path way).byteCount ≤ pathLimit) := by
  cases recursive with
  | false => simp [unlistable?]
  | true => simp [unlistable?, List.find?_map]

/-- The directory that cannot be listed is the first of those whose paths are too long. -/
theorem unlistable?_eq_some_iff {path found : Path} :
    fs.unlistable? path root recursive = some found ↔
      recursive = true ∧ ∃ way ∈ fs.directoryWays root, found = joinWay path way ∧
        pathLimit < found.byteCount ∧ ∀ other ∈ fs.directoryWays root,
          pathLimit < (joinWay path other).byteCount → wayLE way other = true := by
  cases recursive with
  | false => simp [unlistable?]
  | true =>
      have hordered := pairwise_directoryWays fs root
      let tooLong (way : List Name) : Bool := pathLimit < (joinWay path way).byteCount
      have hfirst : fs.unlistable? path root true =
          ((fs.directoryWays root).find? tooLong).map (joinWay path) :=
        List.find?_map
      rw [hfirst, Option.map_eq_some_iff]
      simp only [true_and]
      constructor
      · rintro ⟨way, hfind, rfl⟩
        refine ⟨way, List.mem_of_find?_eq_some hfind, rfl, ?_, fun other hother hlong => ?_⟩
        · simpa [tooLong] using List.find?_some hfind
        · exact le_of_find?_eq_some hordered hfind hother (by simpa [tooLong] using hlong)
      · rintro ⟨way, hway, rfl, hlong, hleast⟩
        have htooLong : tooLong way = true := by simpa [tooLong] using hlong
        obtain ⟨least, hfind⟩ : ∃ least, (fs.directoryWays root).find? tooLong = some least :=
          Option.isSome_iff_exists.mp (List.find?_isSome.mpr ⟨way, hway, htooLong⟩)
        have hle := le_of_find?_eq_some hordered hfind hway htooLong
        have hge := hleast least (List.mem_of_find?_eq_some hfind)
          (by simpa [tooLong] using List.find?_some hfind)
        exact ⟨least, hfind, congrArg _ (wayLE_antisymm hle hge)⟩

end FileSystem

end FeatureMarkdown
