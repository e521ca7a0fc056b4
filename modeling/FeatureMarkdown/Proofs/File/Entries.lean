import FeatureMarkdown.File.Change

namespace FeatureMarkdown

namespace FileSystem

theorem find?_eq_some_of_mem {entries : List (Location × Entry)} {location : Location}
    {entry : Entry} (hnodup : (entries.map Prod.fst).Nodup) (hmem : (location, entry) ∈ entries) :
    entries.find? (·.1 = location) = some (location, entry) := by
  induction entries with
  | nil => simp at hmem
  | cons first rest ih =>
      rw [List.map_cons, List.nodup_cons] at hnodup
      by_cases hfirst : first.1 = location
      · rcases List.mem_cons.mp hmem with heq | hrest
        · simp [← heq]
        · exact absurd (List.mem_map.mpr ⟨_, hrest, rfl⟩) (hfirst ▸ hnodup.1)
      · rw [List.find?_cons_of_neg (by simpa using hfirst)]
        rcases List.mem_cons.mp hmem with heq | hrest
        · exact absurd (congrArg Prod.fst heq).symm hfirst
        · exact ih hnodup.2 hrest

theorem get?_eq_some_iff {fs : FileSystem} {location : Location} {entry : Entry} :
    fs.get? location = some entry ↔
      (location = [] ∧ entry = .directory) ∨ (location, entry) ∈ fs.entries := by
  constructor
  · intro h
    rcases mem_of_get? h with rfl | hmem
    · exact .inl ⟨rfl, by simpa [get?] using h.symm⟩
    · exact .inr hmem
  · rintro (⟨rfl, rfl⟩ | hmem)
    · rfl
    · rw [get?, if_neg (fs.grounded _ hmem).1, find?_eq_some_of_mem fs.nodup hmem, Option.map_some]

/-- Whatever is there stands in a directory. -/
theorem get?_dropLast {fs : FileSystem} {location : Location} {entry : Entry}
    (h : fs.get? location = some entry) : fs.get? location.dropLast = some .directory := by
  rcases get?_eq_some_iff.mp h with ⟨rfl, -⟩ | hmem
  · rfl
  · rcases (fs.grounded _ hmem).2 with hroot | hparent
    · rw [show location.dropLast = [] from hroot]
      rfl
    · exact get?_eq_some_iff.mpr (.inr hparent)

theorem get?_add {fs : FileSystem} {location : Location} (entry : Entry)
    (habsent : fs.get? location = none)
    (hparent : fs.get? location.dropLast = some .directory) (other : Location) :
    (fs.add location entry).get? other =
      if other = location then some entry else fs.get? other := by
  have hentries : (fs.add location entry).entries = fs.entries ++ [(location, entry)] := by
    rw [add, dif_pos ⟨habsent, hparent⟩]
  split
  next heq =>
    subst heq
    exact get?_eq_some_iff.mpr (.inr (by simp [hentries]))
  next hne =>
    apply Option.ext
    intro e
    simp only [get?_eq_some_iff, hentries, List.mem_append, List.mem_singleton, Prod.mk.injEq, hne,
      false_and, or_false]

theorem add_of_no_room {fs : FileSystem} {location : Location} {entry : Entry}
    (h : ¬ (fs.get? location = none ∧ fs.get? location.dropLast = some .directory)) :
    fs.add location entry = fs :=
  dif_neg h

theorem get?_setContent {fs : FileSystem} {location : Location} {old : Bytes} (content : Bytes)
    (hfile : fs.get? location = some (.file old)) (other : Location) :
    (fs.setContent location content).get? other =
      if other = location then some (.file content) else fs.get? other := by
  have hentries : (fs.setContent location content).entries =
      fs.entries.map (refill location content) := rfl
  have hmem : (location, .file old) ∈ fs.entries := by
    rcases get?_eq_some_iff.mp hfile with ⟨-, hdirectory⟩ | hmem
    · contradiction
    · exact hmem
  split
  next heq =>
    subst heq
    refine get?_eq_some_iff.mpr (.inr ?_)
    rw [hentries]
    exact List.mem_map.mpr ⟨_, hmem, by simp [refill]⟩
  next hne =>
    apply Option.ext
    intro e
    simp only [get?_eq_some_iff, hentries, List.mem_map]
    refine or_congr Iff.rfl ⟨?_, fun h => ⟨(other, e), h, ?_⟩⟩
    · rintro ⟨⟨place, entry⟩, hplace, heq⟩
      have hother : place = other :=
        (refill_fst location content (place, entry)).symm.trans (congrArg Prod.fst heq)
      subst hother
      cases entry <;> simpa [refill, hne, ← heq] using hplace
    · cases e <;> simp [refill, hne]

end FileSystem

end FeatureMarkdown
