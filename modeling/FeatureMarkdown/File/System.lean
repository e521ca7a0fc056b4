import FeatureMarkdown.File.Location
import FeatureMarkdown.Text.Bytes

namespace FeatureMarkdown

inductive Entry where
  | file (content : Bytes)
  | directory
  | link (target : Path)
deriving DecidableEq

/-- No location has two entries, and every entry stands in a directory. The root has no entry: it
is always there. -/
structure FileSystem where
  entries : List (Location × Entry)
  nodup : (entries.map Prod.fst).Nodup
  grounded : ∀ e ∈ entries, e.1 ≠ [] ∧
    (e.1.dropLast = [] ∨ (e.1.dropLast, Entry.directory) ∈ entries)

namespace FileSystem

def empty : FileSystem :=
  ⟨[], by simp, by simp⟩

instance : Inhabited FileSystem :=
  ⟨empty⟩

def get? (fs : FileSystem) (location : Location) : Option Entry :=
  if location = [] then some .directory
  else (fs.entries.find? (·.1 = location)).map Prod.snd

theorem mem_of_get? {fs : FileSystem} {location : Location} {entry : Entry}
    (h : fs.get? location = some entry) : location = [] ∨ (location, entry) ∈ fs.entries := by
  unfold get? at h
  split at h
  · exact Or.inl ‹_›
  · obtain ⟨found, hfound, rfl⟩ := Option.map_eq_some_iff.1 h
    have hlocation : found.1 = location := by simpa using List.find?_some hfound
    exact Or.inr (hlocation ▸ List.mem_of_find?_eq_some hfound)

theorem notMem_of_get?_eq_none {fs : FileSystem} {location : Location}
    (h : fs.get? location = none) : location ∉ fs.entries.map Prod.fst := by
  unfold get? at h
  split at h
  · contradiction
  · intro hmem
    obtain ⟨e, he, rfl⟩ := List.mem_map.1 hmem
    simpa using List.find?_eq_none.1 (Option.map_eq_none_iff.1 h) e he

/-- Adds an entry in a directory. Nothing happens if there is no such directory or if it has the
entry already. -/
def add (fs : FileSystem) (location : Location) (entry : Entry) : FileSystem :=
  if h : fs.get? location = none ∧ fs.get? location.dropLast = some .directory then
    { entries := fs.entries ++ [(location, entry)]
      nodup := by
        rw [List.map_append, List.nodup_append]
        refine ⟨fs.nodup, by simp, ?_⟩
        intro a ha b hb hab
        obtain rfl : b = location := by simpa using hb
        exact notMem_of_get?_eq_none h.1 (hab ▸ ha)
      grounded := by
        intro e he
        rcases List.mem_append.1 he with he | he
        · obtain ⟨hne, hparent⟩ := fs.grounded e he
          exact ⟨hne, hparent.imp id fun hp => List.mem_append_left _ hp⟩
        · obtain rfl : e = (location, entry) := by simpa using he
          refine ⟨?_, (mem_of_get? h.2).imp id fun hp => List.mem_append_left _ hp⟩
          intro hnil
          have := h.1
          simp [get?, show location = [] from hnil] at this }
  else fs

def refill (location : Location) (content : Bytes) : Location × Entry → Location × Entry
  | (l, .file old) => (l, .file (if l = location then content else old))
  | e => e

theorem refill_fst (location : Location) (content : Bytes) (e : Location × Entry) :
    (refill location content e).1 = e.1 := by
  unfold refill
  split <;> rfl

def setContent (fs : FileSystem) (location : Location) (content : Bytes) : FileSystem :=
  { entries := fs.entries.map (refill location content)
    nodup := by
      have : Prod.fst ∘ refill location content = Prod.fst :=
        funext (refill_fst location content)
      rw [List.map_map, this]
      exact fs.nodup
    grounded := by
      intro changed hchanged
      obtain ⟨e, he, rfl⟩ := List.mem_map.1 hchanged
      rw [refill_fst]
      obtain ⟨hne, hparent⟩ := fs.grounded e he
      exact ⟨hne, hparent.imp id fun hp => List.mem_map.2 ⟨_, hp, rfl⟩⟩ }

end FileSystem

end FeatureMarkdown
