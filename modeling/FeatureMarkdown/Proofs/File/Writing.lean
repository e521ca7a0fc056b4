import FeatureMarkdown.Proofs.File.Destination

namespace FeatureMarkdown

namespace FileSystem

/-- Writes each of the texts at its path, in order. -/
def writeAll (fs : FileSystem) (cwd : Location) :
    List (Path × Text) → Except FileError FileSystem
  | [] => .ok fs
  | (path, text) :: rest =>
    match fs.writeFile cwd path text.toBytes with
    | .error e => .error e
    | .ok after => writeAll after cwd rest

/-- Files have been made or refilled at some of the places, and nothing else has happened. -/
def FilesOnlyAt (before after : FileSystem) (places : Location → Prop) : Prop :=
  ∀ location, after.get? location = before.get? location ∨
    (places location ∧ (∃ content, after.get? location = some (.file content)) ∧
      ∀ entry, before.get? location = some entry → ∃ old, entry = .file old)

variable {fs other before middle after again : FileSystem} {cwd root location : Location}
  {directory path : Path} {content : Bytes} {outputs rest : List (Path × Text)}
  {places : Location → Prop}

theorem writeAll_cons_eq_ok_iff {text : Text} :
    fs.writeAll cwd ((path, text) :: rest) = .ok after ↔
      ∃ middle, fs.writeFile cwd path text.toBytes = .ok middle ∧
        middle.writeAll cwd rest = .ok after := by
  rw [writeAll]
  cases fs.writeFile cwd path text.toBytes <;> simp

namespace FilesOnlyAt

theorem refl (fs : FileSystem) (places : Location → Prop) : fs.FilesOnlyAt fs places :=
  fun _ => .inl rfl

theorem trans (hfirst : before.FilesOnlyAt middle places)
    (hsecond : middle.FilesOnlyAt after places) : before.FilesOnlyAt after places := by
  intro location
  rcases hsecond location with heq | ⟨hplace, hfile, hmiddle⟩
  · rw [heq]
    exact hfirst location
  · refine .inr ⟨hplace, hfile, ?_⟩
    rcases hfirst location with heq | ⟨-, -, hbefore⟩
    · rwa [← heq]
    · exact hbefore

theorem mono {wider : Location → Prop} (h : before.FilesOnlyAt after places)
    (hplaces : ∀ location, places location → wider location) : before.FilesOnlyAt after wider :=
  fun location => (h location).imp_right (.imp_left (hplaces location))

theorem outputsOnly (h : before.FilesOnlyAt after places)
    (hplaces : ∀ location, places location → leadsToFeature location = false) :
    before.OutputsOnly after :=
  h.mono hplaces

end FilesOnlyAt

theorem Put.filesOnlyAt (h : before.Put after location content) (hplace : places location) :
    before.FilesOnlyAt after places := by
  intro other
  by_cases heq : other = location
  · subst heq
    exact .inr ⟨hplace, ⟨content, h.get?_self⟩, h.file_of_some⟩
  · exact .inl (h.get?_other other heq)

theorem Put.directoriesWithin_symm (h : before.Put after location content) :
    after.DirectoriesWithin before := by
  intro other hother
  by_cases heq : other = location
  · rw [heq, h.get?_self] at hother
    simp at hother
  · exact (h.get?_other other heq).symm.trans hother

/-- Files that are written in one directory stand directly in it. -/
theorem filesOnlyAt_writeAll (hfs : fs.LinkFree) (hcwd : fs.get? cwd = some .directory)
    (hopens : fs.Opens cwd directory root)
    (houtputs : ∀ output ∈ outputs, ∃ name : Name, output.1 = directory.join name.val ∧
      places (root ++ [name]))
    (h : fs.writeAll cwd outputs = .ok after) : fs.FilesOnlyAt after places := by
  induction outputs generalizing fs with
  | nil => exact Except.ok.inj h ▸ .refl fs places
  | cons output rest ih =>
      obtain ⟨path, text⟩ := output
      obtain ⟨middle, hwrite, hrest⟩ := writeAll_cons_eq_ok_iff.mp h
      obtain ⟨name, rfl, hplace⟩ := houtputs _ List.mem_cons_self
      have hput := hopens.put_of_writeFile hfs hcwd hwrite
      have hmiddle := hput.linkFree hfs
      refine (hput.filesOnlyAt hplace).trans ?_
      exact ih hmiddle (hput.directoriesWithin _ hcwd)
        (hopens.mono hfs hmiddle hput.directoriesWithin)
        (fun output houtput => houtputs output (List.mem_cons_of_mem _ houtput)) hrest

/-- Where something is written, what is left does not depend on what was there. -/
theorem get?_writeAll_cases {after' : FileSystem} (hfs : fs.LinkFree) (hother : other.LinkFree)
    (hcwd : fs.get? cwd = some .directory) (hwithin : fs.DirectoriesWithin other)
    (h : fs.writeAll cwd outputs = .ok after) (h' : other.writeAll cwd outputs = .ok after')
    (location : Location) :
    (after.get? location = fs.get? location ∧ after'.get? location = other.get? location) ∨
      after'.get? location = after.get? location := by
  induction outputs generalizing fs other with
  | nil =>
      obtain rfl := Except.ok.inj h
      obtain rfl := Except.ok.inj h'
      exact .inl ⟨rfl, rfl⟩
  | cons output rest ih =>
      obtain ⟨path, text⟩ := output
      obtain ⟨middle, hwrite, hrest⟩ := writeAll_cons_eq_ok_iff.mp h
      obtain ⟨middle', hwrite', hrest'⟩ := writeAll_cons_eq_ok_iff.mp h'
      obtain ⟨place, hlocate, hput⟩ := put_of_writeFile hfs hcwd hwrite
      obtain ⟨place', hlocate', hput'⟩ := put_of_writeFile hother (hwithin _ hcwd) hwrite'
      obtain rfl : place = place' :=
        Except.ok.inj ((locate_mono hfs hother hwithin id hlocate).symm.trans hlocate')
      have hmiddle : middle.DirectoriesWithin middle' := fun location hlocation =>
        hput'.directoriesWithin _ (hwithin _ (hput.directoriesWithin_symm _ hlocation))
      rcases ih (hput.linkFree hfs) (hput'.linkFree hother) (hput.directoriesWithin _ hcwd) hmiddle
        hrest hrest' with ⟨hsame, hsame'⟩ | hequal
      · by_cases heq : location = place
        · right
          rw [hsame, hsame', heq, hput.get?_self, hput'.get?_self]
        · left
          rw [hsame, hsame', hput.get?_other _ heq, hput'.get?_other _ heq]
          exact ⟨rfl, rfl⟩
      · exact .inr hequal

/-- The entries are told by their places, in order, and by what stands there. -/
theorem entries_eq (fs : FileSystem) :
    fs.entries = (fs.entries.map Prod.fst).filterMap fun location =>
      (fs.get? location).map (location, ·) := by
  have hentry : ∀ e ∈ fs.entries, (fs.get? e.1).map (e.1, ·) = some e := by
    intro e he
    have hget : fs.get? e.1 = some e.2 := get?_eq_some_iff.mpr (.inr he)
    rw [hget]
    rfl
  rw [List.filterMap_map]
  exact ((List.filterMap_congr hentry).trans List.filterMap_some).symm

theorem eq_of_get?_eq (hplaces : after.entries.map Prod.fst = before.entries.map Prod.fst)
    (h : ∀ location, after.get? location = before.get? location) : after = before := by
  have hentries : after.entries = before.entries := by
    rw [after.entries_eq, before.entries_eq, hplaces]
    simp only [h]
  cases after
  cases before
  cases hentries
  rfl

theorem places_of_writeFile (h : fs.writeFile cwd path content = .ok after) :
    fs.entries.map Prod.fst <+: after.entries.map Prod.fst := by
  unfold writeFile at h
  split at h
  · contradiction
  split at h
  · obtain rfl := Except.ok.inj h
    unfold add
    split
    · simp
    · exact List.prefix_refl _
  · rename_i location _ _ _ _
    obtain rfl := Except.ok.inj h
    have hplaces : Prod.fst ∘ refill location content = Prod.fst :=
      funext (refill_fst location content)
    simp [setContent, List.map_map, hplaces]
  · contradiction

theorem places_of_writeAll (h : fs.writeAll cwd outputs = .ok after) :
    fs.entries.map Prod.fst <+: after.entries.map Prod.fst := by
  induction outputs generalizing fs with
  | nil => exact Except.ok.inj h ▸ List.prefix_refl _
  | cons output rest ih =>
      obtain ⟨middle, hwrite, hrest⟩ := writeAll_cons_eq_ok_iff.mp h
      exact (places_of_writeFile hwrite).trans (ih hrest)

theorem eq_of_writeAll (h : fs.writeAll cwd outputs = .ok after)
    (hsame : ∀ location, after.get? location = fs.get? location) : after = fs := by
  obtain ⟨added, hadded⟩ := places_of_writeAll h
  have hnone : added = [] := by
    refine List.eq_nil_iff_forall_not_mem.mpr fun location hlocation => ?_
    have hmem : location ∈ after.entries.map Prod.fst := hadded ▸ List.mem_append_right _ hlocation
    obtain ⟨⟨place, entry⟩, hentry, rfl⟩ := List.mem_map.mp hmem
    have hget : fs.get? place = some entry :=
      (hsame place).symm.trans (get?_eq_some_iff.mpr (.inr hentry))
    rcases get?_eq_some_iff.mp hget with ⟨hroot, -⟩ | hold
    · exact (after.grounded _ hentry).1 hroot
    · have hnodup := after.nodup
      rw [← hadded, List.nodup_append] at hnodup
      exact hnodup.2.2 place (List.mem_map.mpr ⟨_, hold, rfl⟩) place hlocation rfl
  refine eq_of_get?_eq ?_ hsame
  rw [← hadded, hnone, List.append_nil]

/-- Writing the same once more changes nothing. -/
theorem writeAll_idempotent (hfs : fs.LinkFree) (hafter : after.LinkFree)
    (hcwd : fs.get? cwd = some .directory) (hwithin : fs.DirectoriesWithin after)
    (h : fs.writeAll cwd outputs = .ok after) (hagain : after.writeAll cwd outputs = .ok again) :
    again = after := by
  refine eq_of_writeAll hagain fun location => ?_
  rcases get?_writeAll_cases hfs hafter hcwd hwithin h hagain location with ⟨-, hsame⟩ | hsame
  · exact hsame
  · exact hsame

end FileSystem

end FeatureMarkdown
