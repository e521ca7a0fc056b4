import FeatureMarkdown.Proofs.File.Discovery
import Mathlib.Data.Char
import Mathlib.Data.List.Lex
import Mathlib.Order.Lattice

namespace FeatureMarkdown

section Lexicographic

variable {α : Type} [LinearOrder α] {a b : α} {first second : List α}

theorem nil_le_list (l : List α) : [] ≤ l :=
  not_lt.mp (List.not_lt_nil l)

theorem not_cons_le_nil : ¬ a :: first ≤ [] :=
  not_le.mpr (List.nil_lt_cons a first)

theorem cons_le_cons_iff : a :: first ≤ b :: second ↔ a < b ∨ a = b ∧ first ≤ second := by
  rw [← not_lt, ← not_lt, List.cons_lt_cons_iff]
  constructor
  · intro h
    rcases lt_trichotomy a b with hlt | rfl | hgt
    · exact .inl hlt
    · exact .inr ⟨rfl, fun hless => h (.inr ⟨rfl, hless⟩)⟩
    · exact absurd (.inl hgt) h
  · rintro (hlt | ⟨rfl, hle⟩) (hgt | ⟨heq, hless⟩)
    · exact lt_asymm hlt hgt
    · exact hlt.ne heq.symm
    · exact lt_irrefl a hgt
    · exact hle hless

theorem append_le_append (above : List α) (h : first ≤ second) :
    above ++ first ≤ above ++ second := by
  induction above with
  | nil => exact h
  | cons a above ih => exact cons_le_cons_iff.mpr (.inr ⟨rfl, ih⟩)

end Lexicographic

theorem Text.le_iff {first second : Text} : Text.le first second = true ↔ first ≤ second := by
  induction first generalizing second with
  | nil => simp [Text.le, nil_le_list]
  | cons a first ih =>
      cases second with
      | nil => simp [Text.le, not_cons_le_nil]
      | cons b second =>
          rw [Text.le, cons_le_cons_iff]
          split
          next heq =>
            rw [ih]
            simp [heq]
          next hne =>
            rw [decide_eq_true_iff]
            exact ⟨.inl, fun h => h.resolve_right fun hboth => hne hboth.1⟩

namespace FileSystem

variable {fs : FileSystem} {cwd : Location} {first second : List Name}

theorem wayLE_iff : wayLE first second = true ↔ first.map Subtype.val ≤ second.map Subtype.val := by
  induction first generalizing second with
  | nil => simp [wayLE, nil_le_list]
  | cons a first ih =>
      cases second with
      | nil => simp [wayLE, not_cons_le_nil]
      | cons b second =>
          rw [wayLE, List.map_cons, List.map_cons, cons_le_cons_iff]
          split
          next heq =>
            rw [ih]
            simp [heq]
          next hne =>
            have hval : a.val ≠ b.val := fun h => hne (Subtype.ext h)
            rw [Text.le_iff, le_iff_lt_or_eq]
            simp [hval]

theorem wayLE_trans {first second third : List Name} (h : wayLE first second = true)
    (h' : wayLE second third = true) : wayLE first third = true :=
  wayLE_iff.mpr ((wayLE_iff.mp h).trans (wayLE_iff.mp h'))

theorem wayLE_total (first second : List Name) :
    wayLE first second = true ∨ wayLE second first = true := by
  rw [wayLE_iff, wayLE_iff]
  exact le_total _ _

theorem wayLE_antisymm {first second : List Name} (h : wayLE first second = true)
    (h' : wayLE second first = true) : first = second := by
  have heq := le_antisymm (wayLE_iff.mp h) (wayLE_iff.mp h')
  exact List.map_injective_iff.mpr Subtype.val_injective heq

theorem moves_joinWay (path : Path) (way : List Name) :
    (joinWay path way).moves = path.moves ++ way.map Subtype.val := by
  induction way generalizing path with
  | nil => simp [joinWay]
  | cons name way ih =>
      have hstep : joinWay path (name :: way) = joinWay (path.join name.val) way := rfl
      rw [hstep, ih, Path.moves_join name.property, List.append_assoc]
      rfl

theorem pairwise_featureWays (root : Location) (recursive : Bool) :
    (fs.featureWays root recursive).Pairwise (wayLE · ·) := by
  apply pairwise_sortBy
  · exact fun _ _ _ => wayLE_trans
  · exact wayLE_total

theorem pairwise_featuresBelow {path : Path} {location : Location} {recursive : Bool}
    {files : List Path} (h : fs.featuresBelow path location recursive = .ok files) :
    files.Pairwise fun file later => file.moves ≤ later.moves := by
  rw [featuresBelow_eq_ok h, List.pairwise_map]
  refine (pairwise_featureWays location recursive).imp fun hle => ?_
  rw [moves_joinWay, moves_joinWay]
  exact append_le_append path.moves (wayLE_iff.mp hle)

theorem pairwise_findFeatures {path : Path} {recursive : Bool} {files : List Path}
    (h : fs.findFeatures cwd path recursive = .ok files) :
    files.Pairwise fun file later => file.moves ≤ later.moves := by
  rcases findFeatures_cases h with ⟨location, hbelow⟩ | ⟨rfl, -⟩ | rfl
  · exact pairwise_featuresBelow hbelow
  · exact List.pairwise_singleton _ _
  · exact List.Pairwise.nil

end FileSystem

end FeatureMarkdown
