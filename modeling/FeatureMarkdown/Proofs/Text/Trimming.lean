import FeatureMarkdown.Text.Blank
import Mathlib.Data.List.DropRight

namespace FeatureMarkdown.Text

/-- No blank stands at either end. -/
structure IsTrimmed (t : Text) : Prop where
  first : ∀ c, t.head? = some c → isBlank c = false
  last : ∀ c, t.getLast? = some c → isBlank c = false

variable {t : Text}

theorem trim_eq_nil_iff : trim t = [] ↔ ∀ c ∈ t, isBlank c = true := by
  have hend : trim t = [] ↔ ∀ c ∈ t.dropWhile isBlank, isBlank c = true :=
    List.rdropWhile_eq_nil_iff
  rw [hend]
  constructor
  · intro h c hc
    rw [← List.takeWhile_append_dropWhile (p := isBlank) (l := t)] at hc
    rcases List.mem_append.mp hc with hc | hc
    · exact List.mem_takeWhile_imp hc
    · exact h c hc
  · intro h c hc
    exact h c ((List.dropWhile_sublist isBlank).subset hc)

theorem trim_prefix_trimStart (t : Text) : trim t <+: trimStart t :=
  List.rdropWhile_prefix isBlank (trimStart t)

theorem isTrimmed_trim (t : Text) : (trim t).IsTrimmed where
  first c hc := by
    obtain ⟨behind, hbehind⟩ := trim_prefix_trimStart t
    have hstart : (t.dropWhile isBlank).head? = some c := by
      change (trimStart t).head? = some c
      rw [← hbehind, List.head?_append, hc]
      rfl
    have hnot := List.head?_dropWhile_not isBlank t
    rw [hstart] at hnot
    simpa using hnot
  last c hc := by
    have hself : (trim t).rdropWhile isBlank = trim t :=
      List.rdropWhile_idempotent isBlank (trimStart t)
    have hne : trim t ≠ [] := by
      intro hnil
      simp [hnil] at hc
    rw [List.getLast?_eq_some_getLast hne] at hc
    obtain rfl := Option.some.inj hc
    simpa using List.rdropWhile_eq_self_iff.mp hself hne

namespace IsTrimmed

theorem trimStart_append (h : t.IsTrimmed) (hne : t ≠ []) (s : Text) :
    trimStart (t ++ s) = t ++ s := by
  obtain ⟨c, rest, rfl⟩ := List.exists_cons_of_ne_nil hne
  have hc : isBlank c = false := h.first c rfl
  exact List.dropWhile_cons_of_neg (by simp [hc])

theorem trimEnd_append (h : t.IsTrimmed) {s : Text} (hs : ∀ c ∈ s, isBlank c = true) :
    trimEnd (t ++ s) = t := by
  have hblanks : ∀ c ∈ s.reverse, isBlank c = true := fun c hc => hs c (List.mem_reverse.mp hc)
  have hself : t.rdropWhile isBlank = t := by
    rw [List.rdropWhile_eq_self_iff]
    intro hne
    simp [h.last _ (List.getLast?_eq_some_getLast hne)]
  calc
    trimEnd (t ++ s) = ((s.reverse ++ t.reverse).dropWhile isBlank).reverse := by
      rw [trimEnd, List.reverse_append]
    _ = (t.reverse.dropWhile isBlank).reverse := by
      rw [List.dropWhile_append_of_pos hblanks]
    _ = t := hself

/-- Blanks behind a trimmed text are all that trimming takes away. -/
theorem trim_append (h : t.IsTrimmed) {s : Text} (hs : ∀ c ∈ s, isBlank c = true) :
    trim (t ++ s) = t := by
  by_cases hne : t = []
  · subst hne
    exact trim_eq_nil_iff.mpr hs
  · rw [trim, h.trimStart_append hne, h.trimEnd_append hs]

theorem trimEnd_eq (h : t.IsTrimmed) : trimEnd t = t := by
  simpa using h.trimEnd_append (List.forall_mem_nil _)

theorem trim_eq (h : t.IsTrimmed) : trim t = t := by
  simpa using h.trim_append (List.forall_mem_nil _)

end IsTrimmed

end FeatureMarkdown.Text
