import FeatureMarkdown.Text.Bytes
import Mathlib.Data.Char
import Mathlib.Tactic.SplitIfs

namespace FeatureMarkdown

theorem ofNat_cons_lt {m n : Nat} (hn : n < 256) (hle : m ≤ n) {s t : List UInt8}
    (h : m = n → s < t) : UInt8.ofNat m :: s < UInt8.ofNat n :: t := by
  rcases Nat.lt_or_eq_of_le hle with hlt | rfl
  · have hm : m < UInt8.size := Nat.lt_trans hlt hn
    exact List.cons_lt_cons_iff.mpr (.inl ((UInt8.ofNat_lt_iff_lt hm hn).mpr hlt))
  · exact List.cons_lt_cons_iff.mpr (.inr ⟨rfl, h rfl⟩)

/-- Characters are told apart by their own bytes, whatever comes after them. -/
theorem utf8EncodeChar_append_lt {c d : Char} (h : c < d) (s t : List UInt8) :
    String.utf8EncodeChar c ++ s < String.utf8EncodeChar d ++ t := by
  have hlt : c.val.toNat < d.val.toNat := h
  have hmax : d.val.toNat < 0x110000 := by
    rcases d.valid with hd | hd
    · exact Nat.lt_trans hd (by decide)
    · exact hd.2
  have h4096 (n : Nat) : n / 4096 = n / 64 / 64 := by omega
  have h262144 (n : Nat) : n / 262144 = n / 64 / 64 / 64 := by omega
  unfold String.utf8EncodeChar
  generalize c.val.toNat = m at hlt ⊢
  generalize d.val.toNat = n at hlt hmax ⊢
  simp only [h4096, h262144]
  -- The lesser character takes no more bytes, and if it takes fewer, then its first byte is less.
  split_ifs <;> try omega
  all_goals refine ofNat_cons_lt (by omega) (by omega) fun _ => ?_
  all_goals try omega
  · exact ofNat_cons_lt (by omega) (by omega) fun _ => by omega
  · refine ofNat_cons_lt (by omega) (by omega) fun _ => ?_
    exact ofNat_cons_lt (by omega) (by omega) fun _ => by omega
  · refine ofNat_cons_lt (by omega) (by omega) fun _ => ?_
    refine ofNat_cons_lt (by omega) (by omega) fun _ => ?_
    exact ofNat_cons_lt (by omega) (by omega) fun _ => by omega

namespace Text

theorem toBytes_cons (c : Char) (t : Text) :
    toBytes (c :: t) = String.utf8EncodeChar c ++ toBytes t := by
  simp [toBytes, List.utf8Encode]

theorem toBytes_cons_ne_nil (c : Char) (t : Text) : toBytes (c :: t) ≠ [] := by
  simp [toBytes_cons, String.utf8EncodeChar_ne_nil]

theorem toBytes_lt_toBytes {first second : Text} (h : first < second) :
    first.toBytes < second.toBytes := by
  induction first generalizing second with
  | nil =>
      cases second with
      | nil => exact absurd h (List.not_lt_nil _)
      | cons d second =>
          obtain ⟨byte, rest, hbytes⟩ := List.exists_cons_of_ne_nil (toBytes_cons_ne_nil d second)
          rw [hbytes]
          exact List.nil_lt_cons byte rest
  | cons c first ih =>
      cases second with
      | nil => exact absurd h (List.not_lt_nil _)
      | cons d second =>
          rw [toBytes_cons, toBytes_cons]
          rcases List.cons_lt_cons_iff.mp h with hlt | ⟨rfl, hrest⟩
          · exact utf8EncodeChar_append_lt hlt _ _
          · exact List.append_left_lt (ih hrest)

end Text

end FeatureMarkdown
