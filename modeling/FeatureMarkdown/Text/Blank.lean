import FeatureMarkdown.Text.Basic

namespace FeatureMarkdown.Text

/-- The characters with the Unicode property `White_Space`. -/
def isBlank (c : Char) : Bool :=
  let n := c.toNat
  (0x9 ≤ n && n ≤ 0xD) || n == 0x20 || n == 0x85 || n == 0xA0 || n == 0x1680 ||
    (0x2000 ≤ n && n ≤ 0x200A) || n == 0x2028 || n == 0x2029 || n == 0x202F || n == 0x205F ||
    n == 0x3000

def trimStart (t : Text) : Text :=
  t.dropWhile isBlank

def trimEnd (t : Text) : Text :=
  (t.reverse.dropWhile isBlank).reverse

def trim (t : Text) : Text :=
  trimEnd (trimStart t)

def trimEndColons (t : Text) : Text :=
  (t.reverse.dropWhile (· = ':')).reverse

theorem trimEnd_sublist (t : Text) : (trimEnd t).Sublist t := by
  have h := (List.dropWhile_sublist isBlank (l := t.reverse)).reverse
  rwa [List.reverse_reverse] at h

theorem trim_sublist (t : Text) : (trim t).Sublist t :=
  (trimEnd_sublist (trimStart t)).trans (List.dropWhile_sublist isBlank)

theorem trimEndColons_sublist (t : Text) : (trimEndColons t).Sublist t := by
  have h := (List.dropWhile_sublist (· = ':') (l := t.reverse)).reverse
  rwa [List.reverse_reverse] at h

end FeatureMarkdown.Text
