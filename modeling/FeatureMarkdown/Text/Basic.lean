namespace FeatureMarkdown

/-- Text is the list of its characters, so every rule about text is a rule about lists. -/
abbrev Text := List Char

namespace Text

/-- The letters A to Z become small; every other character stays. -/
def toLowerAscii (t : Text) : Text :=
  t.map Char.toLower

/-- The members one after the other, with `gap` between neighbours. -/
def join (gap : Text) (members : List Text) : Text :=
  gap.intercalate members

/-- The dictionary order by code points. -/
def le : Text → Text → Bool
  | [], _ => true
  | _ :: _, [] => false
  | a :: s, b :: t => if a = b then le s t else a.toNat < b.toNat

end Text

end FeatureMarkdown
