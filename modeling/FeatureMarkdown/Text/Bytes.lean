import FeatureMarkdown.Text.Basic

namespace FeatureMarkdown

abbrev Bytes := List UInt8

namespace Text

/-- The bytes of a text in UTF-8. -/
def toBytes (t : Text) : Bytes :=
  (String.ofList t).toUTF8.data.toList

def ofBytes? (bytes : Bytes) : Option Text :=
  (String.fromUTF8? ⟨bytes.toArray⟩).map String.toList

def byteCount (t : Text) : Nat :=
  t.foldr (fun c n => c.utf8Size + n) 0

end Text

end FeatureMarkdown
