import FeatureMarkdown.File.Path

namespace FeatureMarkdown

def IsName (t : Text) : Prop :=
  t ≠ [] ∧ '/' ∉ t ∧ t ≠ ['.'] ∧ t ≠ ['.', '.']

instance (t : Text) : Decidable (IsName t) :=
  inferInstanceAs (Decidable (_ ∧ _ ∧ _ ∧ _))

abbrev Name := { t : Text // IsName t }

/-- The names on the way from the root of the file system, which is the empty location. -/
abbrev Location := List Name

/-- A step of a path. A slash at the end is one: what comes before it has to be a directory. -/
inductive Component where
  | current
  | parent
  | name (name : Name)
  | slash
deriving DecidableEq

namespace Path

/-- The step that a part of a path stands for; an empty part stands for none. -/
def component? (piece : Text) : Option Component :=
  if h : IsName piece then some (.name ⟨piece, h⟩)
  else if piece = ['.'] then some .current
  else if piece = ['.', '.'] then some .parent
  else none

def components (path : Path) : List Component :=
  path.pieces.filterMap component?

/-- The components of a path to look up, with the slash at its end if it has one. -/
def lookupComponents (path : Path) : List Component :=
  path.components ++ if path.endsInSlash then [.slash] else []

end Path

end FeatureMarkdown
