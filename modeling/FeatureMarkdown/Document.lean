import FeatureMarkdown.Text.Basic

/-!
Feature documents: a feature with its backgrounds, scenarios and rules, their steps and tables.
Documents are built by the parser, or by hand with `Feature.new` and the `with` functions.
-/

namespace FeatureMarkdown

/-- Rows of cells in source order; the first row is the header. -/
structure Table where
  rows : List (List Text)
deriving DecidableEq, Inhabited

namespace Table

def header? (table : Table) : Option (List Text) :=
  table.rows.head?

def body (table : Table) : List (List Text) :=
  table.rows.tail

end Table

/-- A step such as `Given a user`, with the table that may follow it. -/
structure Step where
  keyword : Text
  text : Text
  table : Option Table
deriving DecidableEq, Inhabited

structure Background where
  steps : List Step
deriving DecidableEq, Inhabited

structure Examples where
  keyword : Text
  table : Option Table
deriving DecidableEq, Inhabited

/-- A tag by its name, without the `@` that marks it in the source. -/
structure Tag where
  name : Text
deriving DecidableEq, Inhabited

/-- One leading `@` is the mark of a tag; a second one belongs to the name. -/
def Tag.new : Text → Tag
  | '@' :: name => ⟨name⟩
  | name => ⟨name⟩

structure Scenario where
  name : Text
  description : Option Text
  tags : List Tag
  steps : List Step
  examples : List Examples
deriving DecidableEq, Inhabited

structure Rule where
  name : Text
  description : Option Text
  tags : List Tag
  background : Option Background
  scenarios : List Scenario
deriving DecidableEq, Inhabited

inductive Child where
  | background (background : Background)
  | scenario (scenario : Scenario)
  | rule (rule : Rule)
deriving DecidableEq, Inhabited

def Child.kind : Child → Text
  | .background _ => "background".toList
  | .scenario _ => "scenario".toList
  | .rule _ => "rule".toList

structure Feature where
  name : Text
  description : Option Text
  tags : List Tag
  children : List Child
deriving DecidableEq, Inhabited

namespace Feature

def new (name : Text) : Feature :=
  ⟨name, none, [], []⟩

def withDescription (feature : Feature) (description : Text) : Feature :=
  { feature with description := some description }

def withTag (feature : Feature) (tag : Text) : Feature :=
  { feature with tags := feature.tags ++ [Tag.new tag] }

def withChild (feature : Feature) (child : Child) : Feature :=
  { feature with children := feature.children ++ [child] }

end Feature

structure Document where
  feature : Feature
deriving DecidableEq, Inhabited

end FeatureMarkdown
