import FeatureMarkdown.Batch.Run
import FeatureMarkdown.Proofs.Json.Reader

namespace FeatureMarkdown

namespace Json

def field? (name : Text) : Json → Option Json
  | .object fields => (fields.find? (·.1 = name)).map Prod.snd
  | _ => none

def text? : Json → Option Text
  | .string value => some value
  | _ => none

def optional? {α : Type} (f : Json → Option α) : Json → Option (Option α)
  | .null => some none
  | value => (f value).map some

def list? {α : Type} (f : Json → Option α) : Json → Option (List α)
  | .array members => members.mapM f
  | _ => none

variable {α : Type} {f : Json → Option α} {g : α → Json}

@[simp] theorem text?_string (value : Text) : text? (.string value) = some value := rfl

@[simp] theorem field?_object_cons (name key : Text) (value : Json) (fields : List (Text × Json)) :
    field? name (.object ((key, value) :: fields)) =
      if key = name then some value else field? name (.object fields) := by
  by_cases h : key = name <;> simp [field?, h]

theorem list?_list (h : ∀ a, f (g a) = some a) (members : List α) :
    list? f (list g members) = some members := by
  rw [list, list?]
  induction members with
  | nil => rfl
  | cons a members ih => simp [h, ih]

theorem optional?_optional (h : ∀ a, f (g a) = some a) (hnull : ∀ a, g a ≠ .null)
    (value : Option α) : optional? f (optional g value) = some value := by
  cases value with
  | none => rfl
  | some a =>
      have ha := hnull a
      rw [optional, optional?]
      · rw [h, Option.map_some]
      · exact ha

end Json

open Json (field? text? optional? list? list?_list optional?_optional)

def Table.ofJson? (json : Json) : Option Table := do
  let rows ← field? "rows".toList json
  return ⟨← list? (list? text?) rows⟩

def Tag.ofJson? (json : Json) : Option Tag := do
  return ⟨← text? json⟩

def Step.ofJson? (json : Json) : Option Step := do
  let keyword ← field? "keyword".toList json
  let text ← field? "text".toList json
  let table ← field? "table".toList json
  return ⟨← text? keyword, ← text? text, ← optional? Table.ofJson? table⟩

def Examples.ofJson? (json : Json) : Option Examples := do
  let keyword ← field? "keyword".toList json
  let table ← field? "table".toList json
  return ⟨← text? keyword, ← optional? Table.ofJson? table⟩

def Background.ofJson? (json : Json) : Option Background := do
  let steps ← field? "steps".toList json
  return ⟨← list? Step.ofJson? steps⟩

def Scenario.ofJson? (json : Json) : Option Scenario := do
  let name ← field? "name".toList json
  let description ← field? "description".toList json
  let tags ← field? "tags".toList json
  let steps ← field? "steps".toList json
  let examples ← field? "examples".toList json
  return ⟨← text? name, ← optional? text? description, ← list? Tag.ofJson? tags,
    ← list? Step.ofJson? steps, ← list? Examples.ofJson? examples⟩

def Rule.ofJson? (json : Json) : Option Rule := do
  let name ← field? "name".toList json
  let description ← field? "description".toList json
  let tags ← field? "tags".toList json
  let background ← field? "background".toList json
  let scenarios ← field? "scenarios".toList json
  return ⟨← text? name, ← optional? text? description, ← list? Tag.ofJson? tags,
    ← optional? Background.ofJson? background, ← list? Scenario.ofJson? scenarios⟩

def Child.ofKind? (kind : Text) (json : Json) : Option Child :=
  if kind = "background".toList then (Background.ofJson? json).map .background
  else if kind = "scenario".toList then (Scenario.ofJson? json).map .scenario
  else if kind = "rule".toList then (Rule.ofJson? json).map .rule
  else none

def Child.ofJson? (json : Json) : Option Child := do
  Child.ofKind? (← text? (← field? "kind".toList json)) json

def Feature.ofJson? (json : Json) : Option Feature := do
  let name ← field? "name".toList json
  let description ← field? "description".toList json
  let tags ← field? "tags".toList json
  let children ← field? "children".toList json
  return ⟨← text? name, ← optional? text? description, ← list? Tag.ofJson? tags,
    ← list? Child.ofJson? children⟩

def Document.ofJson? (json : Json) : Option Document := do
  let feature ← field? "feature".toList json
  return ⟨← Feature.ofJson? feature⟩

/-- The document that the text is the JSON of. -/
def Document.ofText? (t : Text) : Option Document := do
  Document.ofJson? (← Json.read? t)

@[simp] theorem Table.ofJson?_toJson (table : Table) : ofJson? table.toJson = some table := by
  have hrows := list?_list (list?_list Json.text?_string) table.rows
  simp [ofJson?, toJson, hrows]

theorem Table.optional?_ofJson? (table : Option Table) :
    optional? Table.ofJson? (Json.optional Table.toJson table) = some table := by
  apply optional?_optional Table.ofJson?_toJson
  intro table
  simp [toJson]

theorem optional?_text (value : Option Text) :
    optional? text? (Json.optional .string value) = some value :=
  optional?_optional Json.text?_string (by simp) value

@[simp] theorem Tag.ofJson?_toJson (tag : Tag) : ofJson? tag.toJson = some tag := by
  simp [ofJson?, toJson]

@[simp] theorem Step.ofJson?_toJson (step : Step) : ofJson? step.toJson = some step := by
  simp [ofJson?, toJson, Table.optional?_ofJson?]

@[simp] theorem Examples.ofJson?_toJson (block : Examples) : ofJson? block.toJson = some block := by
  simp [ofJson?, toJson, Table.optional?_ofJson?]

theorem Background.ofJson?_toJson (background : Background) :
    ofJson? background.toJson = some background := by
  simp [ofJson?, toJson, fields, list?_list Step.ofJson?_toJson]

theorem Scenario.ofJson?_toJson (scenario : Scenario) :
    ofJson? scenario.toJson = some scenario := by
  simp [ofJson?, toJson, fields, optional?_text, list?_list Tag.ofJson?_toJson,
    list?_list Step.ofJson?_toJson, list?_list Examples.ofJson?_toJson]

theorem Rule.ofJson?_toJson (rule : Rule) : ofJson? (.object rule.fields) = some rule := by
  have hbackground : optional? Background.ofJson? (Json.optional Background.toJson rule.background) =
      some rule.background := by
    apply optional?_optional Background.ofJson?_toJson
    intro background
    simp [Background.toJson]
  simp [ofJson?, fields, optional?_text, hbackground, list?_list Tag.ofJson?_toJson,
    list?_list Scenario.ofJson?_toJson]

section Kind

variable (kind : Json) (fields : List (Text × Json))

/-- No node has a field of its own that is called as the kind is, so the kind does not disturb. -/
theorem Background.ofJson?_kind :
    ofJson? (.object (("kind".toList, kind) :: fields)) = ofJson? (.object fields) := by
  simp [ofJson?]

theorem Scenario.ofJson?_kind :
    ofJson? (.object (("kind".toList, kind) :: fields)) = ofJson? (.object fields) := by
  simp [ofJson?]

theorem Rule.ofJson?_kind :
    ofJson? (.object (("kind".toList, kind) :: fields)) = ofJson? (.object fields) := by
  simp [ofJson?]

end Kind

theorem Child.ofKind?_kind (child : Child) : ofKind? child.kind child.toJson = some child := by
  cases child with
  | background b =>
      have hnode : Background.ofJson? (Child.background b).toJson = some b :=
        (Background.ofJson?_kind _ b.fields).trans (Background.ofJson?_toJson b)
      have hkind : (Child.background b).kind = "background".toList := rfl
      rw [hkind, ofKind?, if_pos rfl, hnode, Option.map_some]
  | scenario s =>
      have hnode : Scenario.ofJson? (Child.scenario s).toJson = some s :=
        (Scenario.ofJson?_kind _ s.fields).trans (Scenario.ofJson?_toJson s)
      have hkind : (Child.scenario s).kind = "scenario".toList := rfl
      rw [hkind, ofKind?, if_neg (by decide), if_pos rfl, hnode, Option.map_some]
  | rule r =>
      have hnode : Rule.ofJson? (Child.rule r).toJson = some r :=
        (Rule.ofJson?_kind _ r.fields).trans (Rule.ofJson?_toJson r)
      have hkind : (Child.rule r).kind = "rule".toList := rfl
      rw [hkind, ofKind?, if_neg (by decide), if_neg (by decide), if_pos rfl, hnode,
        Option.map_some]

theorem Child.ofJson?_toJson (child : Child) : ofJson? child.toJson = some child := by
  have hkind : field? "kind".toList child.toJson = some (.string child.kind) := by
    rw [toJson, Json.field?_object_cons, if_pos rfl]
  rw [ofJson?, hkind]
  exact child.ofKind?_kind

theorem Feature.ofJson?_toJson (feature : Feature) : ofJson? feature.toJson = some feature := by
  simp [ofJson?, toJson, optional?_text, list?_list Tag.ofJson?_toJson,
    list?_list Child.ofJson?_toJson]

namespace Document

theorem ofJson?_toJson (document : Document) : ofJson? document.toJson = some document := by
  simp [ofJson?, toJson, Feature.ofJson?_toJson]

theorem ofText?_text (document : Document) : ofText? document.toJson.text = some document := by
  simp [ofText?, Json.read?_text, ofJson?_toJson]

end Document

/-- What a run writes for a document as JSON is a JSON text from which the document is decoded, with
everything in it; so no other document has this text. -/
theorem json_output_decodes (options : BatchOptions) (file : Path) (document : Document) :
    ∃ text, ((options.withFormat .json).generate file document).2 = .ok text ∧
      Json.IsValue text ∧ Document.ofText? text = some document ∧
      ∀ (otherFile : Path) (other : Document),
        ((options.withFormat .json).generate otherFile other).2 = .ok text → other = document := by
  have hdecode := document.ofText?_text
  refine ⟨document.toJson.text, rfl, document.toJson.isValue_text, hdecode, ?_⟩
  intro otherFile other hother
  have htext : other.toJson.text = document.toJson.text := Except.ok.inj hother
  have hdecode' := other.ofText?_text
  rw [htext, hdecode] at hdecode'
  exact (Option.some.inj hdecode').symm

end FeatureMarkdown
