import FeatureMarkdown.Json

namespace FeatureMarkdown.Json

def isSpace (c : Char) : Bool :=
  c = ' ' || c = '\t' || c = '\n' || c = '\r'

def IsSpace (t : Text) : Prop :=
  ∀ c ∈ t, isSpace c = true

def isHexDigit (c : Char) : Bool :=
  c.isDigit || ('a' ≤ c && c ≤ 'f') || ('A' ≤ c && c ≤ 'F')

/-- What stands for one character inside the quotes. -/
inductive IsStringPart : Text → Prop
  | plain {c : Char} (hcontrol : 0x20 ≤ c.toNat) (hquote : c ≠ '"') (hslash : c ≠ '\\') :
      IsStringPart [c]
  | short {c : Char} (h : c ∈ ['"', '\\', '/', 'b', 'f', 'n', 'r', 't']) : IsStringPart ['\\', c]
  | code {digits : Text} (hlength : digits.length = 4) (h : ∀ d ∈ digits, isHexDigit d = true) :
      IsStringPart ('\\' :: 'u' :: digits)

def IsString (t : Text) : Prop :=
  ∃ parts : List Text, (∀ part ∈ parts, IsStringPart part) ∧ t = ['"'] ++ parts.flatten ++ ['"']

def IsDigits (t : Text) : Prop :=
  t ≠ [] ∧ ∀ c ∈ t, c.isDigit = true

/-- A whole number without needless zeros in front, a fraction and an exponent. -/
def IsNumber (t : Text) : Prop :=
  ∃ sign whole fraction exponent : Text, t = sign ++ whole ++ fraction ++ exponent ∧
    (sign = [] ∨ sign = ['-']) ∧
    (IsDigits whole ∧ (whole.head? = some '0' → whole = ['0'])) ∧
    (fraction = [] ∨ ∃ digits, IsDigits digits ∧ fraction = '.' :: digits) ∧
    (exponent = [] ∨ ∃ e sign digits, (e = 'e' ∨ e = 'E') ∧
      (sign = [] ∨ sign = ['+'] ∨ sign = ['-']) ∧ IsDigits digits ∧ exponent = e :: sign ++ digits)

mutual

inductive IsValue : Text → Prop
  | word {t : Text} (h : t ∈ ["null".toList, "true".toList, "false".toList]) : IsValue t
  | number {t : Text} (h : IsNumber t) : IsValue t
  | string {t : Text} (h : IsString t) : IsValue t
  | emptyArray {space : Text} (h : IsSpace space) : IsValue (['['] ++ space ++ [']'])
  | array {members : Text} (h : IsMembers members) : IsValue (['['] ++ members ++ [']'])
  | emptyObject {space : Text} (h : IsSpace space) : IsValue (['\x7b'] ++ space ++ ['\x7d'])
  | object {fields : Text} (h : IsFields fields) : IsValue (['\x7b'] ++ fields ++ ['\x7d'])

/-- Values between commas, at least one. -/
inductive IsMembers : Text → Prop
  | last {before value after : Text} (hbefore : IsSpace before) (hvalue : IsValue value)
      (hafter : IsSpace after) : IsMembers (before ++ value ++ after)
  | more {before value after rest : Text} (hbefore : IsSpace before) (hvalue : IsValue value)
      (hafter : IsSpace after) (hrest : IsMembers rest) :
      IsMembers (before ++ value ++ after ++ [','] ++ rest)

/-- Values with their names, between commas, at least one. -/
inductive IsFields : Text → Prop
  | last {before key gap start value after : Text} (hbefore : IsSpace before)
      (hkey : IsString key) (hgap : IsSpace gap) (hstart : IsSpace start) (hvalue : IsValue value)
      (hafter : IsSpace after) :
      IsFields (before ++ key ++ gap ++ [':'] ++ start ++ value ++ after)
  | more {before key gap start value after rest : Text} (hbefore : IsSpace before)
      (hkey : IsString key) (hgap : IsSpace gap) (hstart : IsSpace start) (hvalue : IsValue value)
      (hafter : IsSpace after) (hrest : IsFields rest) :
      IsFields (before ++ key ++ gap ++ [':'] ++ start ++ value ++ after ++ [','] ++ rest)

end

theorem isSpace_nil : IsSpace [] := by
  intro c hc
  contradiction

theorem isSpace_singleton : IsSpace [' '] := by
  intro c hc
  obtain rfl := List.mem_singleton.mp hc
  rfl

theorem isSpace_indentation (level : Nat) : IsSpace (indentation level) := by
  intro c hc
  rcases List.mem_cons.mp hc with rfl | hc
  · rfl
  · obtain rfl := List.eq_of_mem_replicate hc
    rfl

theorem isHexDigit_hexDigit : ∀ n < 16, isHexDigit (hexDigit n) = true := by
  decide

theorem isStringPart_escapeChar (c : Char) : IsStringPart (escapeChar c) := by
  unfold escapeChar
  iterate 7
    split
    · exact .short (by decide)
  split
  next hcontrol =>
    refine .code rfl fun d hd => ?_
    simp only [List.mem_cons, List.not_mem_nil, or_false] at hd
    rcases hd with rfl | rfl | rfl | rfl
    · decide
    · decide
    · exact isHexDigit_hexDigit _ (by omega)
    · exact isHexDigit_hexDigit _ (by omega)
  next hquote hslash _ _ _ _ _ hcontrol =>
    exact .plain (Nat.not_lt.mp hcontrol) hquote hslash

theorem isString_quote (value : Text) : IsString (quote value) := by
  refine ⟨value.map escapeChar, fun part hpart => ?_, ?_⟩
  · obtain ⟨c, -, rfl⟩ := List.mem_map.mp hpart
    exact isStringPart_escapeChar c
  · rw [quote, List.flatMap_def]

mutual

theorem isValue_textAt : ∀ (value : Json) (level : Nat), IsValue (textAt level value)
  | .null, level => by
      rw [textAt]
      exact .word (by simp)
  | .string value, level => by
      rw [textAt]
      exact .string (isString_quote value)
  | .array [], level => by
      rw [textAt]
      exact .emptyArray isSpace_nil
  | .array (first :: rest), level => by
      have hmembers := isMembers_memberTexts rest (level + 1) (isSpace_indentation (level + 1))
        (isValue_textAt first (level + 1)) (isSpace_indentation level)
      have hvalue := IsValue.array hmembers
      rw [textAt]
      simpa only [List.append_assoc] using hvalue
  | .object [], level => by
      rw [textAt]
      exact .emptyObject isSpace_nil
  | .object ((key, first) :: rest), level => by
      have hfields := isFields_fieldTexts rest (level + 1) (isSpace_indentation (level + 1))
        (isString_quote key) (isValue_textAt first (level + 1)) (isSpace_indentation level)
      have hvalue := IsValue.object hfields
      rw [textAt]
      simpa only [List.append_assoc] using hvalue

theorem isMembers_memberTexts : ∀ (rest : List Json) (level : Nat) {before value after : Text},
    IsSpace before → IsValue value → IsSpace after →
      IsMembers (before ++ value ++ memberTexts level rest ++ after)
  | [], level, before, value, after, hbefore, hvalue, hafter => by
      rw [memberTexts, List.append_nil]
      exact .last hbefore hvalue hafter
  | member :: rest, level, before, value, after, hbefore, hvalue, hafter => by
      have hrest := isMembers_memberTexts rest level (isSpace_indentation level)
        (isValue_textAt member level) hafter
      have hmembers := IsMembers.more hbefore hvalue isSpace_nil hrest
      rw [memberTexts]
      simpa only [List.append_assoc, List.append_nil, List.nil_append] using hmembers

theorem isFields_fieldTexts : ∀ (rest : List (Text × Json)) (level : Nat)
    {before key value after : Text}, IsSpace before → IsString key → IsValue value →
      IsSpace after →
      IsFields (before ++ key ++ [':', ' '] ++ value ++ fieldTexts level rest ++ after)
  | [], level, before, key, value, after, hbefore, hkey, hvalue, hafter => by
      have hfields := IsFields.last hbefore hkey isSpace_nil isSpace_singleton hvalue hafter
      rw [fieldTexts]
      simpa only [List.append_assoc, List.append_nil, List.nil_append, List.cons_append] using
        hfields
  | (other, member) :: rest, level, before, key, value, after, hbefore, hkey, hvalue, hafter => by
      have hrest := isFields_fieldTexts rest level (isSpace_indentation level)
        (isString_quote other) (isValue_textAt member level) hafter
      have hfields := IsFields.more hbefore hkey isSpace_nil isSpace_singleton hvalue isSpace_nil
        hrest
      rw [fieldTexts]
      simpa only [List.append_assoc, List.append_nil, List.nil_append, List.cons_append] using
        hfields

end

theorem isValue_text (value : Json) : IsValue value.text :=
  isValue_textAt value 0

end FeatureMarkdown.Json
