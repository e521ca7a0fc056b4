import FeatureMarkdown.Proofs.Json.Grammar

/-!
A reader of JSON, character by character, with the containers that are open on a stack. It reads the
indented text of a value as that value.
-/

namespace FeatureMarkdown.Json

/-- An array or object that is open, with what has been read of it so far. A value that is read
next belongs to it, in an object under the key. -/
inductive Frame where
  | array (members : List Json)
  | object (fields : List (Text × Json)) (key : Text)

/-- What a string is read for. -/
inductive Purpose where
  | value (stack : List Frame)
  | key (fields : List (Text × Json)) (stack : List Frame)

inductive State where
  | value (stack : List Frame)
  | key (fields : List (Text × Json)) (stack : List Frame)
  | colon (fields : List (Text × Json)) (key : Text) (stack : List Frame)
  | string (read : Text) (purpose : Purpose)
  | escape (read : Text) (purpose : Purpose)
  /-- Inside an escape by number, with so many digits to come. -/
  | code (digits number : Nat) (read : Text) (purpose : Purpose)
  /-- Inside the word for no value, with these letters to come. -/
  | null (letters : Text) (stack : List Frame)
  /-- Behind a value. -/
  | done (value : Json) (stack : List Frame)

def Purpose.finish (read : Text) : Purpose → State
  | .value stack => .done (.string read) stack
  | .key fields stack => .colon fields read stack

def hexValue? (c : Char) : Option Nat :=
  if c.isDigit then some (c.toNat - '0'.toNat)
  else if 'a' ≤ c && c ≤ 'f' then some (c.toNat - 'a'.toNat + 10)
  else if 'A' ≤ c && c ≤ 'F' then some (c.toNat - 'A'.toNat + 10)
  else none

def unescape? (c : Char) : Option Char :=
  if c = '"' ∨ c = '\\' ∨ c = '/' then some c
  else if c = 'b' then some '\x08'
  else if c = 'f' then some '\x0c'
  else if c = 'n' then some '\n'
  else if c = 'r' then some '\r'
  else if c = 't' then some '\t'
  else none

/-- A container without members may be closed where the first one could begin. -/
def valueStep (stack : List Frame) (c : Char) : Option State :=
  if isSpace c then some (.value stack)
  else if c = '"' then some (.string [] (.value stack))
  else if c = '[' then some (.value (.array [] :: stack))
  else if c = '\x7b' then some (.key [] stack)
  else if c = 'n' then some (.null ['u', 'l', 'l'] stack)
  else if c = ']' then
    match stack with
    | .array [] :: outer => some (.done (.array []) outer)
    | _ => none
  else none

def keyStep (fields : List (Text × Json)) (stack : List Frame) (c : Char) : Option State :=
  if isSpace c then some (.key fields stack)
  else if c = '"' then some (.string [] (.key fields stack))
  else if c = '\x7d' && fields.isEmpty then some (.done (.object []) stack)
  else none

def stringStep (read : Text) (purpose : Purpose) (c : Char) : Option State :=
  if c = '"' then some (purpose.finish read)
  else if c = '\\' then some (.escape read purpose)
  else if c.toNat < 0x20 then none
  else some (.string (read ++ [c]) purpose)

def escapeStep (read : Text) (purpose : Purpose) (c : Char) : Option State :=
  if c = 'u' then some (.code 4 0 read purpose)
  else (unescape? c).map fun unescaped => .string (read ++ [unescaped]) purpose

/-- The number has to be that of a character, which the halves of a surrogate pair are not. -/
def codeStep (digits number : Nat) (read : Text) (purpose : Purpose) (c : Char) : Option State :=
  match hexValue? c with
  | none => none
  | some digit =>
    let number := 16 * number + digit
    if 1 < digits then some (.code (digits - 1) number read purpose)
    else if number.isValidChar then some (.string (read ++ [Char.ofNat number]) purpose)
    else none

def doneStep (value : Json) (stack : List Frame) (c : Char) : Option State :=
  if isSpace c then some (.done value stack)
  else
    match stack with
    | [] => none
    | .array members :: outer =>
      if c = ',' then some (.value (.array (members ++ [value]) :: outer))
      else if c = ']' then some (.done (.array (members ++ [value])) outer)
      else none
    | .object fields key :: outer =>
      if c = ',' then some (.key (fields ++ [(key, value)]) outer)
      else if c = '\x7d' then some (.done (.object (fields ++ [(key, value)])) outer)
      else none

def step (c : Char) : State → Option State
  | .value stack => valueStep stack c
  | .key fields stack => keyStep fields stack c
  | .colon fields key stack =>
    if isSpace c then some (.colon fields key stack)
    else if c = ':' then some (.value (.object fields key :: stack))
    else none
  | .string read purpose => stringStep read purpose c
  | .escape read purpose => escapeStep read purpose c
  | .code digits number read purpose => codeStep digits number read purpose c
  | .null letters stack =>
    if letters.head? = some c then
      some (if letters.tail = [] then .done .null stack else .null letters.tail stack)
    else none
  | .done value stack => doneStep value stack c

def run (state : State) : Text → Option State
  | [] => some state
  | c :: rest => (step c state).bind (run · rest)

/-- The value that the text is, if it has no numbers and truth values in it. -/
def read? (t : Text) : Option Json :=
  match run (.value []) t with
  | some (.done value []) => some value
  | _ => none

/-- The reader gets from one state to another through the text. -/
def Reads (state : State) (t : Text) (after : State) : Prop :=
  run state t = some after

namespace Reads

variable {state middle after : State} {first second : Text}

theorem nil (state : State) : Reads state [] state := rfl

theorem cons {c : Char} {rest : Text} (hstep : step c state = some middle)
    (hrest : Reads middle rest after) : Reads state (c :: rest) after := by
  rw [Reads, run, hstep]
  exact hrest

theorem one {c : Char} (hstep : step c state = some after) : Reads state [c] after :=
  cons hstep (nil after)

theorem append (hfirst : Reads state first middle) (hsecond : Reads middle second after) :
    Reads state (first ++ second) after := by
  induction first generalizing state with
  | nil =>
      obtain rfl : state = middle := Option.some.inj hfirst
      exact hsecond
  | cons c rest ih =>
      rw [Reads, run] at hfirst
      obtain ⟨next, hstep, hrest⟩ := Option.bind_eq_some_iff.mp hfirst
      exact cons hstep (ih hrest)

end Reads

/-- Blanks make no difference here. -/
def SkipsSpace (state : State) : Prop :=
  ∀ c, isSpace c = true → step c state = some state

theorem reads_space {state : State} (hstate : SkipsSpace state) {t : Text} (h : IsSpace t) :
    Reads state t state := by
  induction t with
  | nil => exact .nil state
  | cons c rest ih =>
      have hc := hstate c (h c List.mem_cons_self)
      exact .cons hc (ih fun d hd => h d (List.mem_cons_of_mem c hd))

theorem skipsSpace_value (stack : List Frame) : SkipsSpace (.value stack) := by
  intro c hc
  simp [step, valueStep, hc]

theorem skipsSpace_key (fields : List (Text × Json)) (stack : List Frame) :
    SkipsSpace (.key fields stack) := by
  intro c hc
  simp [step, keyStep, hc]

theorem skipsSpace_done (value : Json) (stack : List Frame) : SkipsSpace (.done value stack) := by
  intro c hc
  simp [step, doneStep, hc]

theorem hexValue?_hexDigit : ∀ n < 16, hexValue? (hexDigit n) = some n := by
  decide

theorem reads_code (n : Nat) (h : n < 0x20) (read : Text) (purpose : Purpose) :
    Reads (.string read purpose) ['\\', 'u', '0', '0', hexDigit (n / 16), hexDigit (n % 16)]
      (.string (read ++ [Char.ofNat n]) purpose) := by
  have hhigh := hexValue?_hexDigit (n / 16) (by omega)
  have hlow := hexValue?_hexDigit (n % 16) (by omega)
  have hnumber : 16 * (n / 16) + n % 16 = n := Nat.div_add_mod n 16
  have hvalid : n.isValidChar := .inl (by omega)
  have hzero (digits : Nat) : step '0' (.code (digits + 2) 0 read purpose) =
      some (.code (digits + 1) 0 read purpose) := by
    simp [step, codeStep, show hexValue? '0' = some 0 from rfl]
  have hfirst : step (hexDigit (n / 16)) (.code 2 0 read purpose) =
      some (.code 1 (n / 16) read purpose) := by
    simp [step, codeStep, hhigh]
  have hsecond : step (hexDigit (n % 16)) (.code 1 (n / 16) read purpose) =
      some (.string (read ++ [Char.ofNat n]) purpose) := by
    simp [step, codeStep, hlow, hnumber, hvalid]
  exact .cons rfl (.cons rfl (.cons (hzero 2) (.cons (hzero 1) (.cons hfirst (.one hsecond)))))

theorem reads_escapeChar (c : Char) (read : Text) (purpose : Purpose) :
    Reads (.string read purpose) (escapeChar c) (.string (read ++ [c]) purpose) := by
  unfold escapeChar
  iterate 7
    split
    next h =>
      subst h
      exact .cons rfl (.one rfl)
  split
  next hcontrol =>
    have hcode := reads_code c.toNat hcontrol read purpose
    rwa [Char.ofNat_toNat] at hcode
  next hquote hslash _ _ _ _ _ hcontrol =>
    exact .one (by simp [step, stringStep, hquote, hslash, hcontrol])

theorem reads_escaped (value read : Text) (purpose : Purpose) :
    Reads (.string read purpose) (value.flatMap escapeChar) (.string (read ++ value) purpose) := by
  induction value generalizing read with
  | nil => simpa using Reads.nil (.string read purpose)
  | cons c value ih =>
      have hrest := ih (read ++ [c])
      rw [List.append_assoc] at hrest
      rw [List.flatMap_cons]
      exact (reads_escapeChar c read purpose).append hrest

theorem reads_quote {state : State} (purpose : Purpose)
    (hstate : step '"' state = some (.string [] purpose)) (value : Text) :
    Reads state (quote value) (purpose.finish value) := by
  have hescaped := reads_escaped value [] purpose
  exact ((Reads.one hstate).append hescaped).append (.one rfl)

/-- A key with its colon, up to where the value has to come. -/
theorem reads_key (fields : List (Text × Json)) (key : Text) (stack : List Frame) :
    Reads (.key fields stack) (quote key ++ [':', ' ']) (.value (.object fields key :: stack)) := by
  have hquote : Reads (.key fields stack) (quote key) (.colon fields key stack) :=
    reads_quote (.key fields stack) rfl key
  exact hquote.append (.cons rfl (.one rfl))

mutual

theorem reads_textAt : ∀ (value : Json) (level : Nat) (stack : List Frame),
    Reads (.value stack) (textAt level value) (.done value stack)
  | .null, level, stack => by
      rw [textAt]
      exact .cons rfl (.cons rfl (.cons rfl (.one rfl)))
  | .string value, level, stack => by
      rw [textAt]
      exact reads_quote (.value stack) rfl value
  | .array [], level, stack => by
      rw [textAt]
      exact .cons rfl (.one rfl)
  | .array (first :: rest), level, stack => by
      have hspace := reads_space (skipsSpace_value (.array [] :: stack))
        (isSpace_indentation (level + 1))
      have hfirst := reads_textAt first (level + 1) (.array [] :: stack)
      have hrest := reads_memberTexts rest first [] (level + 1) stack (isSpace_indentation level)
      have hopen : Reads (.value stack) ['['] (.value (.array [] :: stack)) := .one rfl
      have hall := ((hopen.append hspace).append hfirst).append hrest
      rw [textAt]
      simpa only [List.append_assoc, List.nil_append] using hall
  | .object [], level, stack => by
      rw [textAt]
      exact .cons rfl (.one rfl)
  | .object ((key, first) :: rest), level, stack => by
      have hspace := reads_space (skipsSpace_key [] stack) (isSpace_indentation (level + 1))
      have hfirst := reads_textAt first (level + 1) (.object [] key :: stack)
      have hrest := reads_fieldTexts rest key first [] (level + 1) stack (isSpace_indentation level)
      have hopen : Reads (.value stack) ['\x7b'] (.key [] stack) := .one rfl
      have hall := (((hopen.append hspace).append (reads_key [] key stack)).append hfirst).append
        hrest
      rw [textAt]
      simpa only [List.append_assoc, List.nil_append] using hall

/-- Behind a member of an array, the members that follow and the bracket are read. -/
theorem reads_memberTexts : ∀ (rest : List Json) (first : Json) (members : List Json) (level : Nat)
    (stack : List Frame) {space : Text}, IsSpace space →
      Reads (.done first (.array members :: stack)) (memberTexts level rest ++ space ++ [']'])
        (.done (.array (members ++ first :: rest)) stack)
  | [], first, members, level, stack, space, hspace => by
      have hskip := reads_space (skipsSpace_done first (.array members :: stack)) hspace
      rw [memberTexts, List.nil_append]
      exact hskip.append (.one rfl)
  | next :: rest, first, members, level, stack, space, hspace => by
      have hcomma : Reads (.done first (.array members :: stack)) [',']
          (.value (.array (members ++ [first]) :: stack)) := .one rfl
      have hskip := reads_space (skipsSpace_value (.array (members ++ [first]) :: stack))
        (isSpace_indentation level)
      have hnext := reads_textAt next level (.array (members ++ [first]) :: stack)
      have hrest := reads_memberTexts rest next (members ++ [first]) level stack hspace
      have hall := ((hcomma.append hskip).append hnext).append hrest
      rw [memberTexts]
      simpa only [List.append_assoc, List.singleton_append] using hall

theorem reads_fieldTexts : ∀ (rest : List (Text × Json)) (key : Text) (first : Json)
    (fields : List (Text × Json)) (level : Nat) (stack : List Frame) {space : Text}, IsSpace space →
      Reads (.done first (.object fields key :: stack))
        (fieldTexts level rest ++ space ++ ['\x7d'])
        (.done (.object (fields ++ (key, first) :: rest)) stack)
  | [], key, first, fields, level, stack, space, hspace => by
      have hskip := reads_space (skipsSpace_done first (.object fields key :: stack)) hspace
      rw [fieldTexts, List.nil_append]
      exact hskip.append (.one rfl)
  | (other, next) :: rest, key, first, fields, level, stack, space, hspace => by
      have hcomma : Reads (.done first (.object fields key :: stack)) [',']
          (.key (fields ++ [(key, first)]) stack) := .one rfl
      have hskip := reads_space (skipsSpace_key (fields ++ [(key, first)]) stack)
        (isSpace_indentation level)
      have hkey := reads_key (fields ++ [(key, first)]) other stack
      have hnext := reads_textAt next level (.object (fields ++ [(key, first)]) other :: stack)
      have hrest := reads_fieldTexts rest other next (fields ++ [(key, first)]) level stack hspace
      have hall := (((hcomma.append hskip).append hkey).append hnext).append hrest
      rw [fieldTexts]
      simpa only [List.append_assoc, List.singleton_append] using hall

end

theorem read?_text (value : Json) : read? value.text = some value := by
  have hrun : run (.value []) value.text = some (.done value []) := reads_textAt value 0 []
  rw [read?, hrun]

end FeatureMarkdown.Json
