import Mathlib.Data.List.TakeWhile
import FeatureMarkdown.Proofs.Command.Verdicts

namespace FeatureMarkdown

/-- A text that no reader of words takes for an option or for an equals sign and a value. -/
def Text.IsPlain (t : Text) : Prop :=
  t ≠ [] ∧ t.head? ≠ some '-' ∧ t.head? ≠ some '='

instance (t : Text) : Decidable t.IsPlain :=
  inferInstanceAs (Decidable (_ ∧ _ ∧ _))

theorem Text.IsPlain.isValue {t : Text} (h : t.IsPlain) : Command.Reading.isValue t := by
  unfold Command.Reading.isValue
  split
  · exact absurd rfl h.2.1
  · rfl

theorem Text.IsPlain.attached {t : Text} (h : t.IsPlain) : Command.Reading.attached t = t := by
  unfold Command.Reading.attached
  split
  · exact absurd rfl h.2.2
  · rfl

theorem settingName_cons {c : Char} (h : Text.isBlank c = false) (t : Text) :
    ∃ rest, settingName (c :: t) = c.toLower :: rest := by
  have hstart : Text.trimStart (c :: t) = c :: t := by simp [Text.trimStart, h]
  obtain ⟨rest, htrim⟩ : ∃ rest, Text.trimEnd (c :: t) = c :: rest := by
    rw [Text.trimEnd, List.reverse_cons, List.dropWhile_append]
    split <;> simp [h]
  exact ⟨Text.toLowerAscii rest, by rw [settingName, Text.trim, hstart, htrim]; rfl⟩

/-- The names of settings begin with letters, or with blanks that do not count. -/
theorem isPlain_of_settingName {t : Text}
    (h : settingName t ≠ [] ∧ (settingName t).head? ≠ some '-' ∧ (settingName t).head? ≠ some '=') :
    t.IsPlain := by
  cases t with
  | nil => exact absurd rfl h.1
  | cons c t =>
    refine ⟨List.cons_ne_nil c t, ?_, ?_⟩
    · rintro ⟨⟩
      obtain ⟨rest, hname⟩ := settingName_cons (c := '-') (by decide) t
      exact h.2.1 (by rw [hname]; rfl)
    · rintro ⟨⟩
      obtain ⟨rest, hname⟩ := settingName_cons (c := '=') (by decide) t
      exact h.2.2 (by rw [hname]; rfl)

theorem LogLevel.isPlain_of_parse {t : Text} {level : LogLevel}
    (h : LogLevel.parse t = .ok level) : t.IsPlain := by
  apply isPlain_of_settingName
  simp only [LogLevel.parse] at h
  generalize settingName t = name at h
  split at h
  · next htrace => subst htrace; decide
  split at h
  · next hdebug => subst hdebug; decide
  split at h
  · next hinfo => subst hinfo; decide
  split at h
  · next hwarn => rcases hwarn with rfl | rfl <;> decide
  split at h
  · next herror => subst herror; decide
  · exact nomatch h

theorem LineEnding.isPlain_of_parse {t : Text} {ending : LineEnding}
    (h : LineEnding.parse t = .ok ending) : t.IsPlain := by
  apply isPlain_of_settingName
  simp only [LineEnding.parse] at h
  generalize settingName t = name at h
  split at h
  · next hlf => rcases hlf with rfl | rfl <;> decide
  split at h
  · next hcrlf => rcases hcrlf with rfl | rfl <;> decide
  split at h
  · next hnative => subst hnative; decide
  · exact nomatch h

namespace Command

def Flag.letter : Flag → Char
  | .recursive => 'r'
  | .dryRun => 'd'
  | .json => 'j'
  | .help => 'h'
  | .version => 'V'

/-- The name of a slot that is not told by its place. -/
def Slot.name? : Slot → Option Text
  | .source => none
  | .output => some "output".toList
  | .logLevel => some "log-level".toList
  | .lineEnding => some "line-ending".toList

/-- The command lines that say the given things in the given order. What stands after `--` can only
be the source, and it comes last. -/
inductive Spells : List Mention → List Text → Prop
  | nil : Spells [] []
  | sourceAfterOptions (path : Text) :
    Spells [.slot .source (some path)] [['-', '-'], path]
  | source (path : Text) {said : List Mention} {words : List Text} :
    Spells said words → Spells (.slot .source (some path) :: said) (path :: words)
  | flag (flag : Flag) {said : List Mention} {words : List Text} :
    Spells said words → Spells (.flag flag :: said) (flag.usage :: words)
  | letters (flags : List Flag) (hflags : flags ≠ []) {said : List Mention}
    {words : List Text} :
    Spells said words →
      Spells (flags.map .flag ++ said) (('-' :: flags.map Flag.letter) :: words)
  -- Behind its letter the output takes what is left of the word, or else the next word.
  | outputAttached (flags : List Flag) (path : Text) {said : List Mention} {words : List Text} :
    Spells said words →
      Spells (flags.map .flag ++ .slot .output (some path) :: said)
        (('-' :: (flags.map Flag.letter ++ 'o' :: path)) :: words)
  | outputApart (flags : List Flag) (path : Text) {said : List Mention} {words : List Text} :
    Spells said words →
      Spells (flags.map .flag ++ .slot .output (some path) :: said)
        (('-' :: (flags.map Flag.letter ++ ['o'])) :: path :: words)
  | slotAttached (slot : Slot) (value : Text) {name : Text} (hname : slot.name? = some name)
    {said : List Mention} {words : List Text} :
    Spells said words →
      Spells (.slot slot (some value) :: said) (('-' :: '-' :: (name ++ '=' :: value)) :: words)
  | slotApart (slot : Slot) (value : Text) {name : Text} (hname : slot.name? = some name)
    {said : List Mention} {words : List Text} :
    Spells said words →
      Spells (.slot slot (some value) :: said) (('-' :: '-' :: name) :: value :: words)

namespace Mention

/-- A mention whose value, if it has one, is plain. -/
def IsPlain : Mention → Prop
  | .flag _ => True
  | .slot _ (some text) => text.IsPlain
  | .slot _ none => False
  | .fault _ => False

theorem ofLetters_flags (flags : List Flag) (rest : Text) :
    ofLetters (flags.map Flag.letter ++ rest) =
      (flags.map .flag ++ (ofLetters rest).1, (ofLetters rest).2) := by
  induction flags with
  | nil => rfl
  | cons first flags ih =>
    have hknown : Known.ofLetter? first.letter = some (.flag first) := by cases first <;> rfl
    simp only [List.map_cons, List.cons_append, ofLetters, hknown, ih]

theorem ofLetters_output {path : Text} (h : path.IsPlain) :
    ofLetters ('o' :: path) = ([.slot .output (some path)], none) := by
  have hknown : Known.ofLetter? 'o' = some (.slot .output) := rfl
  simp only [ofLetters, hknown, h.attached, if_neg h.1]

end Mention

theorem splitValue_of_notMem {name : Text} (h : '=' ∉ name) :
    Reading.splitValue name = (name, none) := by
  have hnone : name.dropWhile (· ≠ '=') = [] := by
    rw [List.dropWhile_eq_nil_iff]
    exact fun c hmem => by simpa using ne_of_mem_of_not_mem hmem h
  unfold Reading.splitValue
  rw [hnone]

theorem splitValue_append {name : Text} (h : '=' ∉ name) (value : Text) :
    Reading.splitValue (name ++ '=' :: value) = (name, some value) := by
  have hall : ∀ c ∈ name, decide (c ≠ '=') = true :=
    fun c hmem => by simpa using ne_of_mem_of_not_mem hmem h
  have hdrop : (name ++ '=' :: value).dropWhile (· ≠ '=') = '=' :: value := by
    rw [List.dropWhile_append_of_pos hall]
    simp
  have htake : (name ++ '=' :: value).takeWhile (· ≠ '=') = name := by
    rw [List.takeWhile_append_of_pos hall]
    simp
  unfold Reading.splitValue
  rw [hdrop, htake]

theorem mentions_cons {word : Text} (h : word ≠ ['-', '-']) (rest : List Text) :
    mentions none (word :: rest) =
      (Mention.ofWord word).1 ++ mentions (Mention.ofWord word).2 rest := by
  simp [mentions, missing, h]

theorem mentions_cons_of_waiting {word : Text} (h : Reading.isValue word) (slot : Slot)
    (rest : List Text) :
    mentions (some slot) (word :: rest) = .slot slot (some word) :: mentions none rest := by
  simp [mentions, h, Option.filter]

theorem mentions_source {path : Text} (h : path.IsPlain) (rest : List Text) :
    mentions none (path :: rest) = .slot .source (some path) :: mentions none rest := by
  have hword : path ≠ ['-', '-'] := by rintro rfl; exact h.2.1 rfl
  rw [mentions_cons hword, Mention.ofWord_path h.isValue]
  rfl

theorem mentions_flag (flag : Flag) (rest : List Text) :
    mentions none (flag.usage :: rest) = .flag flag :: mentions none rest := by
  have hsaid : Mention.ofWord flag.usage = ([.flag flag], none) := by cases flag <;> rfl
  have hword : flag.usage ≠ ['-', '-'] := by cases flag <;> decide
  rw [mentions_cons hword, hsaid]
  rfl

/-- A word of letters begins with one, and not with a second hyphen. -/
theorem exists_first_letter (flags : List Flag) {letters : Text} (h : flags ≠ [] ∨ letters ≠ [])
    (h' : letters.head? ≠ some '-') :
    ∃ letter rest, letter ≠ '-' ∧ flags.map Flag.letter ++ letters = letter :: rest := by
  cases flags with
  | cons first flags => exact ⟨first.letter, _, by cases first <;> decide, rfl⟩
  | nil =>
    cases letters with
    | nil => simp at h
    | cons letter rest => exact ⟨letter, rest, by simpa using h', rfl⟩

theorem mentions_letters (flags : List Flag) (letters : Text) (h : flags ≠ [] ∨ letters ≠ [])
    (h' : letters.head? ≠ some '-') (rest : List Text) :
    mentions none (('-' :: (flags.map Flag.letter ++ letters)) :: rest) =
      flags.map .flag ++ ((Mention.ofLetters letters).1 ++
        mentions (Mention.ofLetters letters).2 rest) := by
  obtain ⟨letter, others, hletter, hword⟩ := exists_first_letter flags h h'
  have hsaid : Mention.ofWord ('-' :: (flags.map Flag.letter ++ letters)) =
      Mention.ofLetters (flags.map Flag.letter ++ letters) := by
    rw [hword]
    exact Mention.ofWord_letters hletter others
  rw [mentions_cons (by rw [hword]; simp [hletter]), hsaid, Mention.ofLetters_flags,
    List.append_assoc]

theorem Slot.name?_eq_some {slot : Slot} {name : Text} (hname : slot.name? = some name) :
    Known.ofName? name = some (.slot slot) ∧ '=' ∉ name ∧ name ≠ [] := by
  cases slot <;> cases hname <;> decide

theorem mentions_slotAttached {slot : Slot} {name : Text} (hname : slot.name? = some name)
    (value : Text) (rest : List Text) :
    mentions none (('-' :: '-' :: (name ++ '=' :: value)) :: rest) =
      .slot slot (some value) :: mentions none rest := by
  obtain ⟨hknown, hsplit, -⟩ := Slot.name?_eq_some hname
  have hsaid : Mention.ofWord ('-' :: '-' :: (name ++ '=' :: value)) =
      ([.slot slot (some value)], none) := by
    rw [Mention.ofWord, splitValue_append hsplit]
    simp only [Mention.ofName, hknown]
  rw [mentions_cons (by simp), hsaid]
  rfl

theorem mentions_slotApart {slot : Slot} {name : Text} (hname : slot.name? = some name)
    {value : Text} (hplain : value.IsPlain) (rest : List Text) :
    mentions none (('-' :: '-' :: name) :: value :: rest) =
      .slot slot (some value) :: mentions none rest := by
  obtain ⟨hknown, hsplit, hempty⟩ := Slot.name?_eq_some hname
  have hsaid : Mention.ofWord ('-' :: '-' :: name) = ([], some slot) := by
    rw [Mention.ofWord, splitValue_of_notMem hsplit]
    simp only [Mention.ofName, hknown]
  rw [mentions_cons (by simpa using hempty), hsaid]
  exact mentions_cons_of_waiting hplain.isValue slot rest

/-- A spelling says what it spells. -/
theorem mentions_of_spells {said : List Mention} {words : List Text} (h : Spells said words)
    (hplain : ∀ mention ∈ said, mention.IsPlain) : mentions none words = said := by
  induction h with
  | nil => rfl
  | sourceAfterOptions path => rfl
  | source path _ ih =>
    obtain ⟨hpath, hplain⟩ := List.forall_mem_cons.mp hplain
    rw [mentions_source hpath, ih hplain]
  | flag flag _ ih => rw [mentions_flag, ih (List.forall_mem_cons.mp hplain).2]
  | letters flags hflags _ ih =>
    obtain ⟨-, hplain⟩ := List.forall_mem_append.mp hplain
    have hsaid := mentions_letters flags [] (.inl hflags) (by simp)
    rw [List.append_nil] at hsaid
    rw [hsaid, ← ih hplain]
    rfl
  | outputAttached flags path _ ih =>
    obtain ⟨-, hplain⟩ := List.forall_mem_append.mp hplain
    obtain ⟨hpath, hplain⟩ := List.forall_mem_cons.mp hplain
    rw [mentions_letters flags _ (.inr (List.cons_ne_nil _ _)) (by simp),
      Mention.ofLetters_output hpath, ← ih hplain]
    rfl
  | outputApart flags path _ ih =>
    obtain ⟨-, hplain⟩ := List.forall_mem_append.mp hplain
    obtain ⟨hpath, hplain⟩ := List.forall_mem_cons.mp hplain
    rw [mentions_letters flags _ (.inr (List.cons_ne_nil _ _)) (by simp), ← ih hplain,
      ← mentions_cons_of_waiting (Text.IsPlain.isValue hpath)]
    rfl
  | slotAttached slot value hname _ ih =>
    rw [mentions_slotAttached hname, ih (List.forall_mem_cons.mp hplain).2]
  | slotApart slot value hname _ ih =>
    obtain ⟨hvalue, hplain⟩ := List.forall_mem_cons.mp hplain
    rw [mentions_slotApart hname hvalue, ih hplain]

/-- A choice among the arguments. No path can be taken for an option, and the other values have a
meaning. -/
structure Choice where
  source : Option Path
  output : Option Path
  recursive : Bool
  dryRun : Bool
  json : Bool
  logLevel : Option Text
  lineEnding : Option Text
  source_plain : ∀ path ∈ source, Text.IsPlain path
  output_plain : ∀ path ∈ output, Text.IsPlain path
  logLevel_accepted : ∀ text ∈ logLevel, Slot.logLevel.Accepts text
  lineEnding_accepted : ∀ text ∈ lineEnding, Slot.lineEnding.Accepts text

namespace Choice

/-- What a command line has to say for the choice, in one of the orders. -/
def items (choice : Choice) : List Mention :=
  List.filterMap id
    [choice.source.map fun path => .slot .source (some path),
      choice.output.map fun path => .slot .output (some path),
      if choice.recursive then some (.flag .recursive) else none,
      if choice.dryRun then some (.flag .dryRun) else none,
      if choice.json then some (.flag .json) else none,
      choice.logLevel.map fun text => .slot .logLevel (some text),
      choice.lineEnding.map fun text => .slot .lineEnding (some text)]

def arguments (choice : Choice) : Arguments where
  source := choice.source
  output := choice.output
  recursive := choice.recursive
  dryRun := choice.dryRun
  json := choice.json
  logLevel := choice.logLevel.bind fun text => (LogLevel.parse text).toOption
  lineEnding := choice.lineEnding.bind fun text => (LineEnding.parse text).toOption

variable (choice : Choice)

theorem mem_items_iff (mention : Mention) : mention ∈ choice.items ↔
    (∃ path, choice.source = some path ∧ .slot .source (some path) = mention) ∨
    (∃ path, choice.output = some path ∧ .slot .output (some path) = mention) ∨
    (choice.recursive ∧ .flag .recursive = mention) ∨
    (choice.dryRun ∧ .flag .dryRun = mention) ∨
    (choice.json ∧ .flag .json = mention) ∨
    (∃ text, choice.logLevel = some text ∧ .slot .logLevel (some text) = mention) ∨
    (∃ text, choice.lineEnding = some text ∧ .slot .lineEnding (some text) = mention) := by
  simp [items, @eq_comm _ (some mention)]

theorem items_sound : Sound choice.items where
  faultless mention hmem := by
    rw [mem_items_iff] at hmem
    rcases hmem with ⟨path, hchosen, rfl⟩ | ⟨path, hchosen, rfl⟩ | ⟨-, rfl⟩ | ⟨-, rfl⟩ | ⟨-, rfl⟩ |
      ⟨text, hchosen, rfl⟩ | ⟨text, hchosen, rfl⟩
    · exact not_not.mpr ⟨path, rfl, (choice.source_plain path hchosen).1⟩
    · exact not_not.mpr ⟨path, rfl, (choice.output_plain path hchosen).1⟩
    · exact id
    · exact id
    · exact id
    · exact not_not.mpr ⟨text, rfl, choice.logLevel_accepted text hchosen⟩
    · exact not_not.mpr ⟨text, rfl, choice.lineEnding_accepted text hchosen⟩
  requestless mention hmem := by
    rw [mem_items_iff] at hmem
    rintro (rfl | rfl) <;> simp at hmem
  once := by
    unfold items List.Nodup
    simp only [List.pairwise_map, List.pairwise_filterMap]
    simp [Mention.subject]

theorem items_plain : ∀ mention ∈ choice.items, mention.IsPlain := by
  intro mention hmem
  rw [mem_items_iff] at hmem
  rcases hmem with ⟨path, hchosen, rfl⟩ | ⟨path, hchosen, rfl⟩ | ⟨-, rfl⟩ | ⟨-, rfl⟩ | ⟨-, rfl⟩ |
    ⟨text, hchosen, rfl⟩ | ⟨text, hchosen, rfl⟩
  · exact choice.source_plain path hchosen
  · exact choice.output_plain path hchosen
  · trivial
  · trivial
  · trivial
  · obtain ⟨level, hparse⟩ := choice.logLevel_accepted text hchosen
    exact LogLevel.isPlain_of_parse hparse
  · obtain ⟨ending, hparse⟩ := choice.lineEnding_accepted text hchosen
    exact LineEnding.isPlain_of_parse hparse

theorem toOption_eq_some_iff {ε α : Type} (result : Except ε α) (value : α) :
    result.toOption = some value ↔ result = .ok value := by
  cases result <;> simp [Except.toOption]

theorem arguments_holds : choice.arguments.Holds choice.items := by
  constructor <;> simp [mem_items_iff, arguments, Option.bind_eq_some_iff, toOption_eq_some_iff]

end Choice

/-- Everything chosen at once. -/
def everything : Choice where
  source := some "in".toList
  output := some "out".toList
  recursive := true
  dryRun := true
  json := true
  logLevel := some "Info".toList
  lineEnding := some "LF".toList
  source_plain := by decide
  output_plain := by decide
  logLevel_accepted := by rintro _ ⟨⟩; exact ⟨.info, rfl⟩
  lineEnding_accepted := by rintro _ ⟨⟩; exact ⟨.lf, rfl⟩

end Command

end FeatureMarkdown
