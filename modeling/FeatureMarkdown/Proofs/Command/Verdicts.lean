import Mathlib.Data.List.Induction
import Mathlib.Data.List.Nodup
import FeatureMarkdown.Proofs.Command.Mentions

namespace FeatureMarkdown.Command

/-- The texts that are values of a slot. -/
def Slot.Accepts : Slot → Text → Prop
  | .source, text => text ≠ []
  | .output, text => text ≠ []
  | .logLevel, text => ∃ level, LogLevel.parse text = .ok level
  | .lineEnding, text => ∃ ending, LineEnding.parse text = .ok ending

namespace Mention

/-- What a mention is about. -/
def subject : Mention → Option Known
  | .flag raised => some (.flag raised)
  | .slot named _ => some (.slot named)
  | .fault _ => none

/-- A mention that is at fault wherever it stands. -/
def IsFaulty : Mention → Prop
  | .flag _ => False
  | .slot named value => ¬∃ text, value = some text ∧ named.Accepts text
  | .fault _ => True

/-- A mention that is at fault after what has been said. Nothing may be said twice. -/
def FaultyAfter (said : List Mention) (mention : Mention) : Prop :=
  mention.IsFaulty ∨ mention.subject ∈ said.map subject

def IsRequest (mention : Mention) : Prop :=
  mention = .flag .help ∨ mention = .flag .version

end Mention

/-- What is said has no fault and no request in it. -/
structure Sound (said : List Mention) : Prop where
  faultless : ∀ mention ∈ said, ¬mention.IsFaulty
  requestless : ∀ mention ∈ said, ¬mention.IsRequest
  once : (said.map Mention.subject).Nodup

/-- A fault comes before any request. -/
def FaultFirst (said : List Mention) : Prop :=
  ∃ before mention after,
    said = before ++ mention :: after ∧ Sound before ∧ mention.FaultyAfter before

/-- A request comes before any fault and before any other request. -/
def RequestFirst (flag : Flag) (said : List Mention) : Prop :=
  ∃ before after, said = before ++ .flag flag :: after ∧ Sound before

/-- The arguments are what has been said, no more and no less. -/
structure Arguments.Holds (arguments : Arguments) (said : List Mention) : Prop where
  source : ∀ path, arguments.source = some path ↔ .slot .source (some path) ∈ said
  output : ∀ path, arguments.output = some path ↔ .slot .output (some path) ∈ said
  recursive : arguments.recursive ↔ .flag .recursive ∈ said
  dryRun : arguments.dryRun ↔ .flag .dryRun ∈ said
  json : arguments.json ↔ .flag .json ∈ said
  logLevel : ∀ level, arguments.logLevel = some level ↔
    ∃ text, .slot .logLevel (some text) ∈ said ∧ LogLevel.parse text = .ok level
  lineEnding : ∀ ending, arguments.lineEnding = some ending ↔
    ∃ text, .slot .lineEnding (some text) ∈ said ∧ LineEnding.parse text = .ok ending

namespace Sound

variable {said more : List Mention} {mention : Mention}

theorem nil : Sound [] :=
  ⟨by simp, by simp, by simp⟩

theorem of_append (h : Sound (said ++ more)) : Sound said where
  faultless mention hmem := h.faultless mention (List.mem_append_left more hmem)
  requestless mention hmem := h.requestless mention (List.mem_append_left more hmem)
  once := by
    have honce := h.once
    rw [List.map_append] at honce
    exact honce.of_append_left

theorem append_singleton_iff :
    Sound (said ++ [mention]) ↔
      Sound said ∧ ¬mention.FaultyAfter said ∧ ¬mention.IsRequest := by
  constructor
  · intro h
    have honce := h.once
    rw [List.map_append, List.map_singleton, List.nodup_append] at honce
    refine ⟨h.of_append, ?_, h.requestless mention (by simp)⟩
    rintro (hfaulty | hmem)
    · exact h.faultless mention (by simp) hfaulty
    · exact honce.2.2 _ hmem _ (by simp) rfl
  · rintro ⟨hsound, hblameless, hrequest⟩
    refine ⟨?_, ?_, ?_⟩
    · simp only [List.mem_append, List.mem_singleton]
      rintro other (hmem | rfl)
      · exact hsound.faultless other hmem
      · exact fun hfaulty => hblameless (.inl hfaulty)
    · simp only [List.mem_append, List.mem_singleton]
      rintro other (hmem | rfl)
      · exact hsound.requestless other hmem
      · exact hrequest
    · rw [List.map_append, List.map_singleton, List.nodup_append]
      refine ⟨hsound.once, List.nodup_singleton _, ?_⟩
      rintro subject hmem _ hsubject rfl
      rw [List.mem_singleton] at hsubject
      exact hblameless (.inr (hsubject ▸ hmem))

theorem perm {said' : List Mention} (hperm : said.Perm said') (h : Sound said) : Sound said' where
  faultless mention hmem := h.faultless mention (hperm.mem_iff.mpr hmem)
  requestless mention hmem := h.requestless mention (hperm.mem_iff.mpr hmem)
  once := (hperm.map Mention.subject).nodup_iff.mp h.once

theorem exists_accepted (h : Sound said) {slot : Slot} {value : Option Text}
    (hmem : .slot slot value ∈ said) : ∃ text, value = some text ∧ slot.Accepts text :=
  not_not.mp (h.faultless _ hmem)

/-- A slot that has been mentioned has been given a value. -/
theorem subject_slot_mem_iff (h : Sound said) (slot : Slot) :
    some (.slot slot) ∈ said.map Mention.subject ↔ ∃ text, .slot slot (some text) ∈ said := by
  rw [List.mem_map]
  constructor
  · rintro ⟨mention, hmem, hsubject⟩
    cases mention with
    | flag raised => simp [Mention.subject] at hsubject
    | fault e => simp [Mention.subject] at hsubject
    | slot named value =>
      obtain rfl : named = slot := by simpa [Mention.subject] using hsubject
      obtain ⟨text, rfl, -⟩ := h.exists_accepted hmem
      exact ⟨text, hmem⟩
  · rintro ⟨text, hmem⟩
    exact ⟨_, hmem, rfl⟩

end Sound

namespace Arguments

variable {arguments other : Arguments} {said said' : List Mention} {mention : Mention}

theorem Holds.nil : Holds {} [] := by
  constructor <;> simp

theorem Holds.perm (hperm : said.Perm said') (h : arguments.Holds said) :
    arguments.Holds said' := by
  obtain ⟨hsource, houtput, hrecursive, hdryRun, hjson, hlogLevel, hlineEnding⟩ := h
  simp only [hperm.mem_iff] at hsource houtput hrecursive hdryRun hjson hlogLevel hlineEnding
  exact ⟨hsource, houtput, hrecursive, hdryRun, hjson, hlogLevel, hlineEnding⟩

theorem Holds.unique (h : arguments.Holds said) (h' : other.Holds said) : arguments = other := by
  obtain ⟨source, output, recursive, dryRun, json, logLevel, lineEnding⟩ := arguments
  obtain ⟨source', output', recursive', dryRun', json', logLevel', lineEnding'⟩ := other
  congr
  · exact Option.ext fun path => (h.source path).trans (h'.source path).symm
  · exact Option.ext fun path => (h.output path).trans (h'.output path).symm
  · exact Bool.eq_iff_iff.mpr (h.recursive.trans h'.recursive.symm)
  · exact Bool.eq_iff_iff.mpr (h.dryRun.trans h'.dryRun.symm)
  · exact Bool.eq_iff_iff.mpr (h.json.trans h'.json.symm)
  · exact Option.ext fun level => (h.logLevel level).trans (h'.logLevel level).symm
  · exact Option.ext fun ending => (h.lineEnding ending).trans (h'.lineEnding ending).symm

/-- A slot is taken if and only if it has been mentioned. -/
theorem Holds.holds_iff (h : arguments.Holds said) (hsound : Sound said) (slot : Slot) :
    arguments.holds slot ↔ some (.slot slot) ∈ said.map Mention.subject := by
  rw [hsound.subject_slot_mem_iff]
  have haccepts : ∀ text, .slot slot (some text) ∈ said → slot.Accepts text := fun text hmem => by
    obtain ⟨_, ⟨⟩, haccepts⟩ := hsound.exists_accepted hmem
    exact haccepts
  cases slot with
  | source => simp only [holds, Option.isSome_iff_exists, h.source]
  | output => simp only [holds, Option.isSome_iff_exists, h.output]
  | logLevel =>
    simp only [holds, Option.isSome_iff_exists, h.logLevel]
    constructor
    · rintro ⟨_, text, hmem, -⟩
      exact ⟨text, hmem⟩
    · rintro ⟨text, hmem⟩
      exact (haccepts text hmem).imp fun _ hparse => ⟨text, hmem, hparse⟩
  | lineEnding =>
    simp only [holds, Option.isSome_iff_exists, h.lineEnding]
    constructor
    · rintro ⟨_, text, hmem, -⟩
      exact ⟨text, hmem⟩
    · rintro ⟨text, hmem⟩
      exact (haccepts text hmem).imp fun _ hparse => ⟨text, hmem, hparse⟩

theorem Holds.raise (h : arguments.Holds said) {flag : Flag}
    (hrequest : ¬(Mention.flag flag).IsRequest) (hnew : .flag flag ∉ said) :
    ∃ next, arguments.raise flag = .ok next ∧ next.Holds (said ++ [.flag flag]) := by
  obtain ⟨hsource, houtput, hrecursive, hdryRun, hjson, hlogLevel, hlineEnding⟩ := h
  cases flag with
  | recursive =>
    refine ⟨{ arguments with recursive := true }, by simp [Arguments.raise, hrecursive, hnew], ?_⟩
    constructor <;> simp [hsource, houtput, hdryRun, hjson, hlogLevel, hlineEnding]
  | dryRun =>
    refine ⟨{ arguments with dryRun := true }, by simp [Arguments.raise, hdryRun, hnew], ?_⟩
    constructor <;> simp [hsource, houtput, hrecursive, hjson, hlogLevel, hlineEnding]
  | json =>
    refine ⟨{ arguments with json := true }, by simp [Arguments.raise, hjson, hnew], ?_⟩
    constructor <;> simp [hsource, houtput, hrecursive, hdryRun, hlogLevel, hlineEnding]
  | help => exact absurd (.inl rfl) hrequest
  | version => exact absurd (.inr rfl) hrequest

theorem Holds.assign (h : arguments.Holds said) {slot : Slot} {text : Text}
    (haccepts : slot.Accepts text) (hnew : ∀ value, .slot slot value ∉ said) :
    ∃ next, arguments.assign slot text = .ok next ∧
      next.Holds (said ++ [.slot slot (some text)]) := by
  obtain ⟨hsource, houtput, hrecursive, hdryRun, hjson, hlogLevel, hlineEnding⟩ := h
  cases slot with
  | source =>
    refine ⟨{ arguments with source := some text }, if_neg haccepts, ?_⟩
    constructor <;>
      simp [houtput, hrecursive, hdryRun, hjson, hlogLevel, hlineEnding, hnew, eq_comm]
  | output =>
    refine ⟨{ arguments with output := some text }, if_neg haccepts, ?_⟩
    constructor <;>
      simp [hsource, hrecursive, hdryRun, hjson, hlogLevel, hlineEnding, hnew, eq_comm]
  | logLevel =>
    obtain ⟨level, hparse⟩ := haccepts
    refine ⟨{ arguments with logLevel := some level }, by simp [Arguments.assign, hparse], ?_⟩
    constructor <;> simp [hsource, houtput, hrecursive, hdryRun, hjson, hlineEnding, hnew, hparse]
  | lineEnding =>
    obtain ⟨ending, hparse⟩ := haccepts
    refine ⟨{ arguments with lineEnding := some ending }, by simp [Arguments.assign, hparse], ?_⟩
    constructor <;> simp [hsource, houtput, hrecursive, hdryRun, hjson, hlogLevel, hnew, hparse]

/-- What is free and usable is taken. -/
theorem Holds.take_of_sound (h : arguments.Holds said) (hsound : Sound (said ++ [mention])) :
    ∃ next, arguments.take mention = .ok next ∧ next.Holds (said ++ [mention]) := by
  obtain ⟨hbefore, hblameless, hrequest⟩ := Sound.append_singleton_iff.mp hsound
  obtain ⟨hfaultless, hnew⟩ := not_or.mp hblameless
  cases mention with
  | flag raised => exact h.raise hrequest fun hmem => hnew (List.mem_map_of_mem hmem)
  | slot named value =>
    obtain ⟨text, rfl, haccepts⟩ := not_not.mp hfaultless
    have hfree : arguments.holds named = false :=
      Bool.eq_false_iff.mpr fun hholds => hnew ((h.holds_iff hbefore named).mp hholds)
    obtain ⟨next, hassign, hholds⟩ := h.assign haccepts
      fun value hmem => hnew (List.mem_map.mpr ⟨_, hmem, rfl⟩)
    exact ⟨next, by simp [take, fill, hfree, hassign], hholds⟩
  | fault e => exact absurd trivial hfaultless

theorem Holds.raise_again (h : arguments.Holds said) {flag : Flag}
    (hrequest : ¬(Mention.flag flag).IsRequest) (hmem : .flag flag ∈ said) :
    arguments.raise flag = .error (.fault (.repeatedFlag flag)) := by
  cases flag with
  | recursive => exact if_pos (h.recursive.mpr hmem)
  | dryRun => exact if_pos (h.dryRun.mpr hmem)
  | json => exact if_pos (h.json.mpr hmem)
  | help => exact absurd (.inl rfl) hrequest
  | version => exact absurd (.inr rfl) hrequest

theorem assign_of_not_accepts (arguments : Arguments) {slot : Slot} {text : Text}
    (h : ¬slot.Accepts text) : ∃ e, arguments.assign slot text = .error e := by
  cases slot with
  | source => exact ⟨_, if_pos (not_not.mp h)⟩
  | output => exact ⟨_, if_pos (not_not.mp h)⟩
  | logLevel =>
    cases hparse : LogLevel.parse text with
    | ok level => exact absurd ⟨level, hparse⟩ h
    | error e => exact ⟨.invalidValue text .logLevel e, by simp only [assign, hparse]⟩
  | lineEnding =>
    cases hparse : LineEnding.parse text with
    | ok ending => exact absurd ⟨ending, hparse⟩ h
    | error e => exact ⟨.invalidValue text .lineEnding e, by simp only [assign, hparse]⟩

/-- What is at fault, or has been said before, is refused. -/
theorem Holds.take_of_faulty (h : arguments.Holds said) (hsound : Sound said)
    (hfaulty : mention.FaultyAfter said) : ∃ e, arguments.take mention = .error (.fault e) := by
  cases mention with
  | flag raised =>
    obtain ⟨again, hmem, hsubject⟩ := List.mem_map.mp (hfaulty.resolve_left not_false)
    cases again with
    | flag raised' =>
      obtain rfl : raised' = raised := by simpa [Mention.subject] using hsubject
      exact ⟨_, h.raise_again (hsound.requestless _ hmem) hmem⟩
    | slot named value => simp [Mention.subject] at hsubject
    | fault e => simp [Mention.subject] at hsubject
  | slot named value =>
    cases value with
    | none => exact ⟨_, rfl⟩
    | some text =>
      by_cases hholds : arguments.holds named
      · exact ⟨_, fill_of_holds hholds text⟩
      · have hrefuse : ¬named.Accepts text := fun haccepts =>
          (hfaulty.resolve_right fun hmem => hholds ((h.holds_iff hsound named).mpr hmem))
            ⟨text, rfl, haccepts⟩
        obtain ⟨e, hassign⟩ := assign_of_not_accepts arguments hrefuse
        exact ⟨e, by simp [take, fill, hholds, hassign]⟩
  | fault e => exact ⟨e, rfl⟩

/-- The step by step taking of what is said leads through every sound beginning of it. -/
theorem judge_append_of_sound (hsound : Sound said) :
    ∃ arguments : Arguments, arguments.Holds said ∧
      ∀ after, ({} : Arguments).judge (said ++ after) = arguments.judge after := by
  induction said using List.reverseRecOn with
  | nil => exact ⟨{}, Holds.nil, fun _ => rfl⟩
  | append_singleton before mention ih =>
    obtain ⟨arguments, hholds, hjudge⟩ := ih hsound.of_append
    obtain ⟨next, htake, hnext⟩ := hholds.take_of_sound hsound
    refine ⟨next, hnext, fun after => ?_⟩
    rw [List.append_assoc, hjudge]
    exact judge_cons_of_ok htake after

end Arguments

/-- Every line is sound, or something in it comes first that is not. -/
theorem sound_or_first (said : List Mention) :
    Sound said ∨ FaultFirst said ∨ RequestFirst .help said ∨ RequestFirst .version said := by
  induction said using List.reverseRecOn with
  | nil => exact .inl .nil
  | append_singleton before mention ih =>
    rcases ih with hsound | ⟨start, first, after, rfl, hsound, hfaulty⟩ |
      ⟨start, after, rfl, hsound⟩ | ⟨start, after, rfl, hsound⟩
    · by_cases hfaulty : mention.FaultyAfter before
      · exact .inr (.inl ⟨before, mention, [], rfl, hsound, hfaulty⟩)
      by_cases hrequest : mention.IsRequest
      · rcases hrequest with rfl | rfl
        · exact .inr (.inr (.inl ⟨before, [], rfl, hsound⟩))
        · exact .inr (.inr (.inr ⟨before, [], rfl, hsound⟩))
      · exact .inl (Sound.append_singleton_iff.mpr ⟨hsound, hfaulty, hrequest⟩)
    · exact .inr (.inl ⟨start, first, after ++ [mention], by simp, hsound, hfaulty⟩)
    · exact .inr (.inr (.inl ⟨start, after ++ [mention], by simp, hsound⟩))
    · exact .inr (.inr (.inr ⟨start, after ++ [mention], by simp, hsound⟩))

/-- What a verdict tells about what has been said. -/
def Verdict.Meets (said : List Mention) : Verdict → Prop
  | .accepted arguments => Sound said ∧ arguments.Holds said
  | .faulty => FaultFirst said
  | .help => RequestFirst .help said
  | .version => RequestFirst .version said

theorem judge_of_meets {said : List Mention} {verdict : Verdict} (h : verdict.Meets said) :
    ({} : Arguments).judge said = verdict := by
  cases verdict with
  | accepted arguments =>
    obtain ⟨hsound, hholds⟩ := h
    obtain ⟨found, hfound, hjudge⟩ := Arguments.judge_append_of_sound hsound
    have hall := hjudge []
    rw [List.append_nil] at hall
    rw [hall, hholds.unique hfound, Arguments.judge_nil]
  | faulty =>
    obtain ⟨before, mention, after, rfl, hsound, hfaulty⟩ := h
    obtain ⟨arguments, hholds, hjudge⟩ := Arguments.judge_append_of_sound hsound
    obtain ⟨e, htake⟩ := hholds.take_of_faulty hsound hfaulty
    exact (hjudge _).trans (Arguments.judge_cons_of_error htake after)
  | help =>
    obtain ⟨before, after, rfl, hsound⟩ := h
    obtain ⟨arguments, -, hjudge⟩ := Arguments.judge_append_of_sound hsound
    exact hjudge _
  | version =>
    obtain ⟨before, after, rfl, hsound⟩ := h
    obtain ⟨arguments, -, hjudge⟩ := Arguments.judge_append_of_sound hsound
    exact hjudge _

theorem exists_meets (said : List Mention) : ∃ verdict : Verdict, verdict.Meets said := by
  rcases sound_or_first said with hsound | hfaulty | hhelp | hversion
  · obtain ⟨arguments, hholds, -⟩ := Arguments.judge_append_of_sound hsound
    exact ⟨.accepted arguments, hsound, hholds⟩
  · exact ⟨.faulty, hfaulty⟩
  · exact ⟨.help, hhelp⟩
  · exact ⟨.version, hversion⟩

/-- The arguments of a command line are judged by the first thing it says that is at fault or that
is a request. -/
theorem Verdict.of_parse_eq_iff (words : List Text) (verdict : Verdict) :
    Verdict.of (Arguments.parse words) = verdict ↔ verdict.Meets (mentions none words) := by
  rw [Verdict.of_parse]
  obtain ⟨found, hmeets⟩ := exists_meets (mentions none words)
  constructor
  · rintro rfl
    rwa [judge_of_meets hmeets]
  · exact judge_of_meets

namespace Arguments

variable {words : List Text}

theorem parse_eq_ok_iff {arguments : Arguments} :
    Arguments.parse words = .ok arguments ↔
      Sound (mentions none words) ∧ arguments.Holds (mentions none words) := by
  refine Iff.trans ?_ (Verdict.of_parse_eq_iff words (.accepted arguments))
  rcases Arguments.parse words with (_ | _ | _) | arguments' <;> simp [Verdict.of, Halt.verdict]

theorem exists_parse_eq_ok_iff :
    (∃ arguments, Arguments.parse words = .ok arguments) ↔ Sound (mentions none words) := by
  simp only [parse_eq_ok_iff, exists_and_left, and_iff_left_iff_imp]
  intro hsound
  obtain ⟨arguments, hholds, -⟩ := judge_append_of_sound hsound
  exact ⟨arguments, hholds⟩

theorem exists_parse_eq_fault_iff :
    (∃ e, Arguments.parse words = .error (.fault e)) ↔ FaultFirst (mentions none words) := by
  refine Iff.trans ?_ (Verdict.of_parse_eq_iff words .faulty)
  rcases Arguments.parse words with (_ | _ | _) | arguments' <;> simp [Verdict.of, Halt.verdict]

theorem parse_eq_help_iff :
    Arguments.parse words = .error .help ↔ RequestFirst .help (mentions none words) := by
  refine Iff.trans ?_ (Verdict.of_parse_eq_iff words .help)
  rcases Arguments.parse words with (_ | _ | _) | arguments' <;> simp [Verdict.of, Halt.verdict]

theorem parse_eq_version_iff :
    Arguments.parse words = .error .version ↔ RequestFirst .version (mentions none words) := by
  refine Iff.trans ?_ (Verdict.of_parse_eq_iff words .version)
  rcases Arguments.parse words with (_ | _ | _) | arguments' <;> simp [Verdict.of, Halt.verdict]

end Arguments

end FeatureMarkdown.Command
