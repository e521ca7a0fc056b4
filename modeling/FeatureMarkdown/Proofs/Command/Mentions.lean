import FeatureMarkdown.Command.Reading

/-!
What a command line says, one thing after the other, and that reading it comes to the same as
judging these things in their order. The reading puts off the judgement of a value until it sees
what follows, so it may report another fault, but it never takes a faulty line for a good one or
for a request.
-/

namespace FeatureMarkdown.Command

/-- One thing that a command line says. A slot may be named without a value. -/
inductive Mention where
  | flag (flag : Flag)
  | slot (slot : Slot) (value : Option Text)
  | fault (error : UsageError)
deriving DecidableEq, Inhabited

namespace Mention

/-- What a word of letters says, and the slot whose value has to be the next word. -/
def ofLetters : Text → List Mention × Option Slot
  | [] => ([], none)
  | letter :: rest =>
    match Known.ofLetter? letter with
    | none => ([.fault (.unexpectedArgument ['-', letter])], none)
    | some (.flag raised) => (.flag raised :: (ofLetters rest).1, (ofLetters rest).2)
    | some (.slot named) =>
      if rest = [] then ([], some named) else ([.slot named (some (Reading.attached rest))], none)

def ofName (name : Text) (value : Option Text) : List Mention × Option Slot :=
  match Known.ofName? name, value with
  | none, _ => ([.fault (.unexpectedArgument ("--".toList ++ name))], none)
  | some (.flag raised), none => ([.flag raised], none)
  | some (.flag raised), some value => ([.fault (.unexpectedValue value raised)], none)
  | some (.slot named), none => ([], some named)
  | some (.slot named), some value => ([.slot named (some value)], none)

def ofWord : Text → List Mention × Option Slot
  | '-' :: '-' :: option =>
    ofName (Reading.splitValue option).1 (Reading.splitValue option).2
  | '-' :: letter :: rest => ofLetters (letter :: rest)
  | word => ([.slot .source (some word)], none)

theorem ofWord_letters {letter : Char} (h : letter ≠ '-') (rest : Text) :
    ofWord ('-' :: letter :: rest) = ofLetters (letter :: rest) := by
  simp [ofWord]

theorem ofWord_path {word : Text} (h : Reading.isValue word) :
    ofWord word = ([.slot .source (some word)], none) := by
  unfold Reading.isValue at h
  split at h
  · exact nomatch h
  · next hword =>
    unfold ofWord
    split
    · exact absurd rfl (hword _ _)
    · exact absurd rfl (hword _ _)
    · rfl

end Mention

/-- What is said when the slot that waits for a value gets none. -/
def missing (awaiting : Option Slot) : List Mention :=
  awaiting.toList.map (.slot · none)

/-- What the words say after a slot that may wait for its value. -/
def mentions (awaiting : Option Slot) : List Text → List Mention
  | [] => missing awaiting
  | word :: rest =>
    match awaiting.filter fun _ => Reading.isValue word with
    | some slot => .slot slot (some word) :: mentions none rest
    | none =>
      missing awaiting ++
        if word = ['-', '-'] then rest.map fun path => .slot .source (some path)
        else (Mention.ofWord word).1 ++ mentions (Mention.ofWord word).2 rest

/-- How the arguments are judged, with all faults alike. -/
inductive Verdict where
  | accepted (arguments : Arguments)
  | faulty
  | help
  | version
deriving DecidableEq

def Halt.verdict : Halt → Verdict
  | .fault _ => .faulty
  | .help => .help
  | .version => .version

def Verdict.of : Except Halt Arguments → Verdict
  | .ok arguments => .accepted arguments
  | .error halt => halt.verdict

def Arguments.take (arguments : Arguments) : Mention → Except Halt Arguments
  | .flag flag => arguments.raise flag
  | .slot slot value => arguments.fill slot value
  | .fault e => .error (.fault e)

/-- The verdict on what is said, with the arguments that are already known. -/
def Arguments.judge (arguments : Arguments) (said : List Mention) : Verdict :=
  .of (said.foldlM Arguments.take arguments)

namespace Arguments

variable {arguments next : Arguments} {halt : Halt}

@[simp]
theorem judge_nil : arguments.judge [] = .accepted arguments :=
  rfl

theorem judge_cons (arguments : Arguments) (mention : Mention) (said : List Mention) :
    arguments.judge (mention :: said) =
      match arguments.take mention with
      | .error halt => halt.verdict
      | .ok next => next.judge said := by
  simp only [judge, List.foldlM_cons]
  cases arguments.take mention <;> rfl

theorem judge_cons_of_ok {mention : Mention} (h : arguments.take mention = .ok next)
    (said : List Mention) : arguments.judge (mention :: said) = next.judge said := by
  rw [judge_cons, h]

theorem judge_cons_of_error {mention : Mention} (h : arguments.take mention = .error halt)
    (said : List Mention) : arguments.judge (mention :: said) = halt.verdict := by
  rw [judge_cons, h]

theorem fill_some_eq_ok {slot : Slot} {value : Text}
    (h : arguments.fill slot (some value) = .ok next) :
    arguments.holds slot = false ∧ arguments.assign slot value = .ok next := by
  simp only [fill] at h
  split at h
  · exact nomatch h
  · next hfree =>
    refine ⟨by simpa using hfree, ?_⟩
    split at h
    · next hassign => rw [hassign]; simpa using h
    · exact nomatch h

/-- A slot that has its value gets no other one. -/
theorem fill_of_holds {slot : Slot} (hholds : arguments.holds slot = true) (value : Text) :
    arguments.fill slot (some value) = .error (.fault (.repeatedSlot slot)) := by
  simp [fill, hholds]

/-- Only a fault keeps a slot from being filled. -/
theorem verdict_of_fill_error {slot : Slot} {value : Option Text}
    (h : arguments.fill slot value = .error halt) : halt.verdict = .faulty := by
  cases value with
  | none => cases h; rfl
  | some value =>
    simp only [fill] at h
    split at h
    · cases h; rfl
    · split at h
      · exact nomatch h
      · cases h; rfl

theorem holds_of_assign {slot other : Slot} {value : Text}
    (h : arguments.assign slot value = .ok next) (hholds : arguments.holds other ∨ slot = other) :
    next.holds other := by
  cases slot <;> simp only [assign] at h <;> split at h <;> cases h <;> cases other <;>
    simp_all [holds]

theorem holds_of_fill {slot other : Slot} {value : Option Text}
    (h : arguments.fill slot value = .ok next) (hholds : arguments.holds other ∨ slot = other) :
    next.holds other := by
  cases value with
  | none => exact nomatch h
  | some value => exact holds_of_assign (fill_some_eq_ok h).2 hholds

end Arguments

namespace Reading

variable {reading next : Reading} {halt : Halt}

/-- A slot that has been named and has no value so far. -/
def awaiting (reading : Reading) : Option Slot :=
  match reading.pending with
  | some ⟨slot, none⟩ => some slot
  | _ => none

/-- A value that has been read and not judged. -/
def unjudged (reading : Reading) : List Mention :=
  match reading.pending with
  | some ⟨slot, some value⟩ => [.slot slot (some value)]
  | _ => []

/-- The verdict on a reading and on what is said after it. -/
def weigh (reading : Reading) (said : List Mention) : Verdict :=
  reading.arguments.judge (reading.unjudged ++ said)

theorem wanting?_eq (reading : Reading) (word : Text) :
    reading.wanting? word = reading.awaiting.filter fun _ => isValue word := by
  obtain ⟨arguments, pending, ended⟩ := reading
  rcases pending with _ | ⟨slot, _ | value⟩
  · rfl
  · simp [wanting?, awaiting, Option.filter]
  · rfl

theorem settle_ok (h : reading.settle = .ok next) :
    next.pending = none ∧ next.optionsEnded = reading.optionsEnded := by
  simp only [settle] at h
  split at h
  · next hpending => cases h; exact ⟨hpending, rfl⟩
  · split at h
    · exact nomatch h
    · cases h; exact ⟨rfl, rfl⟩

/-- Settling judges what is pending and nothing else. -/
theorem weigh_missing (reading : Reading) (said : List Mention) :
    reading.weigh (missing reading.awaiting ++ said) =
      match reading.settle with
      | .error halt => halt.verdict
      | .ok settled => settled.arguments.judge said := by
  obtain ⟨arguments, pending, ended⟩ := reading
  rcases pending with _ | ⟨slot, _ | value⟩
  · rfl
  · rfl
  · simp only [weigh, unjudged, awaiting, settle, missing, Option.toList_none, List.map_nil,
      List.nil_append, List.singleton_append, Arguments.judge_cons, Arguments.take]
    cases arguments.fill slot (some value) <;> rfl

/-- A step of the reading says the given things and leaves the given slot without its value. -/
def Says (reading : Reading) (said : List Mention) (awaiting : Option Slot) :
    Except Halt Reading → Prop
  | .error halt =>
    ∀ later, reading.weigh (missing reading.awaiting ++ (said ++ later)) = halt.verdict
  | .ok next =>
    next.optionsEnded = reading.optionsEnded ∧ next.awaiting = awaiting ∧
      ∀ later, reading.weigh (missing reading.awaiting ++ (said ++ later)) = next.weigh later

/-- A step that settles what is pending and then takes a mention. -/
theorem says_take (reading : Reading) (mention : Mention) :
    reading.Says [mention] none
      (match reading.settle with
      | .error halt => .error halt
      | .ok settled =>
        match settled.arguments.take mention with
        | .error halt => .error halt
        | .ok arguments => .ok { settled with arguments := arguments }) := by
  have hjudge := fun later => reading.weigh_missing ([mention] ++ later)
  cases hsettle : reading.settle with
  | error halt => simp only [hsettle] at hjudge; exact hjudge
  | ok settled =>
    obtain ⟨hclear, hended⟩ := settle_ok hsettle
    simp only [hsettle] at hjudge ⊢
    cases htake : settled.arguments.take mention with
    | error halt =>
      intro later
      exact (hjudge later).trans (Arguments.judge_cons_of_error htake later)
    | ok arguments =>
      refine ⟨hended, by simp [awaiting, hclear], fun later => ?_⟩
      refine ((hjudge later).trans (Arguments.judge_cons_of_ok htake later)).trans ?_
      simp [weigh, unjudged, hclear]

theorem says_raise (reading : Reading) (flag : Flag) :
    reading.Says [.flag flag] none (reading.raise flag) :=
  reading.says_take (.flag flag)

theorem says_give (reading : Reading) (slot : Slot) (value : Text) :
    reading.Says [.slot slot (some value)] none (reading.give slot value) :=
  reading.says_take (.slot slot (some value))

theorem says_await (reading : Reading) (slot : Slot) :
    reading.Says [] (some slot) (reading.await slot none) := by
  have hjudge := reading.weigh_missing
  unfold await
  cases hsettle : reading.settle with
  | error halt => simp only [hsettle] at hjudge; exact hjudge
  | ok settled =>
    simp only [hsettle] at hjudge
    exact ⟨(settle_ok hsettle).2, rfl, hjudge⟩

theorem says_await_some (reading : Reading) (slot : Slot) (value : Text) :
    reading.Says [.slot slot (some value)] none (reading.await slot (some value)) := by
  have hjudge := fun later => reading.weigh_missing ([.slot slot (some value)] ++ later)
  unfold await
  cases hsettle : reading.settle with
  | error halt => simp only [hsettle] at hjudge; exact hjudge
  | ok settled =>
    simp only [hsettle] at hjudge
    exact ⟨(settle_ok hsettle).2, rfl, hjudge⟩

theorem verdict_of_settle_error (h : reading.settle = .error halt) : halt.verdict = .faulty := by
  unfold settle at h
  split at h
  · exact nomatch h
  · split at h
    · next hfill => cases h; exact Arguments.verdict_of_fill_error hfill
    · exact nomatch h

theorem holds_of_settle (h : reading.settle = .ok next) {slot : Slot}
    (hnamed : reading.arguments.holds slot ∨ reading.pending.any (·.slot = slot)) :
    next.arguments.holds slot := by
  unfold settle at h
  split at h
  · next hclear => cases h; simpa [hclear] using hnamed
  · next pending hpending =>
    split at h
    · exact nomatch h
    · next hfill => cases h; exact Arguments.holds_of_fill hfill (by simpa [hpending] using hnamed)

/-- A fault may be reported before what is pending is judged. That changes no verdict, as what is
pending can only be another fault. -/
theorem says_of_fault {mention : Mention}
    (hfaulty : ∀ settled, reading.settle = .ok settled →
      ∀ later, settled.arguments.judge (mention :: later) = .faulty) (e : UsageError) :
    reading.Says [mention] none (.error (.fault e)) := by
  intro later
  rw [weigh_missing]
  cases hsettle : reading.settle with
  | error halt => exact verdict_of_settle_error hsettle
  | ok settled => exact hfaulty settled hsettle later

theorem says_fault (reading : Reading) (e : UsageError) :
    reading.Says [.fault e] none (.error (.fault e)) :=
  says_of_fault (fun _ _ _ => rfl) e

theorem says_positional (reading : Reading) (path : Text) :
    reading.Says [.slot .source (some path)] none (reading.positional path) := by
  unfold positional
  split
  · next htaken =>
    refine says_of_fault (fun settled h later => ?_) _
    have hholds : settled.arguments.holds .source :=
      holds_of_settle h (by simpa [Arguments.holds] using htaken)
    rw [Arguments.judge_cons, Arguments.take, Arguments.fill_of_holds hholds path]
    rfl
  · exact says_await_some reading .source path

theorem says_nothing (h : reading.awaiting = none) : reading.Says [] none (.ok reading) :=
  ⟨rfl, h, by simp [h, missing]⟩

theorem Says.stop {said : List Mention} {awaiting : Option Slot}
    (h : reading.Says said awaiting (.error halt)) (more : List Mention)
    (awaiting' : Option Slot) : reading.Says (said ++ more) awaiting' (.error halt) := by
  intro later
  rw [List.append_assoc]
  exact h (more ++ later)

theorem Says.andThen {said said' : List Mention} {awaiting : Option Slot}
    {outcome : Except Halt Reading} (h : reading.Says said none (.ok next))
    (h' : next.Says said' awaiting outcome) :
    reading.Says (said ++ said') awaiting outcome := by
  obtain ⟨hended, hawaiting, hweigh⟩ := h
  have hboth : ∀ later, reading.weigh (missing reading.awaiting ++ (said ++ said' ++ later)) =
      next.weigh (missing next.awaiting ++ (said' ++ later)) := fun later => by
    rw [List.append_assoc, hweigh, hawaiting]
    rfl
  cases outcome with
  | error halt => exact fun later => (hboth later).trans (h' later)
  | ok last =>
    obtain ⟨hended', hawaiting', hweigh'⟩ := h'
    exact ⟨hended'.trans hended, hawaiting', fun later => (hboth later).trans (hweigh' later)⟩

theorem says_letters (word : Text) (h : reading.awaiting = none ∨ word ≠ []) :
    reading.Says (Mention.ofLetters word).1 (Mention.ofLetters word).2 (reading.letters word) := by
  induction word generalizing reading with
  | nil => exact says_nothing (by simpa using h)
  | cons letter rest ih =>
    simp only [letters, Mention.ofLetters]
    rcases Known.ofLetter? letter with _ | ⟨flag⟩ | ⟨slot⟩
    · exact says_fault reading _
    · dsimp only
      have hsaid := says_raise reading flag
      cases hraise : reading.raise flag with
      | error halt => rw [hraise] at hsaid; exact hsaid.stop _ _
      | ok next => rw [hraise] at hsaid; exact hsaid.andThen (ih (.inl hsaid.2.1))
    · dsimp only
      split
      · exact says_await reading slot
      · exact says_give reading slot _

theorem says_named (reading : Reading) (name : Text) (value : Option Text) :
    reading.Says (Mention.ofName name value).1 (Mention.ofName name value).2
      (reading.named name value) := by
  unfold named Mention.ofName
  rcases Known.ofName? name with _ | ⟨flag⟩ | ⟨slot⟩
  · exact says_fault reading _
  · cases value with
    | none => exact says_raise reading flag
    | some value => exact says_of_fault (fun _ _ _ => rfl) _
  · cases value with
    | none => exact says_await reading slot
    | some value => exact says_give reading slot value

theorem word_letters {letter : Char} {rest : Text} (hoptions : reading.optionsEnded = false)
    (hwanting : reading.wanting? ('-' :: letter :: rest) = none) (h : letter ≠ '-') :
    reading.word ('-' :: letter :: rest) = reading.letters (letter :: rest) := by
  simp [Reading.word, hoptions, hwanting, h]

theorem word_path {word : Text} (hoptions : reading.optionsEnded = false)
    (hwanting : reading.wanting? word = none) (h : isValue word) :
    reading.word word = reading.positional word := by
  unfold isValue at h
  split at h
  · exact nomatch h
  · next hword =>
    unfold Reading.word
    simp only [hoptions, hwanting, Bool.false_eq_true, if_false]
    split
    · exact absurd rfl (hword _ _)
    · exact absurd rfl (hword _ _)
    · exact absurd rfl (hword _ _)
    · rfl

theorem says_word {word : Text} (hoptions : reading.optionsEnded = false)
    (hwanting : reading.wanting? word = none) (h : word ≠ ['-', '-']) :
    reading.Says (Mention.ofWord word).1 (Mention.ofWord word).2 (reading.word word) := by
  by_cases hvalue : isValue word
  · rw [Mention.ofWord_path hvalue, word_path hoptions hwanting hvalue]
    exact says_positional reading word
  · obtain ⟨letter, rest, rfl⟩ : ∃ letter rest, word = '-' :: letter :: rest := by
      unfold isValue at hvalue
      split at hvalue
      · exact ⟨_, _, rfl⟩
      · exact absurd rfl hvalue
    by_cases hlong : letter = '-'
    · subst hlong
      have hread : reading.word ('-' :: '-' :: rest) =
          reading.named (splitValue rest).1 (splitValue rest).2 := by
        have : rest ≠ [] := by rintro rfl; exact h rfl
        simp [Reading.word, hoptions, hwanting]
      rw [hread]
      exact says_named reading _ _
    · rw [Mention.ofWord_letters hlong, word_letters hoptions hwanting hlong]
      exact says_letters _ (.inr (List.cons_ne_nil _ _))

/-- The verdict on a whole reading that ends with the given words. -/
def verdict (reading : Reading) (words : List Text) : Verdict :=
  .of ((reading.words words).map Reading.arguments)

theorem verdict_nil (reading : Reading) :
    reading.verdict [] = reading.weigh (missing reading.awaiting) := by
  have hjudge := reading.weigh_missing []
  rw [List.append_nil] at hjudge
  rw [hjudge]
  simp only [verdict, words]
  cases reading.settle <;> rfl

theorem verdict_cons (reading : Reading) (word : Text) (rest : List Text) :
    reading.verdict (word :: rest) =
      match reading.word word with
      | .error halt => halt.verdict
      | .ok next => next.verdict rest := by
  simp only [verdict, words]
  cases reading.word word <;> rfl

theorem verdict_cons_of_says {said later : List Mention} {awaiting : Option Slot} {word : Text}
    {rest : List Text} (h : reading.Says said awaiting (reading.word word))
    (hrest : ∀ next : Reading, next.optionsEnded = reading.optionsEnded →
      next.awaiting = awaiting → next.verdict rest = next.weigh later) :
    reading.verdict (word :: rest) =
      reading.weigh (missing reading.awaiting ++ (said ++ later)) := by
  rw [verdict_cons]
  cases hread : reading.word word with
  | error halt => rw [hread] at h; exact (h later).symm
  | ok next =>
    rw [hread] at h
    obtain ⟨hended, hawaiting, hweigh⟩ := h
    exact (hrest next hended hawaiting).trans (hweigh later).symm

/-- After `--` every word is a source. -/
theorem verdict_of_optionsEnded (words : List Text) (h : reading.optionsEnded = true) :
    reading.verdict words = reading.weigh
      (missing reading.awaiting ++ words.map fun path => .slot .source (some path)) := by
  induction words generalizing reading with
  | nil => simpa using verdict_nil reading
  | cons word rest ih =>
    have hsaid : reading.Says [.slot .source (some word)] none (reading.word word) := by
      simpa [Reading.word, h] using says_positional reading word
    refine verdict_cons_of_says hsaid fun next hended hawaiting => ?_
    rw [ih (hended.trans h), hawaiting]
    rfl

/-- A word that is taken for the value of the slot before it. -/
theorem verdict_cons_of_wanting {slot : Slot} {word : Text} {rest : List Text}
    {later : List Mention} (hoptions : reading.optionsEnded = false)
    (hwanting : reading.wanting? word = some slot)
    (hrest : ∀ next : Reading, next.optionsEnded = false → next.awaiting = none →
      next.verdict rest = next.weigh later) :
    reading.verdict (word :: rest) = reading.weigh (.slot slot (some word) :: later) := by
  let next := { reading with pending := some ⟨slot, some word⟩ }
  have hread : reading.word word = .ok next := by
    simp only [Reading.word, hoptions, Bool.false_eq_true, if_false, hwanting, next]
  have hunjudged : reading.unjudged = [] := by
    unfold wanting? at hwanting
    unfold unjudged
    split at hwanting
    · next hpending => rw [hpending]
    · exact nomatch hwanting
  rw [verdict_cons, hread]
  refine (hrest next hoptions rfl).trans ?_
  rw [weigh, weigh, hunjudged]
  rfl

theorem verdict_eq (words : List Text) (h : reading.optionsEnded = false) :
    reading.verdict words = reading.weigh (mentions reading.awaiting words) := by
  induction words generalizing reading with
  | nil => exact verdict_nil reading
  | cons word rest ih =>
    simp only [mentions, ← wanting?_eq]
    cases hwanting : reading.wanting? word with
    | some slot =>
      exact verdict_cons_of_wanting h hwanting fun next hoptions hawaiting => by
        rw [ih hoptions, hawaiting]
    | none =>
      dsimp only
      split
      · next hending =>
        subst hending
        have hread : reading.word ['-', '-'] = .ok { reading with optionsEnded := true } := by
          simp only [Reading.word, h, Bool.false_eq_true, if_false, hwanting]
        rw [verdict_cons, hread]
        exact verdict_of_optionsEnded rest rfl
      · next hoption =>
        exact verdict_cons_of_says (says_word h hwanting hoption) fun next hended hawaiting => by
          rw [ih (hended.trans h), hawaiting]

end Reading

/-- The arguments are accepted, refused or left for a request just as the things that the words say
demand it, taken one after the other. -/
theorem Verdict.of_parse (words : List Text) :
    Verdict.of (Arguments.parse words) = Arguments.judge {} (mentions none words) := by
  have hparse : Arguments.parse words = (Reading.words {} words).map Reading.arguments := by
    unfold Arguments.parse
    cases Reading.words {} words <;> rfl
  rw [hparse]
  exact Reading.verdict_eq words rfl

/-- The unknown argument is reported, although the empty path before it is at fault too. -/
example :
    Arguments.parse (["-ro", "", "--dry"].map String.toList) =
      .error (.fault (.unexpectedArgument "--dry".toList)) ∧
    mentions none (["-ro", "", "--dry"].map String.toList) =
      [.flag .recursive, .slot .output (some []),
        .fault (.unexpectedArgument "--dry".toList)] :=
  ⟨rfl, rfl⟩

end FeatureMarkdown.Command
