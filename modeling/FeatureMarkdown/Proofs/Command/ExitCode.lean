import FeatureMarkdown.Command.Run
import FeatureMarkdown.Proofs.Command.Verdicts

namespace FeatureMarkdown.Command

/-- The variable of this name is set to a text. -/
def IsSetTo (environment : Text → Option Bytes) (name text : Text) : Prop :=
  ∃ bytes, environment name = some bytes ∧ Text.ofBytes? bytes = some text

/-- A variable is set to what is no value of the option that overrides it. Bytes that are no text
are not looked at, as if the variable were not set. -/
def BadVariable (environment : Text → Option Bytes) : Prop :=
  (∃ text, IsSetTo environment Config.logLevelVariable text ∧ ¬Slot.logLevel.Accepts text) ∨
    ∃ text, IsSetTo environment Config.lineEndingVariable text ∧ ¬Slot.lineEnding.Accepts text

theorem setting_eq_error_iff {α : Type} (parse : Text → Except ConfigError α) (usual : α)
    (given : Option Text) :
    (∃ e, Config.setting parse usual given = .error e) ↔
      ∃ text, given = some text ∧ ¬∃ value, parse text = .ok value := by
  cases given with
  | none => simp [Config.setting]
  | some text => cases hparse : parse text <;> simp [Config.setting, hparse]

theorem bind_ofBytes?_eq_some_iff {environment : Text → Option Bytes} {name text : Text} :
    (environment name).bind Text.ofBytes? = some text ↔ IsSetTo environment name text :=
  Option.bind_eq_some_iff

theorem ofEnvironment_eq_error_iff (environment : Text → Option Bytes) :
    (∃ e, Config.ofEnvironment environment = .error e) ↔ BadVariable environment := by
  have hlevel := setting_eq_error_iff LogLevel.parse .info
    ((environment Config.logLevelVariable).bind Text.ofBytes?)
  have hending := setting_eq_error_iff LineEnding.parse .native
    ((environment Config.lineEndingVariable).bind Text.ofBytes?)
  simp only [bind_ofBytes?_eq_some_iff] at hlevel hending
  refine Iff.trans ?_ (or_congr hlevel hending)
  unfold Config.ofEnvironment Config.ofLookup
  cases Config.setting LogLevel.parse .info
      ((environment Config.logLevelVariable).bind Text.ofBytes?) with
  | error e => simp
  | ok logLevel =>
    cases Config.setting LineEnding.parse .native
        ((environment Config.lineEndingVariable).bind Text.ofBytes?) <;> simp

theorem config_eq_error_iff (arguments : Arguments) (environment : Text → Option Bytes) :
    (∃ e, arguments.config environment = .error e) ↔ BadVariable environment := by
  rw [← ofEnvironment_eq_error_iff, Arguments.config]
  cases Config.ofEnvironment environment <;> simp

theorem conclusion_code_eq_one_iff (result : Except BatchError Report) :
    (conclusion result).2 = 1 ↔ ∃ e, result = .error e := by
  rcases result with e | ⟨outputs, _ | _⟩ <;> simp [conclusion]

theorem conclusion_code_lt (result : Except BatchError Report) : (conclusion result).2 < 2 := by
  rcases result with e | ⟨outputs, _ | _⟩ <;> simp [conclusion]

theorem help_eq : help = 'C' :: help.tail :=
  rfl

theorem version_eq : version = 'b' :: version.tail :=
  rfl

theorem help_ne_version : help ≠ version := by
  rw [help_eq, version_eq]
  simp

namespace Invocation

/-- The words leave the source out, and the working directory that should be converted instead has
been removed. -/
def LacksSource (invocation : Invocation) : Prop :=
  invocation.files.get? invocation.cwd ≠ some .directory ∧
    ∃ arguments : Arguments, arguments.Holds (mentions none invocation.words) ∧
      arguments.source = none

/-- The options that the words and the environment come to. -/
def Resolves (invocation : Invocation) (options : BatchOptions) : Prop :=
  ∃ (arguments : Arguments) (config : Config),
    arguments.Holds (mentions none invocation.words) ∧
      arguments.config invocation.environment = .ok config ∧
        arguments.batchOptions config (currentDirectory invocation.files invocation.cwd) =
          .ok options

/-- The conversion with these options ends in an error. -/
def ConversionFails (invocation : Invocation) : Prop :=
  ∃ (options : BatchOptions) (e : BatchError), invocation.Resolves options ∧
    (options.run invocation.files invocation.cwd invocation.interrupted).result = .error e

variable {invocation : Invocation} {arguments : Arguments} {config : Config}

theorem currentDirectory_eq_error_iff {fs : FileSystem} {cwd : Location} :
    (∃ e, currentDirectory fs cwd = .error e) ↔ fs.get? cwd ≠ some .directory := by
  unfold currentDirectory
  split
  next hcwd => simp [hcwd]
  next hcwd => simp [hcwd]

theorem batchOptions_eq_error_iff (arguments : Arguments) (config : Config)
    (current : Except FileError Path) :
    (∃ e, arguments.batchOptions config current = .error e) ↔
      arguments.source = none ∧ ∃ e, current = .error e := by
  unfold Arguments.batchOptions
  cases arguments.source with
  | some source => simp
  | none => cases current <;> simp

/-- A conversion fails if its options cannot be had, or if the run with them does. -/
theorem convert_fails_iff (hparse : Arguments.parse invocation.words = .ok arguments)
    (hconfig : arguments.config invocation.environment = .ok config) :
    (∃ e, (invocation.convert arguments config).result = .error e) ↔
      invocation.LacksSource ∨ invocation.ConversionFails := by
  have hholds := (Arguments.parse_eq_ok_iff.mp hparse).2
  have hlacks : invocation.LacksSource ↔ ∃ e, arguments.batchOptions config
      (currentDirectory invocation.files invocation.cwd) = .error e := by
    rw [batchOptions_eq_error_iff, currentDirectory_eq_error_iff]
    constructor
    · rintro ⟨hcwd, others, hothers, hsource⟩
      exact ⟨hholds.unique hothers ▸ hsource, hcwd⟩
    · rintro ⟨hsource, hcwd⟩
      exact ⟨hcwd, arguments, hholds, hsource⟩
  have hresolves (options : BatchOptions) : invocation.Resolves options ↔
      arguments.batchOptions config (currentDirectory invocation.files invocation.cwd) =
        .ok options := by
    constructor
    · rintro ⟨others, given, hothers, hgiven, hoptions⟩
      obtain rfl := hholds.unique hothers
      obtain rfl := Except.ok.inj (hconfig.symm.trans hgiven)
      exact hoptions
    · exact fun hoptions => ⟨arguments, config, hholds, hconfig, hoptions⟩
  rw [hlacks, ConversionFails]
  simp only [hresolves, convert]
  cases arguments.batchOptions config (currentDirectory invocation.files invocation.cwd) with
  | error e => simp
  | ok options => simp

/-- A bad variable counts although the words override it. -/
example (cwd : Location) (files : FileSystem) (interrupted : Cancellation) :
    (run ⟨["--log-level=info".toList], fun _ => some (Text.toBytes "loud".toList), cwd, files,
      interrupted⟩).exitCode = 2 :=
  rfl

/-- Bytes that are no text do not count. -/
example : (run ⟨["-d".toList], fun _ => some [0xFF], [], .empty, .never⟩).exitCode = 0 := by
  decide +kernel

/-- There is nothing to convert in a directory that has been removed. -/
example (name : Name) (interrupted : Cancellation) :
    (run ⟨[], fun _ => none, [name], .empty, interrupted⟩).exitCode = 1 :=
  rfl

end Invocation

end FeatureMarkdown.Command
