import RandomCodes.Proofs.Code.Lookups
import RandomCodes.Proofs.CommandLine.Lines
import RandomCodes.Proofs.CommandLine.Options
import RandomCodes.Proofs.Configuration.Acceptance
/-!
# Arguments and files that ask for the same codes

A configuration can be spelled out in the arguments or kept in a file. Either way the run builds the
same generator and draws from the same seed, so both write the same codes. There is just one
configuration without a generator, that of an empty alphabet, and with it both runs fail.
-/

namespace RandomCodes.CommandLine

/-- Arguments before the command: a seed and a number of codes, in either order. -/
inductive GivesSeedAndCount (seed count : UInt64) : List Text → Prop
  | options {seedText countText : Text} (seedSpelled : Spells seedText seed)
      (countSpelled : Spells countText count) {options : List LongOption}
      (order : options.Perm [.value .seed seedText, .value .count countText]) :
      GivesSeedAndCount seed count (options.map LongOption.text)

/-- The setting of a switch, if it is set. -/
def onlyIf (set : Bool) (setting : Setting) : List Setting :=
  if set then [setting] else []

/-- A command and the arguments behind it that ask for a configuration. Options stand in any order;
a pattern stands behind the double dash. -/
inductive Asks : Command → List Text → Configuration → Prop
  | digits {length : UInt64} {spelled : Text} (spells : Spells spelled length)
      (noLeadingZero : Bool) {options : List LongOption}
      (order : options.Perm
        (.value .length spelled :: (onlyIf noLeadingZero .noLeadingZero).map .switch)) :
      Asks .digits (options.map LongOption.text) (.digits length noLeadingZero)
  | letters {length : UInt64} {spelled : Text} (spells : Spells spelled length)
      (upper lower : Bool) {options : List LongOption}
      (order : options.Perm
        (.value .length spelled :: (onlyIf upper .upper ++ onlyIf lower .lower).map .switch)) :
      Asks .letters (options.map LongOption.text)
        (.letters length (if upper then .upper else if lower then .lower else .mixed))
  | word {length : UInt64} {spelled : Text} (spells : Spells spelled length)
      {options : List LongOption} (order : options.Perm [.value .length spelled]) :
      Asks .word (options.map LongOption.text) (.word length)
  | charset {length : UInt64} {spelled : Text} (spells : Spells spelled length)
      (characters : Text) {options : List LongOption}
      (order : options.Perm [.value .length spelled, .value .charset characters]) :
      Asks .charset (options.map LongOption.text) (.charset length characters)
  | pattern (pattern : Text) : Asks .pattern [['-', '-'], pattern] (.pattern pattern)

/-- The arguments behind the command for files that name a file: its path, which is not empty, and
behind the double dash if it begins with a dash. -/
inductive NamesFile : List Text → Text → Prop
  | plain (path : Text) (nonempty : path ≠ []) (noDash : path.head? ≠ some '-') :
      NamesFile [path] path
  | separated (path : Text) (nonempty : path ≠ []) : NamesFile [['-', '-'], path] path

/-- What comes of a command line: codes, a failed run, or arguments that make no sense. -/
def outcome (files : Files) (unseeded : Congruential) (arguments : List Text) :
    Except Refusal (Except RunError Text) :=
  Invocation.run files unseeded <$> Invocation.ofArguments arguments

theorem Spells.accepted
    {text : Text} {number : UInt64} (spells : Spells text number) :
    (Text.toUInt64? text).isSome := by
  rw [spells.toUInt64?_eq]
  rfl

theorem Acceptable.perm
    {level : Level} {options listed : List LongOption} (acceptable : Acceptable level listed)
    (order : options.Perm listed) : Acceptable level options where
  fits option member := acceptable.fits option (order.mem_iff.mp member)
  nodup := (order.map LongOption.setting).nodup_iff.mpr acceptable.nodup

/-- An unused level has no settings made. -/
theorem Given.open_unused (setting : Setting) : ({} : Given).Open setting :=
  ⟨rfl, List.not_mem_nil⟩

/-- What the arguments behind a command give. -/
def Reads (command : Command) (arguments : List Text) (given : Given) : Prop :=
  ∃ scanned, scan (.inner command) {} arguments = .ok { given := scanned, word := none } ∧
    scanned.settle = .ok given

theorem reads_options
    {command : Command} {options : List LongOption}
    (acceptable : Acceptable (.inner command) options) :
    Reads command (options.map LongOption.text) (({} : Given).giveAll options) := by
  have scanned := Given.scan_options rfl acceptable (fun option _ => Given.open_unused _) []
  have settled := Given.pending_giveAll {} options
  rw [List.append_nil] at scanned
  exact ⟨({} : Given).giveAll options, scanned, by rw [Given.settle, settled]⟩

/-- A length and switches behind a command, in any order. -/
theorem exists_reads_length
    {command : Command} {spelled : Text} {length : UInt64} (spells : Spells spelled length)
    (known : .length ∈ command.settings) {switches : List Setting}
    (switchable : ∀ setting ∈ switches, setting ∈ command.settings ∧ setting.usage = .switch)
    (nodup : switches.Nodup) {options : List LongOption}
    (order : options.Perm (.value .length spelled :: switches.map .switch)) :
    ∃ given, Reads command (options.map LongOption.text) given ∧
      given.number? .length = some length ∧
      ∀ setting, given.has setting = decide (setting ∈ switches) := by
  have settings : (switches.map LongOption.switch).map LongOption.setting = switches := by
    rw [List.map_map]
    exact List.map_id switches
  have acceptable : Acceptable (.inner command) options := by
    apply Acceptable.perm _ order
    refine ⟨?_, ?_⟩
    · intro option member
      rcases List.mem_cons.mp member with rfl | later
      · exact ⟨known, rfl, spells.accepted⟩
      · obtain ⟨setting, among, rfl⟩ := List.mem_map.mp later
        exact switchable setting among
    · rw [List.map_cons, settings]
      refine List.nodup_cons.mpr ⟨fun among => ?_, nodup⟩
      cases (switchable _ among).2
  have lengthGiven : .value .length spelled ∈ options := order.mem_iff.mpr List.mem_cons_self
  refine ⟨({} : Given).giveAll options, reads_options acceptable,
    Given.number?_giveAll acceptable.nodup lengthGiven spells, fun setting => ?_⟩
  have among : .switch setting ∈ options ↔ setting ∈ switches := by
    simp [order.mem_iff]
  rw [Bool.eq_iff_iff, Given.has, List.contains_iff_mem, Given.mem_switches_giveAll, among]
  simp

/-- A length and characters behind the command for charsets, in either order. -/
theorem exists_reads_characters
    {spelled : Text} {length : UInt64} (spells : Spells spelled length) {characters : Text}
    {options : List LongOption}
    (order : options.Perm [.value .length spelled, .value .charset characters]) :
    ∃ given, Reads .charset (options.map LongOption.text) given ∧
      given.number? .length = some length ∧
      given.value? (.setting .charset) = some characters := by
  have acceptable : Acceptable (.inner .charset) options := by
    apply Acceptable.perm _ order
    refine ⟨?_, (by decide : [Setting.length, Setting.charset].Nodup)⟩
    intro option member
    simp only [List.mem_cons, List.not_mem_nil, or_false] at member
    rcases member with rfl | rfl
    · exact ⟨by decide, rfl, spells.accepted⟩
    · exact ⟨by decide, rfl, rfl⟩
  have lengthGiven : .value .length spelled ∈ options := order.mem_iff.mpr List.mem_cons_self
  have charactersGiven : .value .charset characters ∈ options :=
    order.mem_iff.mpr (List.mem_cons_of_mem _ List.mem_cons_self)
  exact ⟨({} : Given).giveAll options, reads_options acceptable,
    Given.number?_giveAll acceptable.nodup lengthGiven spells,
    Given.value?_giveAll acceptable.nodup charactersGiven⟩

section Operands

variable {command : Command} {operand : Operand} {text : Text}

/-- The first operand of a command waits to be checked. -/
theorem Given.takePlain_operand (takes : command.operand? = some operand) (text : Text) :
    ({} : Given).takePlain (.inner command) text =
      .ok { pending := some (.operand operand, some text), operandMet := true } := by
  have levelTakes : (Level.inner command).operand? = some operand := takes
  rw [takePlain, levelTakes]
  rfl

/-- An operand that has been taken and is accepted is what the arguments give. -/
theorem reads_operand
    (accepted : (Slot.operand operand).accepts text) {arguments : List Text}
    (scanned : scan (.inner command) {} arguments =
      .ok { given := { pending := some (.operand operand, some text), operandMet := true }
            word := none }) :
    Reads command arguments { values := [(.operand operand, text)], operandMet := true } :=
  ⟨_, scanned, by simp [Given.settle, Given.take, accepted]⟩

/-- An operand behind the double dash. -/
theorem reads_separated
    (takes : command.operand? = some operand) (accepted : (Slot.operand operand).accepts text) :
    Reads command [['-', '-'], text]
      { values := [(.operand operand, text)], operandMet := true } := by
  have taken : ({} : Given).takeOperand (.inner command) text = .ok _ :=
    Given.takePlain_operand takes text
  apply reads_operand accepted
  rw [scan]
  simp only [List.foldlM_cons, taken]
  rfl

/-- An argument that does not begin with a dash is no option. -/
theorem Given.takeArgument_plain
    {text : Text} (noDash : text.head? ≠ some '-') (given : Given) (level : Level) :
    given.takeArgument level text = given.takePlain level text := by
  rw [takeArgument]
  · rintro long rfl
    exact noDash rfl
  · rintro first rest rfl
    exact noDash rfl

theorem reads_plain
    (takes : command.operand? = some operand) (accepted : (Slot.operand operand).accepts text)
    (noDash : text.head? ≠ some '-') :
    Reads command [text] { values := [(.operand operand, text)], operandMet := true } := by
  have apart : text ≠ ['-', '-'] := by
    rintro rfl
    exact noDash rfl
  have taken := (Given.takeArgument_plain noDash {} (.inner command)).trans
    (Given.takePlain_operand takes text)
  apply reads_operand accepted
  rw [Given.scan_cons_of_takes rfl apart taken]
  rfl

end Operands

theorem Word.ofName?_name (command : Command) :
    Word.ofName? command.name.toList = some (.command command) := by
  cases command <;> decide

theorem Given.verbosity_giveAll (given : Given) (options : List LongOption) :
    (given.giveAll options).verbosity = given.verbosity := by
  induction options generalizing given with
  | nil => rfl
  | cons option others inductionHypothesis =>
      rw [giveAll_cons, inductionHypothesis]
      cases option <;> rfl

/-- What the arguments before a command give, whatever command it is. -/
theorem exists_scan_outer
    {seed count : UInt64} {outer : List Text} (gives : GivesSeedAndCount seed count outer)
    (command : Command) (arguments : List Text) :
    ∃ given : Given,
      scan .outer {} (outer ++ command.name.toList :: arguments) =
        .ok { given, word := some (.command command, arguments) } ∧
      given.pending = none ∧ given.number? .seed = some seed ∧
      given.number? .count = some count ∧ given.verbosity = 0 := by
  cases gives with
  | @options seedText countText seedSpelled countSpelled options order =>
      have acceptable : Acceptable .outer options := by
        apply Acceptable.perm _ order
        refine ⟨?_, (by decide : [Setting.seed, Setting.count].Nodup)⟩
        intro option member
        simp only [List.mem_cons, List.not_mem_nil, or_false] at member
        rcases member with rfl | rfl
        · exact ⟨by decide, rfl, seedSpelled.accepted⟩
        · exact ⟨by decide, rfl, countSpelled.accepted⟩
      have pending := Given.pending_giveAll {} options
      have seedGiven : LongOption.value .seed seedText ∈ options :=
        order.mem_iff.mpr List.mem_cons_self
      have countGiven : LongOption.value .count countText ∈ options :=
        order.mem_iff.mpr (List.mem_cons_of_mem _ List.mem_cons_self)
      refine ⟨({} : Given).giveAll options, ?_, pending,
        Given.number?_giveAll acceptable.nodup seedGiven seedSpelled,
        Given.number?_giveAll acceptable.nodup countGiven countSpelled,
        Given.verbosity_giveAll {} options⟩
      have awaits : (({} : Given).giveAll options).awaitsValue = false := by
        rw [Given.awaitsValue, pending]
      rw [Given.scan_options rfl acceptable (fun option _ => Given.open_unused _), scan, awaits]
      simp only [Level.word?, Word.ofName?_name, Bool.false_eq_true, if_false]

/-- What a command line asks for, when it is known what the arguments behind its command give. -/
theorem ofArguments_eq
    {seed count : UInt64} {outer : List Text} (gives : GivesSeedAndCount seed count outer)
    {command : Command} {arguments : List Text} {given : Given}
    (reads : Reads command arguments given) {origin : Origin}
    (found : command.origin? given = some origin) :
    Invocation.ofArguments (outer ++ command.name.toList :: arguments) =
      .ok { count, seed := some seed, verbosity := 0, origin } := by
  obtain ⟨before, scanned, pending, seedGiven, countGiven, quiet⟩ :=
    exists_scan_outer gives command arguments
  obtain ⟨behind, inner, settled⟩ := reads
  have settledBefore : before.settle = .ok before := by rw [Given.settle, pending]
  have parsed : parse (outer ++ command.name.toList :: arguments) =
      .ok { outer := before, command, inner := given } := by
    simp only [parse, scanned, inner, settled, settledBefore, bind, Except.bind, pure, Except.pure]
  simp only [Invocation.ofArguments, parsed, found, seedGiven, countGiven, quiet, bind, Except.bind,
    pure, Except.pure, Option.getD_some]

/-- What is asked for in the arguments is the configuration itself. -/
theorem Asks.ofArguments
    {seed count : UInt64} {outer : List Text} (gives : GivesSeedAndCount seed count outer)
    {command : Command} {arguments : List Text} {configuration : Configuration}
    (asks : Asks command arguments configuration) :
    Invocation.ofArguments (outer ++ command.name.toList :: arguments) =
      .ok { count, seed := some seed, verbosity := 0, origin := .given configuration } := by
  cases asks with
  | digits spells noLeadingZero order =>
      have switchable : ∀ setting ∈ onlyIf noLeadingZero .noLeadingZero,
          setting ∈ Command.digits.settings ∧ setting.usage = .switch := by
        cases noLeadingZero <;> decide
      have nodup : (onlyIf noLeadingZero .noLeadingZero).Nodup := by
        cases noLeadingZero <;> decide
      obtain ⟨given, reads, length, switches⟩ :=
        exists_reads_length spells (by decide) switchable nodup order
      have zero : given.has .noLeadingZero = noLeadingZero := by
        rw [switches]
        cases noLeadingZero <;> rfl
      apply ofArguments_eq gives reads
      simp only [Command.origin?, length, zero]
      rfl
  | letters spells upper lower order =>
      have switchable : ∀ setting ∈ onlyIf upper .upper ++ onlyIf lower .lower,
          setting ∈ Command.letters.settings ∧ setting.usage = .switch := by
        cases upper <;> cases lower <;> decide
      have nodup : (onlyIf upper .upper ++ onlyIf lower .lower).Nodup := by
        cases upper <;> cases lower <;> decide
      obtain ⟨given, reads, length, switches⟩ :=
        exists_reads_length spells (by decide) switchable nodup order
      have cases : given.has .upper = upper ∧ given.has .lower = lower := by
        rw [switches, switches]
        cases upper <;> cases lower <;> exact ⟨rfl, rfl⟩
      apply ofArguments_eq gives reads
      simp only [Command.origin?, length, cases.1, cases.2]
      rfl
  | word spells order =>
      have known : Setting.length ∈ Command.word.settings := by decide
      obtain ⟨given, reads, length, _⟩ :=
        exists_reads_length spells known (List.forall_mem_nil _) List.nodup_nil order
      apply ofArguments_eq gives reads
      simp only [Command.origin?, length]
      rfl
  | charset spells characters order =>
      obtain ⟨given, reads, length, listed⟩ := exists_reads_characters spells order
      apply ofArguments_eq gives reads
      simp only [Command.origin?, length, listed]
      rfl
  | pattern pattern =>
      exact ofArguments_eq gives (reads_separated rfl rfl) rfl

theorem NamesFile.ofArguments
    {seed count : UInt64} {outer : List Text} (gives : GivesSeedAndCount seed count outer)
    {arguments : List Text} {path : Text} (names : NamesFile arguments path) :
    Invocation.ofArguments (outer ++ Command.config.name.toList :: arguments) =
      .ok { count, seed := some seed, verbosity := 0, origin := .file path } := by
  have accepted : path ≠ [] → (Slot.operand .path).accepts path := by
    intro nonempty
    simpa [Slot.accepts] using nonempty
  cases names with
  | plain _ nonempty noDash =>
      exact ofArguments_eq gives (reads_plain rfl (accepted nonempty) noDash) rfl
  | separated _ nonempty =>
      exact ofArguments_eq gives (reads_separated rfl (accepted nonempty)) rfl

/-! ## Runs -/

/-- A file that holds a text is read as that text. -/
theorem readText_eq
    {files : Files} {path content : Text}
    (holds : files path = .ok (String.ofList content).toUTF8) :
    readText files path = .ok content := by
  have decoded : String.fromUTF8? (String.ofList content).toUTF8 = some (String.ofList content) :=
    dif_pos (String.ofList content).isValidUTF8
  simp only [readText, holds, bind, Except.bind, decoded, String.toList_ofList, pure, Except.pure]

theorem Origin.configuration_file
    {files : Files} {path content : Text}
    (holds : files path = .ok (String.ofList content).toUTF8) {configuration : Configuration}
    (read : Configuration.ofJson content = .ok configuration) :
    (Origin.file path).configuration files = .ok configuration := by
  simp only [Origin.configuration, readText_eq holds, read]

/-- What a run makes of a configuration. -/
def runOf (seed count : UInt64) (configuration : Configuration) : Except RunError Text :=
  match configuration.build with
  | .error error => .error (.unbuildable error)
  | .ok generator =>
      .ok ((generator.generate.successive Congruential.source count.toNat (.ofSeed seed)).flatMap
        fun code => code ++ ['\n'])

theorem Invocation.run_eq
    {files : Files} {origin : Origin} {configuration : Configuration}
    (found : origin.configuration files = .ok configuration) (seed count : UInt64)
    (verbosity : Nat) (unseeded : Congruential) :
    Invocation.run files unseeded { count, seed := some seed, verbosity, origin } =
      runOf seed count configuration := by
  simp only [run, found, runOf, bind, Except.bind]
  cases configuration.build with
  | error error => rfl
  | ok generator =>
      exact congrArg Except.ok
        (run_codeLines generator Congruential.source count.toNat (Congruential.ofSeed seed))

theorem outcome_eq
    {files : Files} {arguments : List Text} {seed count : UInt64} {origin : Origin}
    (asked : Invocation.ofArguments arguments =
      .ok { count, seed := some seed, verbosity := 0, origin })
    {configuration : Configuration} (found : origin.configuration files = .ok configuration)
    (unseeded : Congruential) :
    outcome files unseeded arguments = .ok (runOf seed count configuration) := by
  rw [outcome, asked, ← Invocation.run_eq found seed count 0 unseeded]
  rfl

/-- Every configuration can be asked for in the arguments, with every seed and every number of
codes. -/
theorem exists_arguments (seed count : UInt64) (configuration : Configuration) :
    (∃ outer, GivesSeedAndCount seed count outer) ∧
      ∃ command arguments, Asks command arguments configuration := by
  refine ⟨⟨_, .options (spells_decimal seed) (spells_decimal count) (List.Perm.refl _)⟩, ?_⟩
  cases configuration with
  | digits length noLeadingZero =>
      exact ⟨_, _, .digits (spells_decimal length) noLeadingZero (List.Perm.refl _)⟩
  | letters length letterCase =>
      cases letterCase with
      | upper => exact ⟨_, _, .letters (spells_decimal length) true false (List.Perm.refl _)⟩
      | lower => exact ⟨_, _, .letters (spells_decimal length) false true (List.Perm.refl _)⟩
      | mixed => exact ⟨_, _, .letters (spells_decimal length) false false (List.Perm.refl _)⟩
  | word length => exact ⟨_, _, .word (spells_decimal length) (List.Perm.refl _)⟩
  | charset length characters =>
      exact ⟨_, _, .charset (spells_decimal length) characters (List.Perm.refl _)⟩
  | pattern text => exact ⟨_, _, .pattern text⟩

/-- A seed, a number of codes and a configuration in the arguments make a run succeed, and it writes
the successive codes of the generator from this seed, one to a line. The exception is the
configuration of an empty alphabet, with which the run fails. A run with the same seed and number
and a file that is read as the configuration has the same outcome. -/
theorem outcome_of_asks
    {seed count : UInt64} {outer : List Text} (gives : GivesSeedAndCount seed count outer)
    {command : Command} {arguments : List Text} {configuration : Configuration}
    (asks : Asks command arguments configuration) :
    ((∀ length, configuration ≠ .charset length []) →
      ∃ generator, configuration.build = .ok generator ∧ ∀ files unseeded,
        outcome files unseeded (outer ++ command.name.toList :: arguments) =
          .ok (.ok ((generator.generate.successive Congruential.source count.toNat
            (Congruential.ofSeed seed)).flatMap fun code => code ++ ['\n']))) ∧
    ((∃ length, configuration = .charset length []) → ∀ files unseeded,
      outcome files unseeded (outer ++ command.name.toList :: arguments) =
        .ok (.error (.unbuildable .emptyAlphabet))) ∧
    ∀ (fileOuter : List Text), GivesSeedAndCount seed count fileOuter →
      ∀ (fileArguments : List Text) (path : Text), NamesFile fileArguments path →
      ∀ (files : Files) (json : Text), files path = .ok (String.ofList json).toUTF8 →
        Configuration.ofJson json = .ok configuration → ∀ unseeded,
      outcome files unseeded (fileOuter ++ Command.config.name.toList :: fileArguments) =
        outcome files unseeded (outer ++ command.name.toList :: arguments) := by
  have direct : ∀ files unseeded,
      outcome files unseeded (outer ++ command.name.toList :: arguments) =
        .ok (runOf seed count configuration) :=
    fun files unseeded => outcome_eq (asks.ofArguments gives) rfl unseeded
  refine ⟨fun characters => ?_, ?_, ?_⟩
  · cases built : configuration.build with
    | error error =>
        obtain ⟨length, empty⟩ := configuration.eq_charset_of_build_eq_error built
        exact absurd empty (characters length)
    | ok generator =>
        refine ⟨generator, rfl, fun files unseeded => ?_⟩
        rw [direct, runOf, built]
  · intro characters files unseeded
    obtain ⟨length, rfl⟩ := characters
    rw [direct]
    rfl
  · intro fileOuter fileGives fileArguments path names files json holds read unseeded
    rw [direct, outcome_eq (names.ofArguments fileGives)
      (Origin.configuration_file holds read) unseeded]

/-- Letters with both switches in the arguments, and the same configuration in a file. -/
theorem outcome_of_asks_letters :
    let configuration : Configuration := .letters 4 .upper
    let files : Files := fun _ => .ok (String.ofList configuration.toJson).toUTF8
    let arguments := ["--count=3", "--seed=7", "letters", "--lower", "--length=4", "--upper"]
    let fileArguments := ["--seed=07", "--count=+3", "config", "upper.json"]
    outcome files ⟨1⟩ (arguments.map String.toList) =
        .ok (.ok (((Generator.letters 4 .upper).generate.successive Congruential.source 3
          (Congruential.ofSeed 7)).flatMap fun code => code ++ ['\n'])) ∧
      outcome files ⟨1⟩ (fileArguments.map String.toList) =
        outcome files ⟨1⟩ (arguments.map String.toList) := by
  intro configuration files arguments fileArguments
  have gives : GivesSeedAndCount 7 3 (["--count=3", "--seed=7"].map String.toList) :=
    .options (spells_decimal 7) (spells_decimal 3) (List.Perm.swap _ _ [])
  have leadingZero : Spells ['0', '7'] 7 :=
    .unsigned ⟨['0', '7'], by decide, Pattern.forall_of_all (by decide)⟩ (by decide)
  have plusSign : Spells ['+', '3'] 3 :=
    .signed ⟨['3'], by decide, Pattern.forall_of_all (by decide)⟩ (by decide)
  have fileGives : GivesSeedAndCount 7 3 (["--seed=07", "--count=+3"].map String.toList) :=
    .options leadingZero plusSign (List.Perm.refl _)
  have order : [LongOption.switch .lower, .value .length (Text.decimal 4), .switch .upper].Perm
      [.value .length (Text.decimal 4), .switch .upper, .switch .lower] :=
    @List.perm_append_comm _ [_] _
  have asks : Asks .letters (["--lower", "--length=4", "--upper"].map String.toList)
      configuration :=
    .letters (spells_decimal 4) true true order
  have names : NamesFile ["upper.json".toList] "upper.json".toList :=
    .plain _ (by decide) (by decide)
  have agree := outcome_of_asks gives asks
  obtain ⟨generator, built, direct⟩ := agree.1 (fun length => by simp [configuration])
  obtain rfl := Except.ok.inj built
  exact ⟨direct files ⟨1⟩, agree.2.2 _ fileGives _ _ names files configuration.toJson rfl
    (Configuration.ofJson_toJson configuration) ⟨1⟩⟩

end RandomCodes.CommandLine
