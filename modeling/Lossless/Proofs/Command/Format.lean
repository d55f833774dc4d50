import Lossless.Command.Invocation
import Lossless.Command.Run
import Lossless.Command.Session
import Lossless.Files.Snapshot
import Lossless.Proofs.Files.Reading
import Lossless.Proofs.Files.Snapshot
import Lossless.Proofs.Format.Comments
import Lossless.Proofs.Format.Remade

/-!
# Formatting files from the command line

From the words of a command to the files that it leaves. Of all the tasks that words can name only formatting has a
mode, and the mode is the one that its options say.

What a command comes to over files in memory is one relation: the value, what is said by then, and the files as
they are left. Such a step is followed by another one, so that a command is followed line by line.

The command reads and formats all files first, then goes through the outcomes. Each file has its own step, which
edits this file alone; files that stand at different places do not disturb each other, so the steps together edit
exactly the files that differ from what formatting makes of them.
-/

namespace Lossless

/-! ## Formatting always gives a tree -/

namespace Format

/-- Formatting fails only by a sum that overflows. -/
theorem exists_formatSourceUnit
    {settings : Option Config.FormatterSettings}
    {tree : Java.Tree}
    (fits : overflows (formatSourceUnit settings tree) = false) :
    exists formatted, formatSourceUnit settings tree = .ok formatted := by
  rw [Exact.formatSourceUnit_eq fits]
  obtain ⟨middle, runs, -⟩ :=
    autoFormat_spacing (fun styles => (settings.map (·.applyTo styles)).getD styles) none .root tree
  have formats : Exact.formatWith settings none .root tree = .ok middle := runs
  unfold Exact.formatSourceUnit
  rw [formats]
  cases settings.bind (·.useCrlf) with
  | none => exact ⟨middle, rfl⟩
  | some useCrlf =>
      have alike : (lineBreaks ⟨useCrlf⟩).run none .root middle =
          .ok (some (respaced (gapsOf fun _ => normalizeLineBreaks useCrlf) middle)) := ofSpaces_run ..
      refine ⟨respaced (gapsOf fun _ => normalizeLineBreaks useCrlf) middle, ?_⟩
      change (do return (<- (lineBreaks ⟨useCrlf⟩).run none .root middle).getD middle : Except Error Java.Tree) = _
      rw [alike]
      rfl

end Format

theorem Java.isRecoverable_of_parse
    {source : Text}
    {path : Path}
    {error : Error}
    (fails : Java.parse source path = .error error) :
    error.isRecoverable = true := by
  unfold Java.parse at fails
  split at fails
  · cases fails
    rfl
  · split at fails
    · cases fails
    · cases fails
      rfl

namespace Command

open Files Config

/-! ## What words ask for -/

/-- If the task is to format, its mode is what its options say. -/
def Task.KeepsMode (task : Task) : Prop :=
  forall options mode, task = .format options mode -> options.mode? = some mode

section Levels

variable {words : List Text} {invocation : Invocation} {above : CommonOptions}

theorem keepsMode_ofLevel
    {α : Type}
    {level : Level (Known α)}
    {start : α}
    {taskOf : α -> Option Task}
    (each : forall own task, taskOf own = some task -> task.KeepsMode)
    (asked : ofLevel level start above words taskOf = .ok invocation) :
    invocation.task.KeepsMode := by
  unfold ofLevel at asked
  cases read : level.read words { own := start } with
  | error reason =>
      rw [read] at asked
      cases asked
  | ok known =>
      rw [read] at asked
      change (orMisuse (taskOf known.1.own)).bind _ = _ at asked
      cases named : taskOf known.1.own with
      | none =>
          rw [named] at asked
          cases asked
      | some task =>
          rw [named] at asked
          cases asked
          exact each _ task named

theorem helpAbout_ne_ok
    (isKnown : List Text -> Bool)
    (words : List Text) :
    helpAbout isKnown words ≠ .ok invocation := by
  unfold helpAbout
  split <;> nofun

theorem keepsMode_ofConfigurationWords (asked : ofConfigurationWords above words = .ok invocation) :
    invocation.task.KeepsMode := by
  unfold ofConfigurationWords at asked
  cases read : configurationLevel.read words { own := () } with
  | error reason =>
      rw [read] at asked
      cases asked
  | ok known =>
      obtain ⟨known, none | ⟨name, rest⟩⟩ := known
      · rw [read] at asked
        cases asked
      · rw [read] at asked
        simp only [bind, Except.bind] at asked
        split at asked
        · exact keepsMode_ofLevel (fun _ _ named => by cases named; nofun) asked
        split at asked
        · exact keepsMode_ofLevel (fun _ _ named => by cases named; nofun) asked
        split at asked
        · exact keepsMode_ofLevel (fun _ _ named => by cases named; nofun) asked
        split at asked
        · exact keepsMode_ofLevel (fun _ _ named => by cases named; nofun) asked
        · exact absurd asked (helpAbout_ne_ok _ _)

theorem keepsMode_askedBy (asked : askedBy words = .ok invocation) : invocation.task.KeepsMode := by
  unfold askedBy at asked
  cases read : topLevel.read words { own := () } with
  | error reason =>
      rw [read] at asked
      cases asked
  | ok known =>
      obtain ⟨known, none | ⟨name, rest⟩⟩ := known
      · rw [read] at asked
        cases asked
        nofun
      · rw [read] at asked
        simp only [bind, Except.bind] at asked
        split at asked
        · exact keepsMode_ofLevel (fun _ _ named => by cases named; nofun) asked
        split at asked
        · exact keepsMode_ofConfigurationWords asked
        split at asked
        · exact absurd asked (helpAbout_ne_ok _ _)
        · refine keepsMode_ofLevel (fun own task named => ?_) asked
          obtain ⟨mode, isMode, rfl⟩ := Option.map_eq_some_iff.1 named
          rintro _ _ ⟨⟩
          exact isMode

/-- Words that ask for formatting ask for the mode that their options say. -/
theorem keepsMode_ofWords? (asked : Invocation.ofWords? words = some invocation) : invocation.task.KeepsMode := by
  unfold Invocation.ofWords? at asked
  split at asked
  · next found =>
      cases asked
      exact keepsMode_askedBy found
  · cases asked
    nofun
  · cases asked
    nofun
  · cases asked

end Levels

/-! ## Commands as they run -/

namespace Session

variable {α β : Type} {said left last : Text} {before middle after : Snapshot}

/-- A command that starts after a text was said comes to a value, with a text said by then and with files as left. -/
def Gives
    (command : Session Stored α)
    (said : Text)
    (before : Snapshot)
    (value : α)
    (left : Text)
    (after : Snapshot) : Prop :=
  (command.run.run said).run before = ((.ok value, left), after)

theorem run_bind_of_run
    {action : Stored α}
    {next : α -> Stored β}
    {value : α}
    (runs : action.run before = (value, middle)) :
    (action >>= next).run before = (next value).run middle := by
  rw [StateT.run_bind, runs]
  rfl

theorem gives_pure (value : α) : Gives (pure value) said before value said before :=
  rfl

theorem Gives.bind
    {command : Session Stored α}
    {next : α -> Session Stored β}
    {value : α}
    {result : β}
    (first : command.Gives said before value left middle)
    (second : (next value).Gives left middle result last after) :
    Gives (command >>= next) said before result last after := by
  change StateT.run (((command.run.run said : Stored _)) >>= fun outcome =>
    ExceptT.bindCont next outcome.1 outcome.2) before = _
  rw [run_bind_of_run first]
  exact second

theorem gives_sayLine (line : Text) :
    Gives (sayLine line) said before () (said ++ (line ++ ['\n'])) before :=
  rfl

theorem gives_say (text : Text) : Gives (say text) said before () (said ++ text) before :=
  rfl

theorem gives_lift
    {action : Stored α}
    {value : α}
    (runs : action.run before = (value, after)) :
    Gives (monadLift action : Session Stored α) said before value said after := by
  change (StateT.run (do return (Except.ok (<- action), said) : Stored (Except Stop α × Text)) before) = _
  rw [run_bind_of_run runs]
  rfl

end Session

/-! ## What formatting makes of a file -/

/-- A file that was found: its path, the place where it stands, and what is stored there. -/
structure FoundFile where
  path : Path
  place : Place
  stored : StoredFile

namespace FoundFile

variable {settings : FormatterSettings} {mode : FormatMode} {file : FoundFile}

/-- The file stands under its path in some state of all files. -/
structure StandsIn
    (snapshot : Snapshot)
    (file : FoundFile) : Prop where
  resolves : snapshot.resolve file.path = .ok file.place
  isStored : snapshot.file? file.place = some file.stored

/-- The text of a file that parses, and the text that its formatted tree is printed as. -/
def formatted?
    (settings : FormatterSettings)
    (file : FoundFile) : Option (Text × Text) := do
  let source <- Text.decode? file.stored.bytes
  let tree <- (Java.parse source file.path).toOption
  let formatted <- (Format.formatSourceUnit (some settings) (tree.settle.run 0).1).toOption
  return (source, formatted.printTrimmed)

/-- The file is not a text that parses. -/
def isBroken
    (settings : FormatterSettings)
    (file : FoundFile) : Bool :=
  (file.formatted? settings).isNone

/-- The text of the file differs from what formatting makes of it. -/
def isChanged
    (settings : FormatterSettings)
    (file : FoundFile) : Bool :=
  (file.formatted? settings).any fun (source, printed) => source ≠ printed

/-- The file with the text that formatting makes of it, if it parses. -/
def edited
    (settings : FormatterSettings)
    (file : FoundFile) : StoredFile :=
  match file.formatted? settings with
  | some (_, printed) => { file.stored with bytes := Text.encode printed }
  | none => file.stored

theorem edited_of_formatted
    {source printed : Text}
    (formatted : file.formatted? settings = some (source, printed)) :
    file.edited settings = { file.stored with bytes := Text.encode printed } := by
  rw [edited, formatted]

/-- What the command finds out about the file. -/
def outcome
    (settings : FormatterSettings)
    (file : FoundFile) : Except Error Outcome :=
  let read : Except Error Text :=
    (Text.decode? file.stored.bytes).elim (.error (.ofCause (.io file.path.text Failure.notText.message))) .ok
  read.bind fun source => (Format.formatSource settings source file.path).map (Outcome.compare source)

/-- The numbered tree of a file is formatted when no sum overflows. -/
theorem exists_formatted
    {source : Text}
    {tree : Java.Tree}
    (decoded : Text.decode? file.stored.bytes = some source)
    (parsed : Java.parse source file.path = .ok tree)
    (fits : overflows (file.outcome settings) = false) :
    exists formatted, Format.formatSourceUnit (some settings) (tree.settle.run 0).1 = .ok formatted := by
  refine Format.exists_formatSourceUnit ?_
  rw [outcome, decoded] at fits
  change overflows ((Format.formatSource settings source file.path).map _) = false at fits
  rw [Format.formatSource, parsed] at fits
  change overflows (((Format.formatSourceUnit (some settings) (tree.settle.run 0).1).bind _).map _) = false at fits
  cases formats : Format.formatSourceUnit (some settings) (tree.settle.run 0).1 with
  | ok => rfl
  | error error =>
      rw [formats] at fits
      exact fits

/-- A file is broken exactly when its bytes are no text, or a text that does not parse. -/
theorem isBroken_iff (fits : overflows (file.outcome settings) = false) :
    file.isBroken settings = true ↔
      forall source, Text.decode? file.stored.bytes = some source ->
        exists error, Java.parse source file.path = .error error := by
  unfold isBroken formatted?
  cases decoded : Text.decode? file.stored.bytes with
  | none => simp
  | some source =>
      cases parsed : Java.parse source file.path with
      | error error => simp [parsed, Except.toOption]
      | ok tree =>
          obtain ⟨formatted, formats⟩ := exists_formatted decoded parsed fits
          simp [parsed, formats, Except.toOption]

/-- The command skips a file that is broken, and compares every other one with what formatting makes of it. -/
theorem outcome_cases (fits : overflows (file.outcome settings) = false) :
    (file.formatted? settings = none ∧
        exists error, UnitOutcome.ofExcept (file.outcome settings) = .skipped error) ∨
      exists source printed, file.formatted? settings = some (source, printed) ∧
        Text.decode? file.stored.bytes = some source ∧
        UnitOutcome.ofExcept (file.outcome settings) = .done (Outcome.compare source printed) := by
  unfold formatted?
  rw [outcome] at fits ⊢
  cases decoded : Text.decode? file.stored.bytes with
  | none => exact Or.inl ⟨rfl, _, rfl⟩
  | some source =>
      cases parsed : Java.parse source file.path with
      | error error =>
          have fails : (Format.formatSource settings source file.path).map (Outcome.compare source) = .error error := by
            rw [Format.formatSource, parsed]
            rfl
          refine Or.inl ⟨by simp [parsed, Except.toOption], error, ?_⟩
          change UnitOutcome.ofExcept ((Format.formatSource settings source file.path).map _) = _
          rw [fails, UnitOutcome.ofExcept, if_pos (Java.isRecoverable_of_parse parsed)]
      | ok tree =>
          obtain ⟨formatted, formats⟩ := exists_formatted decoded parsed fits
          have compared : (Format.formatSource settings source file.path).map (Outcome.compare source) =
              .ok (Outcome.compare source formatted.printTrimmed) := by
            rw [Format.formatSource, parsed]
            change ((Format.formatSourceUnit (some settings) (tree.settle.run 0).1).bind _).map _ = _
            rw [formats]
            rfl
          refine Or.inr ⟨source, formatted.printTrimmed, by simp [parsed, formats, Except.toOption], rfl, ?_⟩
          change UnitOutcome.ofExcept ((Format.formatSource settings source file.path).map _) = _
          rw [compared]
          rfl

theorem run_readSource
    {snapshot : Snapshot}
    (stands : file.StandsIn snapshot) :
    (readSource file.path : Stored _).run snapshot =
      ((Text.decode? file.stored.bytes).elim (.error (.ofCause (.io file.path.text Failure.notText.message))) .ok,
        snapshot) := by
  have read : (Access.read file.path : Stored _).run snapshot = (.ok file.stored.bytes, snapshot) := by
    change (snapshot.resolve file.path >>= snapshot.bytesAt, snapshot) = _
    rw [stands.resolves]
    change (snapshot.bytesAt file.place, snapshot) = _
    rw [Snapshot.bytesAt, stands.isStored]
  have readText : (readText file.path : Stored _).run snapshot =
      ((Text.decode? file.stored.bytes).elim (.error .notText) .ok, snapshot) := by
    rw [Files.readText, Session.run_bind_of_run read]
    rfl
  rw [readSource, Session.run_bind_of_run readText]
  cases Text.decode? file.stored.bytes <;> rfl

theorem run_formatFile
    {snapshot : Snapshot}
    (stands : file.StandsIn snapshot) :
    (formatFile settings file.path : Stored _).run snapshot = ((file.path, file.outcome settings), snapshot) := by
  rw [formatFile, Session.run_bind_of_run (run_readSource stands)]
  rfl

theorem run_formatFiles
    {snapshot : Snapshot}
    {files : List FoundFile}
    (settings : FormatterSettings)
    (stand : forall file, file ∈ files -> file.StandsIn snapshot) :
    ((files.map FoundFile.path).mapM (formatFile settings) : Stored _).run snapshot =
      (files.map fun file => (file.path, file.outcome settings), snapshot) := by
  induction files with
  | nil => rfl
  | cons first rest ih =>
      obtain ⟨here, later⟩ := List.forall_mem_cons.1 stand
      rw [List.map_cons, List.mapM_cons, Session.run_bind_of_run (run_formatFile here),
        Session.run_bind_of_run (ih later)]
      rfl

end FoundFile

/-! ## What the command edits -/

/-- Between two states of all files nothing differs but the files that were found: these hold what formatting makes
of them if they are written, and what they held if not. -/
structure Edits
    (settings : FormatterSettings)
    (mode : FormatMode)
    (files : List FoundFile)
    (before after : Snapshot) : Prop where
  ways : before.SameWays after
  each : forall file, file ∈ files ->
    after.file? file.place = some (if mode = .write then file.edited settings else file.stored)
  others : forall place, place ∉ files.map FoundFile.place -> after.file? place = before.file? place

/-- The summary with some more files: those that differ from what formatting makes of them are changed, and also
written if they are to be, and those that do not parse have failed. -/
def Summary.counting
    (settings : FormatterSettings)
    (mode : FormatMode)
    (files : List FoundFile)
    (summary : Summary) : Summary :=
  let changed := files.countP (·.isChanged settings)
  { summary with
    changed := summary.changed + changed
    written := summary.written + if mode = .write then changed else 0
    failed := summary.failed + files.countP (·.isBroken settings) }

section Edits

variable {settings : FormatterSettings} {mode : FormatMode} {file : FoundFile} {files : List FoundFile}
variable {before middle after : Snapshot}

theorem Summary.counting_cons
    (settings : FormatterSettings)
    (mode : FormatMode)
    (file : FoundFile)
    (files : List FoundFile)
    (summary : Summary) :
    summary.counting settings mode (file :: files) =
      (summary.counting settings mode [file]).counting settings mode files := by
  cases mode <;> simp [Summary.counting, List.countP_cons] <;> omega

theorem FoundFile.StandsIn.of_edits
    {other : FoundFile}
    (edits : Edits settings mode [file] before after)
    (elsewhere : other.place ≠ file.place)
    (stands : other.StandsIn before) :
    other.StandsIn after := by
  refine ⟨edits.ways.resolve ▸ stands.resolves, ?_⟩
  rw [edits.others other.place (by simpa using elsewhere)]
  exact stands.isStored

/-- Editing one file and then others that stand elsewhere edits them all. -/
theorem Edits.cons
    (distinct : file.place ∉ files.map FoundFile.place)
    (first : Edits settings mode [file] before middle)
    (later : Edits settings mode files middle after) :
    Edits settings mode (file :: files) before after where
  ways := first.ways.trans later.ways
  each := List.forall_mem_cons.2
    ⟨(later.others file.place distinct).trans (first.each file List.mem_cons_self), later.each⟩
  others := fun place elsewhere => by
    rw [List.map_cons, List.mem_cons, not_or] at elsewhere
    rw [later.others place elsewhere.2, first.others place (by simpa using elsewhere.1)]

/-- A file that is left as it is, because it is not to be written or already holds what it should. -/
theorem Edits.single_of_same
    (stands : file.StandsIn before)
    (same : mode = .write -> file.edited settings = file.stored) :
    Edits settings mode [file] before before where
  ways := .refl before
  each := List.forall_mem_singleton.2 <| by
    rw [stands.isStored]
    split
    · next isWritten => rw [same isWritten]
    · rfl
  others := fun _ _ => rfl

/-- A file that is written. -/
theorem Edits.single_of_put
    {source printed : Text}
    (stands : file.StandsIn before)
    (formatted : file.formatted? settings = some (source, printed)) :
    Edits settings .write [file] before (before.put file.place (Text.encode printed)) where
  ways := Snapshot.sameWays_put stands.isStored _
  each := List.forall_mem_singleton.2 <| by
    rw [Snapshot.file?_put_same stands.isStored, if_pos rfl, FoundFile.edited_of_formatted formatted]
  others := fun place elsewhere => Snapshot.file?_put_other stands.isStored _ (by simpa using elsewhere)

end Edits

/-! ## The files one after the other -/

section Steps

variable {settings : FormatterSettings} {mode : FormatMode} {file : FoundFile} {files : List FoundFile}
variable {before : Snapshot}

/-- What is done about a file that differs: it is written, or something is said about it. -/
theorem onUnformatted_edits
    {source printed : Text}
    (isTree : before.IsTree)
    (stands : file.StandsIn before)
    (formatted : file.formatted? settings = some (source, printed))
    (said : Text) :
    exists line after,
      (onUnformatted mode file.path source printed : Session Stored _).Gives said before
        (decide (mode = .write)) (said ++ line) after ∧
      Edits settings mode [file] before after := by
  cases mode with
  | diff => exact ⟨_, before, rfl, .single_of_same stands nofun⟩
  | check => exact ⟨_, before, rfl, .single_of_same stands nofun⟩
  | write =>
      have writes : (writeText file.path printed : Stored _).run before =
          (.ok (), before.put file.place (Text.encode printed)) :=
        Snapshot.run_write (Snapshot.write_of_resolve isTree stands.resolves stands.isStored _)
      refine ⟨[], before.put file.place (Text.encode printed), ?_, .single_of_put stands formatted⟩
      rw [List.append_nil]
      exact (Session.gives_lift writes).bind ((Session.gives_pure ()).bind (Session.gives_pure true))

/-- One step of the command edits one file and counts it. -/
theorem reportFile_edits
    (isTree : before.IsTree)
    (stands : file.StandsIn before)
    (fits : overflows (file.outcome settings) = false)
    (failed : Text)
    (summary : Summary)
    (said : Text) :
    exists line after,
      (reportFile failed (onUnformatted mode) summary (file.path, file.outcome settings) : Session Stored _).Gives said
        before (summary.counting settings mode [file]) (said ++ line) after ∧
      Edits settings mode [file] before after := by
  obtain ⟨unformatted, error, skipped⟩ | ⟨source, printed, formatted, decoded, done⟩ := FoundFile.outcome_cases fits
  · have counted : summary.counting settings mode [file] = { summary with failed := summary.failed + 1 } := by
      simp [Summary.counting, FoundFile.isChanged, FoundFile.isBroken, unformatted]
    let line := "error ".toList ++ file.path.text ++ [':', ' '] ++ error.message ++ ['\n']
    refine ⟨line, before, ?_, .single_of_same stands fun _ => by rw [FoundFile.edited, unformatted]⟩
    rw [counted]
    simp only [reportFile, skipped]
    exact (Session.gives_sayLine _).bind (Session.gives_pure _)
  · by_cases same : source = printed
    · have counted : summary.counting settings mode [file] = summary := by
        simp [Summary.counting, FoundFile.isChanged, FoundFile.isBroken, formatted, same]
      refine ⟨[], before, ?_, .single_of_same stands fun _ => ?_⟩
      · rw [counted, List.append_nil]
        simp only [reportFile, done, Outcome.compare, if_pos same]
        exact Session.gives_pure summary
      · rw [FoundFile.edited_of_formatted formatted, ← same, Text.encode_decode? decoded]
    · have counted : summary.counting settings mode [file] =
          { summary with
            changed := summary.changed + 1
            written := summary.written + (decide (mode = .write)).toNat } := by
        cases mode <;> simp [Summary.counting, FoundFile.isChanged, FoundFile.isBroken, formatted, same]
      obtain ⟨line, after, gives, edits⟩ := onUnformatted_edits isTree stands formatted said
      refine ⟨line, after, ?_, edits⟩
      rw [counted]
      simp only [reportFile, done, Outcome.compare, if_neg same]
      exact gives.bind (Session.gives_pure _)

/-- The steps together edit and count all files. -/
theorem reportFiles_edits
    (isTree : before.IsTree)
    (stand : forall file, file ∈ files -> file.StandsIn before)
    (distinct : (files.map FoundFile.place).Nodup)
    (fits : forall file, file ∈ files -> overflows (file.outcome settings) = false)
    (failed : Text)
    (summary : Summary)
    (said : Text) :
    exists lines after,
      ((files.map fun file => (file.path, file.outcome settings)).foldlM (reportFile failed (onUnformatted mode))
        summary : Session Stored _).Gives said before (summary.counting settings mode files) (said ++ lines) after ∧
      Edits settings mode files before after := by
  induction files generalizing before summary said with
  | nil =>
      refine ⟨[], before, ?_, .refl before, nofun, fun _ _ => rfl⟩
      have counted : summary.counting settings mode [] = summary := by simp [Summary.counting]
      rw [counted, List.append_nil]
      exact Session.gives_pure summary
  | cons file rest ih =>
      obtain ⟨here, later⟩ := List.forall_mem_cons.1 stand
      obtain ⟨elsewhere, distinctRest⟩ := List.nodup_cons.1 distinct
      obtain ⟨fitsHere, fitsLater⟩ := List.forall_mem_cons.1 fits
      obtain ⟨line, middle, gives, first⟩ := reportFile_edits isTree here fitsHere failed summary said
      have standRest (other : FoundFile) (member : other ∈ rest) : other.StandsIn middle :=
        .of_edits first (fun same => elsewhere (same ▸ List.mem_map_of_mem member)) (later other member)
      obtain ⟨lines, after, finishes, edits⟩ := ih (first.ways.isTree isTree) standRest distinctRest fitsLater
        (summary.counting settings mode [file]) (said ++ line)
      refine ⟨line ++ lines, after, ?_, .cons elsewhere first edits⟩
      rw [Summary.counting_cons, ← List.append_assoc, List.map_cons, List.foldlM_cons]
      exact gives.bind finishes

end Steps

/-! ## The command -/

/-- The options of the command come before the settings of the configuration, and nothing else does. -/
structure FormatOptions.Overrides
    (options : FormatOptions)
    (configured effective : FormatterSettings) : Prop where
  styles : forall styles,
    effective.applyTo styles =
      { configured.applyTo styles with
        indents :=
          { (configured.applyTo styles).indents with
            indentSize := options.indentSize.getD (configured.applyTo styles).indents.indentSize
            useTabCharacter := options.usesTabs || (configured.applyTo styles).indents.useTabCharacter } }
  lineBreaks : effective.useCrlf = configured.useCrlf

theorem FormatOptions.overrides_settings
    (options : FormatOptions)
    (configuration : Configuration) :
    options.Overrides configuration.formatterSettings (options.settings configuration) where
  styles := fun styles => by
    cases size : options.indentSize <;> cases tabs : options.usesTabs <;>
      simp [FormatOptions.settings, FormatterSettings.applyTo, size, tabs]
  lineBreaks := rfl

/-- The configuration and the files that a command works on in some state of all files. -/
def selectionIn
    (snapshot : Snapshot)
    (named : Option Path)
    (selection : Selection)
    (extensions : List Text) : Except Stop (Configuration × List Path) :=
  (((selectFiles named selection extensions : Session Stored _).run.run []).run snapshot).1.1

section Runs

variable {settings : FormatterSettings} {mode : FormatMode} {files : List FoundFile} {before : Snapshot}

theorem gives_selectFiles
    {named : Option Path}
    {selection : Selection}
    {extensions : List Text}
    {chosen : Configuration × List Path}
    (selected : selectionIn before named selection extensions = .ok chosen) :
    exists said, (selectFiles named selection extensions : Session Stored _).Gives [] before chosen said before := by
  have reads := onlyReads_selectFiles named selection extensions [] before
  exact ⟨_, Prod.ext (Prod.ext selected rfl) reads⟩

/-- The numbers of a run over some files. -/
def tally
    (settings : FormatterSettings)
    (mode : FormatMode)
    (files : List FoundFile) : Summary :=
  ({ checked := files.length } : Summary).counting settings mode files

theorem tally_isClean_iff :
    ((tally settings mode files).failed = 0 ∧ (mode = .write ∨ (tally settings mode files).changed = 0)) ↔
      forall file, file ∈ files ->
        file.isBroken settings = false ∧ (mode = .write ∨ file.isChanged settings = false) := by
  simp only [tally, Summary.counting, Nat.zero_add, List.countP_eq_zero, Bool.not_eq_true]
  constructor
  · rintro ⟨whole, written | same⟩ file member
    · exact ⟨whole file member, Or.inl written⟩
    · exact ⟨whole file member, Or.inr (same file member)⟩
  · intro each
    refine ⟨fun file member => (each file member).1, ?_⟩
    by_cases written : mode = .write
    · exact Or.inl written
    · exact Or.inr fun file member => (each file member).2.resolve_left written

theorem formatFiles_edits
    (mode : FormatMode)
    (isTree : before.IsTree)
    (stand : forall file, file ∈ files -> file.StandsIn before)
    (distinct : (files.map FoundFile.place).Nodup)
    (fits : forall file, file ∈ files -> overflows (file.outcome settings) = false)
    (said : Text) :
    exists lines ending after,
      (formatFiles settings mode (files.map FoundFile.path) : Session Stored _).Gives said before
        (tally settings mode files, ending)
        (lines ++ (tally settings mode files).render "Files needing formatting".toList) after ∧
      Edits settings mode files before after ∧
      (ending.isSuccess = true ↔ forall file, file ∈ files ->
        file.isBroken settings = false ∧ (mode = .write ∨ file.isChanged settings = false)) := by
  obtain ⟨lines, after, reports, edits⟩ :=
    reportFiles_edits isTree stand distinct fits "Failed to format".toList { checked := files.length } said
  let summary := tally settings mode files
  let isSuccess := summary.failed = 0 && (mode = .write || summary.changed = 0)
  refine ⟨said ++ lines, { isSuccess, isTimed := true }, after, ?_, edits, ?_⟩
  · have noneOverflows : ((files.map fun file => (file.path, file.outcome settings)).any fun entry =>
        overflows entry.2) = false := by
      simpa using fits
    refine (Session.gives_lift (FoundFile.run_formatFiles settings stand)).bind ?_
    simp only [noneOverflows, Bool.false_eq_true, if_false]
    refine Session.Gives.bind ?_ ((Session.gives_say _).bind (Session.gives_pure _))
    rw [reportFiles, List.length_map]
    exact reports
  · rw [← tally_isClean_iff, Bool.and_eq_true, Bool.or_eq_true]
    simp only [summary, decide_eq_true_eq]

/-- What a formatting run over some files does to all files, and what it reports. -/
structure Formats
    (settings : FormatterSettings)
    (mode : FormatMode)
    (files : List FoundFile)
    (before after : Snapshot)
    (report : Report) : Prop where
  edits : Edits settings mode files before after
  fails : forall file, file ∈ files ->
    (file.isBroken settings = true ↔ forall source, Text.decode? file.stored.bytes = some source ->
      exists error, Java.parse source file.path = .error error)
  succeeds : report.code = 0 ↔ forall file, file ∈ files ->
    file.isBroken settings = false ∧ (mode = .write ∨ file.isChanged settings = false)
  counts : files ≠ [] -> exists lines,
    report.output = lines ++ (tally settings mode files).render "Files needing formatting".toList

/-- The report of a command that comes to an end. -/
def Ending.report
    (output : Text)
    (ending : Ending) : Report :=
  { output, code := if ending.isSuccess then 0 else 1, isTimed := ending.isTimed }

theorem code_report
    (output : Text)
    (ending : Ending) :
    (ending.report output).code = 0 ↔ ending.isSuccess = true := by
  unfold Ending.report
  cases ending.isSuccess <;> simp

theorem format_formats
    {named : Option Path}
    {options : FormatOptions}
    {configuration : Configuration}
    (selected : selectionIn before named options.selection ["java".toList] =
      .ok (configuration, files.map FoundFile.path))
    (isTree : before.IsTree)
    (stand : forall file, file ∈ files -> file.StandsIn before)
    (distinct : (files.map FoundFile.place).Nodup)
    (fits : forall file, file ∈ files -> overflows (file.outcome (options.settings configuration)) = false) :
    exists ending output after,
      (format named options mode : Session Stored _).Gives [] before ending output after ∧
        Formats (options.settings configuration) mode files before after (ending.report output) := by
  obtain ⟨said, selects⟩ := gives_selectFiles selected
  by_cases none : files = []
  · subst none
    refine ⟨{}, _, before, selects.bind ((Session.gives_sayLine _).bind (Session.gives_pure _)), ?_⟩
    exact ⟨⟨.refl before, nofun, fun _ _ => rfl⟩, nofun, by simp [Ending.report], by simp⟩
  · obtain ⟨lines, ending, after, gives, edits, succeeds⟩ :=
      formatFiles_edits mode isTree stand distinct fits said
    refine ⟨ending, lines ++ (tally _ mode files).render "Files needing formatting".toList, after, ?_, edits,
      fun file member => FoundFile.isBroken_iff (fits file member), (code_report _ ending).trans succeeds,
      fun _ => ⟨lines, rfl⟩⟩
    refine selects.bind ?_
    have some : (files.map FoundFile.path).isEmpty = false := by simpa using none
    simp only [some]
    exact gives.bind (Session.gives_pure _)

/--
A formatting run edits exactly what it should. Whatever files are chosen, if they stand at different places and no sum
overflows when they are formatted (that would end the run), each one that parses is left holding what formatting makes
of it under the settings in effect, and no other file is changed; with a mode that only reports no file is changed at
all. The summary counts the files that differ from what formatting makes of them as changed, and in the mode that
writes as written, and those that do not parse as failed. The run succeeds when no file failed and none that was only
reported differs.
-/
theorem formatting_editsFiles
    {words : List Text}
    {invocation : Invocation}
    {options : FormatOptions}
    {mode : FormatMode}
    {configuration : Configuration}
    (asked : Invocation.ofWords? words = some invocation)
    (task : invocation.task = .format options mode)
    (selected : selectionIn before invocation.configuration options.selection ["java".toList] =
      .ok (configuration, files.map FoundFile.path))
    (isTree : before.IsTree)
    (stand : forall file, file ∈ files -> file.StandsIn before)
    (distinct : (files.map FoundFile.place).Nodup)
    (fits : forall file, file ∈ files -> overflows (file.outcome (options.settings configuration)) = false) :
    options.mode? = some mode ∧
      exists settings report after,
        options.Overrides configuration.formatterSettings settings ∧
          (Command.run words : Stored Report).run before = (report, after) ∧
          Formats settings mode files before after report := by
  refine ⟨keepsMode_ofWords? asked options mode task, options.settings configuration, ?_⟩
  obtain ⟨ending, output, after, gives, formats⟩ := format_formats selected isTree stand distinct fits
  refine ⟨ending.report output, after, options.overrides_settings configuration, ?_, formats⟩
  have performs : (invocation.perform : Session Stored _).Gives [] before ending output after := by
    rw [Invocation.perform, task]
    exact gives
  rw [Command.run, asked]
  exact Session.run_bind_of_run performs

end Runs

/-! ## A run -/

/-- The path of a file in the working directory. -/
def sourcePath (name : Char) : Path :=
  ⟨name :: ".java".toList⟩

/-- A file that parses and one that does not. -/
def smallProject : Snapshot where
  files := [([(sourcePath 'A').text], ⟨Text.encode "a=b;".toList, 0o644⟩),
    ([(sourcePath 'B').text], ⟨Text.encode ['a'], 0o644⟩)]
  directories := []
  current := []

/-- Both files, as they are found. -/
def smallProjectFiles : List FoundFile :=
  [⟨sourcePath 'A', [(sourcePath 'A').text], ⟨Text.encode "a=b;".toList, 0o644⟩⟩,
    ⟨sourcePath 'B', [(sourcePath 'B').text], ⟨Text.encode ['a'], 0o644⟩⟩]

theorem selectionIn_smallProject :
    selectionIn smallProject none { paths := smallProjectFiles.map FoundFile.path } ["java".toList] =
      .ok ({}, smallProjectFiles.map FoundFile.path) := by
  have chosen : selectionIn smallProject none { paths := smallProjectFiles.map FoundFile.path } ["java".toList] =
      .ok ({}, dropRepeated ([sourcePath 'A', sourcePath 'B'].mergeSort fun left right => !right.before left)) := by
    with_unfolding_all rfl
  have differ : (sourcePath 'A').agrees (sourcePath 'B') = false := by decide +kernel
  rw [chosen, List.mergeSort_of_pairwise (by decide +kernel), dropRepeated, differ, if_neg (by simp), dropRepeated]
  · rfl
  · rintro _ _ _ ⟨⟩

theorem isTree_smallProject : smallProject.IsTree := by
  intro place isFile
  have member := Snapshot.isSome_file?_iff.1 isFile
  simp only [smallProject, List.map_cons, List.map_nil, List.mem_cons, List.not_mem_nil, or_false] at member
  rcases member with rfl | rfl <;> decide +kernel

theorem stand_smallProjectFiles : forall file, file ∈ smallProjectFiles -> file.StandsIn smallProject := by
  have resolves : forall file, file ∈ smallProjectFiles -> smallProject.resolve file.path = .ok file.place := by
    decide +kernel
  have isStored : forall file, file ∈ smallProjectFiles -> smallProject.file? file.place = some file.stored := by
    decide +kernel
  exact fun file member => ⟨resolves file member, isStored file member⟩

/-- A run with tabs over a file that parses and one that does not. -/
theorem formatting_editsFiles_of_smallProject :
    smallProject.IsTree ∧ (smallProjectFiles.map FoundFile.place).Nodup ∧
      exists settings report after,
        (Command.run ("fmt".toList :: "--use-tabs".toList :: smallProjectFiles.map fun file => file.path.text) :
          Stored Report).run smallProject = (report, after) ∧
        Formats settings .write smallProjectFiles smallProject after report := by
  let options : FormatOptions := { selection := { paths := smallProjectFiles.map FoundFile.path }, usesTabs := true }
  have asked : Invocation.ofWords?
      ("fmt".toList :: "--use-tabs".toList :: smallProjectFiles.map fun file => file.path.text) =
        some ⟨.format options .write, none⟩ := by
    with_unfolding_all rfl
  have distinct : (smallProjectFiles.map FoundFile.place).Nodup := by decide +kernel
  have fits : forall file, file ∈ smallProjectFiles -> overflows (file.outcome (options.settings {})) = false := by
    decide +kernel
  obtain ⟨-, settings, report, after, -, runs, formats⟩ := formatting_editsFiles asked rfl selectionIn_smallProject
    isTree_smallProject stand_smallProjectFiles distinct fits
  exact ⟨isTree_smallProject, distinct, settings, report, after, runs, formats⟩

end Command
end Lossless
