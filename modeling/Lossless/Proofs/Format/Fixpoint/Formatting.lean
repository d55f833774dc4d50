import Lossless.Proofs.Format.Comments
import Lossless.Proofs.Format.Fixpoint.Replay

/-!
# Formatting twice

A formatting run over a unit that can be read lays the unit out in four steps: blank lines are capped and blanks are
made as the style wants them, lines are indented, and every space is finished. What it prints is read back, and the
next run finds an echo of what the first one had indented. As long as every list whose elements are to stand below the
first one goes on in the line that it stands on, both runs indent alike, and print the same.

Behind a line break the first element of a list is measured where it stood before it was moved. So a run can align
the others with a column in which nothing stands any more, and the next run moves them again.
-/

namespace Lossless
namespace Format

open Java Config Indents

/-! ## Known layouts -/

/-- What a layout tells of the spaces that it leaves is known of them in the next layout. -/
theorem Relaid.behind
    {styles : Styles}
    {first second : Slot -> Space -> Space -> Prop}
    {around : Surroundings}
    {old middle new : Tree}
    {holds : Slot -> Space -> Prop}
    (lines : KeepsLines first)
    (tells : forall {slot old new}, first slot old new -> holds slot new)
    (before : Relaid styles first around old middle)
    (after : Relaid styles second around middle new) :
    Relaid styles (fun slot old new => holds slot old ∧ second slot old new) around middle new := by
  let told : Slot -> Space -> Space -> Prop := fun slot old new => new.containsNewline = old.containsNewline ∧ holds slot old
  have back : Relaid styles told around middle old :=
    before.symm lines fun related => ⟨(lines related).symm, tells related⟩
  have forth : Relaid styles (fun _ _ _ => True) around old new := before.comp lines (fun _ _ _ _ _ _ => trivial) after
  have known : Relaid styles (fun slot old _ => holds slot old) around middle new := by
    refine back.comp And.left (fun slot old between new told _ => ?_) forth
    exact told.2
  exact known.inter And.intro after

/-! ## The steps of a run -/

section Steps

variable {styles : Styles} {path : Path} {tree old laid moved : Tree}

/-- Spaces before lines are indented: blank lines are capped, and blanks made as the style wants them. -/
abbrev LaidSpace
    (styles : Styles)
    (slot : Slot)
    (old new : Space) : Prop :=
  new = respace slot (cappedSpace styles.blankLines slot.place old)

/-- Spaces that a run has moved break lines where the source does. -/
structure PlacedSpace
    (styles : Styles)
    (slot : Slot)
    (old new : Space) : Prop where
  isPlaced : IsPlaced styles slot new
  alike : LineAlike old new

/-- Placed spaces, finished. -/
structure FinishedSpace
    (styles : Styles)
    (useCrlf : Option Bool)
    (slot : Slot)
    (old new : Space) : Prop where
  isPlaced : IsPlaced styles slot old
  finished : new = finishSpace styles.indents useCrlf slot.place old

theorem FinishedSpace.lines
    {useCrlf : Option Bool} :
    KeepsLines (FinishedSpace styles useCrlf) := by
  rintro slot old _ ⟨isPlaced, rfl⟩
  exact containsNewline_eq_of_feeds (feeds_finishSpace isPlaced)

theorem isUnit_of_isUnitOf (unit : tree.IsUnitOf path) : tree.form.isUnit = true := by
  obtain ⟨statements, eof, form⟩ := unit.isUnit
  rw [form]
  rfl

/-- The passes before lines are indented. -/
theorem exists_laid
    (unit : tree.IsUnitOf path) :
    ∃ laid, runPasses none .root [normalizeFormat, Exact.blankLines styles.blankLines, spaces styles.spacing] tree = .ok laid ∧
      Relaid styles (LaidSpace styles) .root tree laid ∧ laid.IsUnitOf path ∧ laid.ids = tree.ids := by
  obtain ⟨hoisted, runsFirst, changed⟩ := normalizeFormat_changes styles unit.isPart
  obtain ⟨_, other, spacing⟩ := normalizeFormat_spacing none .root tree
  cases runsFirst.symm.trans other
  have unitHoisted := isSafe_normalizeFormat.isUnitOf unit runsFirst
  let capped := respaced (gapsOf (cappedSpace styles.blankLines)) hoisted
  have runsCapped : (Exact.blankLines styles.blankLines).run none .root hoisted = .ok (some capped) := ofSpaces_run ..
  have unitCapped := (isSafe_blankLines _).isUnitOf unitHoisted runsCapped
  obtain ⟨laid, runsLast, spaced⟩ := spaces_relays styles unitCapped.isPart (isUnit_of_isUnitOf unitCapped)
  let cap : Slot -> Space -> Space -> Prop := fun slot old new => new = cappedSpace styles.blankLines slot.place old
  have relatedCapped : Relaid styles cap .root tree capped := by
    refine (changed .root).comp (fun same => congrArg _ same) ?_ (relaid_respaced styles _ unitHoisted.isPart)
    rintro slot old _ _ rfl rfl
    rfl
  have lines : KeepsLines cap := by
    rintro slot old _ rfl
    exact (lineAlike_capped styles.blankLines slot.place old).lines
  refine ⟨laid, ?_, relatedCapped.comp lines ?_ spaced, (isSafe_spaces _).isUnitOf unitCapped runsLast, ?_⟩
  · rw [runPasses, runsFirst]
    change runPasses none .root [Exact.blankLines styles.blankLines, spaces styles.spacing] hoisted = _
    rw [runPasses, runsCapped]
    change runPasses none .root [spaces styles.spacing] capped = _
    rw [runPasses, runsLast]
    rfl
  · rintro slot old _ _ rfl rfl
    rfl
  · have bareCapped := (ofSpaces_regaps isGapRelation_true fun _ _ => trivial).bare_eq runsCapped
    have bareLaid := (spaces_regaps isGapRelation_true (fun _ _ _ => trivial) styles.spacing).bare_eq runsLast
    exact ids_of_bare ((bareLaid.trans bareCapped).trans spacing.outline.bare)

/-- Lines are indented, and every visit makes of a node what its surroundings tell. -/
theorem exists_moved (unit : laid.IsUnitOf path) :
    ∃ moved, (Exact.tabsAndIndents styles.indents).run none .root laid = .ok (some moved) ∧
      VisitedBelow styles [] (surroundingsOf styles.indents .root) laid moved ∧
      Relaid styles (fun slot => Moved styles.indents slot.place) .root laid moved ∧ moved.IsUnitOf path ∧
      moved.ids = laid.ids := by
  obtain ⟨moved, left, runs, visits⟩ :=
    @tabsAndIndents_throughout styles (Reindents styles) (fun _ _ _ _ _ => id) .root laid
  obtain ⟨_, other, changed⟩ := tabsAndIndents_changes styles styles.indents unit.isPart
  cases runs.symm.trans other
  have bare := (tabsAndIndents_regaps isGapRelation_true fun _ _ _ _ => trivial).bare_eq runs
  exact ⟨moved, runs, ⟨⟨.never, .root⟩, left, rfl, rfl, reads_surroundingsOf _ _, visits⟩, changed .root,
    (isSafe_tabsAndIndents _).isUnitOf unit runs, ids_of_bare bare⟩

/-- The passes behind the indentation finish the spaces of every line. -/
theorem exists_stripped
    (placed : Relaid styles (PlacedSpace styles) .root old moved)
    (unit : moved.IsUnitOf path) :
    ∃ stripped, runPasses none .root
        (Exact.tabsOrSpaces styles.indents :: if styles.indents.keepIndentsOnEmptyLines then [] else [trailingWhitespace]) moved =
          .ok stripped ∧
      Relaid styles (FinishedSpace styles none) .root moved stripped ∧ stripped.IsUnitOf path := by
  let tab (space : Space) : Space := space.mapWhitespace (Exact.retab styles.indents)
  let tabbed := respaced (gapsOf fun _ => tab) moved
  have runsTabbed : (Exact.tabsOrSpaces styles.indents).run none .root moved = .ok (some tabbed) := ofSpaces_run ..
  have unitTabbed := (isSafe_tabsOrSpaces _).isUnitOf unit runsTabbed
  let tabs : Slot -> Space -> Space -> Prop := fun slot old new => IsPlaced styles slot old ∧ new = tab old
  have relatedTabbed : Relaid styles tabs .root moved tabbed :=
    placed.behind (fun placed => placed.alike.lines) (fun placed => placed.isPlaced)
      (relaid_respaced styles (fun _ => tab) unit.isPart)
  cases keeps : styles.indents.keepIndentsOnEmptyLines with
  | true =>
      refine ⟨tabbed, ?_, relatedTabbed.mono ?_, unitTabbed⟩
      · rw [runPasses, runsTabbed]
        rfl
      · rintro slot old _ ⟨isPlaced, rfl⟩
        exact ⟨isPlaced, (if_pos keeps).symm⟩
  | false =>
      let stripped := respaced (gapsOf stripSpace) tabbed
      have runsStripped : trailingWhitespace.run none .root tabbed = .ok (some stripped) := ofSpaces_run ..
      have lines : KeepsLines tabs := by
        rintro slot old _ ⟨-, rfl⟩
        exact containsNewline_mapWhitespace (retab_sameShape styles.indents) old
      refine ⟨stripped, ?_, relatedTabbed.comp lines ?_ (relaid_respaced styles _ unitTabbed.isPart),
        isSafe_trailingWhitespace.isUnitOf unitTabbed runsStripped⟩
      · rw [runPasses, runsTabbed]
        change runPasses none .root [trailingWhitespace] tabbed = _
        rw [runPasses, runsStripped]
        rfl
      · rintro slot old _ _ ⟨isPlaced, rfl⟩ rfl
        exact ⟨isPlaced, (if_neg (by simp [keeps])).symm⟩

end Steps

/-! ## Runs -/

section Runs

variable {styles : Styles} {useCrlf : Option Bool} {path : Path} {tree old laid moved new : Tree}

/-- The trees between the steps of a formatting run. -/
structure FormattingRun
    (styles : Styles)
    (useCrlf : Option Bool)
    (path : Path)
    (old laid moved new : Tree) : Prop where
  spaced : Relaid styles (LaidSpace styles) .root old laid
  visited : VisitedBelow styles [] (surroundingsOf styles.indents .root) laid moved
  placed : Relaid styles (PlacedSpace styles) .root old moved
  finished : Relaid styles (FinishedSpace styles useCrlf) .root moved new
  isLaid : laid.IsUnitOf path
  isMoved : moved.IsUnitOf path
  isNew : new.IsUnitOf path
  idsLaid : laid.ids = old.ids
  idsMoved : moved.ids = old.ids

theorem contents_of_sameSpace
    {place : SpacePlace}
    {old new : Space}
    (same : SameSpace place old new) :
    contents new = contents old := by
  have whitespace : new.whitespace = old.whitespace := by simpa using congrArg Space.whitespace same
  have comments : new.comments = old.comments := by simpa using congrArg Space.comments same
  exact Prod.ext whitespace comments

/-- Spaces of the same content. -/
abbrev SameContents
    (_ : Slot)
    (old new : Space) : Prop :=
  contents new = contents old

theorem keepsLines_sameContents : KeepsLines SameContents :=
  fun same => containsNewline_eq_of_feeds (congrArg feeds same)

/-- What a run has moved breaks lines where the numbered source does. -/
theorem placed_of_numbered
    (numbered : Relaid styles (fun slot => NumberedSpace slot.place) .root tree old)
    (spaced : Relaid styles (LaidSpace styles) .root old laid)
    (indented : Relaid styles (fun slot => Moved styles.indents slot.place) .root laid moved) :
    Relaid styles (PlacedSpace styles) .root old moved := by
  have linesSpaced : KeepsLines (LaidSpace styles) := by
    rintro slot old _ rfl
    exact (containsNewline_respace slot _).trans (lineAlike_capped styles.blankLines slot.place old).lines
  have linesNumbered : KeepsLines fun slot => NumberedSpace slot.place := by
    intro slot old new numbered
    exact (lineAlike_of_contents (contents_of_sameSpace numbered.same)).lines
  let carried : Slot -> Space -> Space -> Prop := fun slot old new =>
    Moved styles.indents slot.place (respace slot (cappedSpace styles.blankLines slot.place old)) new
  have carriedAll : Relaid styles carried .root old moved := by
    refine spaced.comp linesSpaced ?_ indented
    rintro slot old _ new rfl moved
    exact moved
  have placed : Relaid styles (PlacedSpace styles) .root tree moved := by
    refine numbered.comp linesNumbered ?_ carriedAll
    intro slot old middle new numbered moved
    have same := contents_of_sameSpace numbered.same
    obtain ⟨_, isGap⟩ := numbered.isGap
    have whole : AreWhole (contents middle) := same ▸ areWhole_of_isGapTo isGap
    have isEmpty (isPrefix : slot.place = .compilationUnitPrefix) : middle.isEmpty = true := by
      have isEmpty := numbered.isEmpty isPrefix
      rw [isEmpty_iff] at isEmpty ⊢
      exact ⟨(congrArg Prod.fst same).trans isEmpty.1, (congrArg Prod.snd same).trans isEmpty.2⟩
    exact ⟨isPlaced_of_moved whole isEmpty moved,
      (lineAlike_of_contents same).trans (lineAlike_of_moved whole isEmpty moved)⟩
  have back : Relaid styles SameContents .root old tree :=
    numbered.symm linesNumbered fun numbered => (contents_of_sameSpace numbered.same).symm
  refine back.comp keepsLines_sameContents ?_ placed
  intro slot old middle new same placed
  exact ⟨placed.isPlaced, (lineAlike_of_contents same).trans placed.alike⟩

/-- The end of a run makes line breaks alike, if the settings ask for that. -/
theorem finished_withAlikeBreaks
    {stripped : Tree}
    (related : Relaid styles (FinishedSpace styles none) .root moved stripped)
    (unit : stripped.IsUnitOf path) :
    Relaid styles (FinishedSpace styles useCrlf) .root moved (withAlikeBreaks useCrlf stripped) ∧
      (withAlikeBreaks useCrlf stripped).IsUnitOf path := by
  cases useCrlf with
  | none => exact ⟨related, unit⟩
  | some useCrlf =>
      refine ⟨related.comp FinishedSpace.lines ?_ (relaid_respaced styles _ unit.isPart),
        isUnitOf_respaced (isSafe_lineBreaks ⟨useCrlf⟩) unit⟩
      rintro slot old _ _ ⟨isPlaced, rfl⟩ rfl
      exact ⟨isPlaced, rfl⟩

/-- A formatting run over a numbered unit goes through these steps. -/
theorem exists_formattingRun
    (settings : FormatterSettings)
    (unit : tree.IsUnitOf path)
    (next : Nat) :
    ∃ laid moved new, Exact.formatSourceUnit (some settings) (tree.settle.run next).1 = .ok new ∧
      FormattingRun (stylesUnder (some settings)) settings.useCrlf path (tree.settle.run next).1 laid moved new := by
  have numbered : Relaid (stylesUnder (some settings)) (fun slot => NumberedSpace slot.place) .root tree
      (tree.settle.run next).1 :=
    numbered_settle unit.isPart (fun _ => unit.isEmpty) next .root
  have settled : Relaid (stylesUnder (some settings)) (fun slot => SameSpace slot.place) .root tree
      (tree.settle.run next).1 :=
    numbered.mono fun _ _ _ numbered => numbered.same
  have unitSettled := settled.isUnitOf isSafe_copied.keeps unit
  generalize (tree.settle.run next).1 = old at numbered unitSettled ⊢
  generalize atStyles : stylesUnder (some settings) = styles at numbered ⊢
  obtain ⟨laid, runsLaid, spaced, isLaid, idsLaid⟩ := exists_laid unitSettled
  obtain ⟨moved, runsMoved, visited, indented, isMoved, idsMoved⟩ := exists_moved isLaid
  have placed := placed_of_numbered numbered spaced indented
  obtain ⟨stripped, runsStripped, related, isStripped⟩ := exists_stripped placed isMoved
  obtain ⟨finished, isNew⟩ := @finished_withAlikeBreaks styles settings.useCrlf _ _ _ related isStripped
  refine ⟨laid, moved, _, formatSourceUnit_of_runPasses (enclosingStyles_of_isUnitOf unitSettled) ?_,
    ⟨spaced, visited, placed, finished, isLaid, isMoved, isNew, idsLaid, idsMoved.trans idsLaid⟩⟩
  rw [atStyles]
  refine (runPasses_append runsLaid).trans ?_
  rw [runPasses, runsMoved]
  exact runsStripped

end Runs

/-! ## Two runs -/

section Again

variable {styles : Styles} {useCrlf : Option Bool} {path : Path}
variable {tree old laid moved new copy laidAgain movedAgain newAgain : Tree}

theorem dialectAmong_of_isUnitOf
    (unit : tree.IsUnitOf path)
    (column? : Option Nat) :
    dialectAmong [(tree, column?)] = .java := by
  rw [dialectAmong, List.map_cons, List.find?_cons, isSource_eq, isUnit_of_isUnitOf unit]
  exact dialect_of_isUnitOf unit

theorem RelaidPiece.exists_space
    {gap : Slot -> Space -> Space -> Prop}
    {place : SpacePlace}
    {space : Space}
    {piece : Piece SpacePlace}
    (related : RelaidPiece gap (.space place space) piece) :
    ∃ slot other, slot.place = place ∧ piece = .space place other ∧ gap slot space other := by
  cases related with
  | space related => exact ⟨_, _, rfl, rfl, related⟩

/-- Pieces whose spaces are finished alike print the same once they are finished. -/
theorem renderAll_eq_of_finishAlike
    {pieces piecesAgain finished finishedAgain : Pieces}
    (alike : RelaidPieces (fun slot => FinishAlike styles useCrlf slot.place) pieces piecesAgain)
    (first : RelaidPieces (FinishedSpace styles useCrlf) pieces finished)
    (second : RelaidPieces (FinishedSpace styles useCrlf) piecesAgain finishedAgain) :
    Piece.renderAll .slash .hidden finishedAgain = Piece.renderAll .slash .hidden finished := by
  induction alike generalizing finished finishedAgain with
  | nil =>
      cases first
      cases second
      rfl
  | cons piece _ ih =>
      cases first with
      | cons pieceFirst first =>
          cases second with
          | cons pieceSecond second =>
              rw [Piece.renderAll_cons, Piece.renderAll_cons, ih first second]
              refine congrArg (· ++ _) ?_
              cases piece with
              | space alike =>
                  obtain ⟨_, _, samePlace, rfl, isFinished⟩ := pieceFirst.exists_space
                  obtain ⟨_, _, samePlaceAgain, rfl, isFinishedAgain⟩ := pieceSecond.exists_space
                  obtain rfl := isFinished.finished
                  obtain rfl := isFinishedAgain.finished
                  rw [samePlace, samePlaceAgain]
                  exact render_eq_of_contents alike
              | token =>
                  cases pieceFirst
                  cases pieceSecond
                  rfl
              | start =>
                  cases pieceFirst with
                  | start => cases pieceSecond with
                    | start => rfl
              | finish =>
                  cases pieceFirst
                  cases pieceSecond
                  rfl

section Runs

variable (run : FormattingRun styles useCrlf path old laid moved new)
variable (again : FormattingRun styles useCrlf path copy laidAgain movedAgain newAgain)
variable (copied : Relaid styles SameContents .root new copy)
variable (canonical : old.IsCanonical)
variable (distinct : old.ids.Nodup)
variable (distinctCopy : copy.ids.Nodup)
variable (onLines : alignsOnLines styles.indents old old = true)

include run again copied canonical distinct distinctCopy onLines

/-- The second run visits an echo of what the first one has indented. -/
theorem FormattingRun.visitedTwice :
    VisitedTwice styles useCrlf [] [] (surroundingsOf styles.indents .root) (surroundingsOf styles.indents .root) moved laid
      moved laidAgain movedAgain := by
  have alike (slot : Slot) (old new : Space) (placed : PlacedSpace styles slot old new) : LineAlike old new := placed.alike
  have distinctMoved : moved.ids.Nodup := run.idsMoved ▸ distinct
  let read : Slot -> Space -> Space -> Prop := fun slot old new =>
    IsPlaced styles slot old ∧ contents new = contents (finishSpace styles.indents useCrlf slot.place old)
  have isRead : Relaid styles read .root moved copy := by
    refine run.finished.comp FinishedSpace.lines ?_ copied
    rintro slot old _ new ⟨isPlaced, rfl⟩ same
    exact ⟨isPlaced, same⟩
  have lines : KeepsLines read := by
    rintro slot old new ⟨isPlaced, same⟩
    exact containsNewline_eq_of_feeds ((congrArg feeds same).trans (feeds_finishSpace isPlaced))
  have echoes : Relaid styles (Echoes styles useCrlf) .root moved laidAgain := by
    refine isRead.comp lines ?_ again.spaced
    rintro slot old _ _ ⟨isPlaced, same⟩ rfl
    exact echoes_of_isPlaced isPlaced same
  exact {
    visited := run.visited
    visitedCopy := again.visited
    echoes := ⟨_, echoes⟩
    agrees := .inl rfl
    canonical := run.isMoved.canonical
    unmarked := run.isMoved.unmarked
    distinct := distinctMoved
    distinctCopy := again.idsLaid ▸ distinctCopy
    nothing := nothingBeforeUnits_of_canonical run.visited.reindented run.isMoved.canonical fun _ => run.isLaid.isEmpty
    isJava := dialectAmong_of_isUnitOf run.isLaid
    isJavaCopy := dialectAmong_of_isUnitOf again.isLaid
    onLines := run.placed.alignsOnLines alike canonical distinct distinctMoved
      (run.placed.frontsAlike alike canonical distinct distinctMoved) onLines
    atUnit := fun _ => rfl
    shares := fun isInner => by
      rw [isUnit_of_isUnitOf run.isMoved] at isInner
      cases isInner }

/-- Both runs print the same. -/
theorem FormattingRun.printTrimmed_eq : newAgain.printTrimmed = new.printTrimmed := by
  have twice := run.visitedTwice again copied canonical distinct distinctCopy onLines
  have alike := (changed_of_visitedTwice twice .root).printed.2
  rw [Tree.printTrimmed, Tree.printTrimmed, dialect_of_isUnitOf run.isNew, dialect_of_isUnitOf again.isNew]
  exact renderAll_eq_of_finishAlike alike run.finished.printed.2 again.finished.printed.2

end Runs

/--
Formatting is idempotent where lists are measured on their lines: of a source that parses, in which every list whose
elements are to stand below the first one goes on in the line that it stands on, formatting what formatting prints
prints it once more, unless a sum overflows.
-/
theorem formatting_isIdempotent
    {source : Text}
    {settings : FormatterSettings}
    (paired : source.hasPairedReturns = true)
    (parsed : parse source path = .ok tree)
    (onLines : alignsOnLines (stylesUnder (some settings)).indents (tree.settle.run 0).1 (tree.settle.run 0).1 = true)
    (fits : overflows (formatSource settings source path) = false) :
    ∃ printed, formatSource settings source path = .ok printed ∧
      (overflows (formatSource settings printed path) = false -> formatSource settings printed path = .ok printed) := by
  obtain ⟨unit, isJava⟩ := isUnitOf_of_parse paired parsed
  obtain ⟨laid, moved, new, runs, run⟩ := exists_formattingRun settings unit 0
  have read : parse new.printTrimmed path = .ok new.renewed := parse_printTrimmed run.isNew isJava
  have renewed : Relaid (stylesUnder (some settings)) (fun slot => SameSpace slot.place) .root new new.renewed :=
    copied_renewed run.isNew.canonical run.isNew.unmarked .root
  have unitCopy : new.renewed.IsUnitOf path := renewed.isUnitOf isSafe_copied.keeps run.isNew
  obtain ⟨laidAgain, movedAgain, newAgain, runsAgain, again⟩ := exists_formattingRun settings unitCopy 0
  have copied : Relaid (stylesUnder (some settings)) SameContents .root new (new.renewed.settle.run 0).1 := by
    refine renewed.comp (fun same => (lineAlike_of_contents (contents_of_sameSpace same)).lines) ?_
      (numbered_settle unitCopy.isPart (fun _ => unitCopy.isEmpty) 0 .root)
    intro slot old middle new same numbered
    exact (contents_of_sameSpace numbered.same).trans (contents_of_sameSpace same)
  have canonical : (tree.settle.run 0).1.IsCanonical := (printTrimmed_settle paired parsed 0).1.canonical
  have distinct := Tree.nodup_ids_settle (Drawing.ids_of_parse parsed) 0
  have distinctCopy := Tree.nodup_ids_settle (Drawing.ids_of_parse read) 0
  refine ⟨new.printTrimmed, (Exact.formatSource_eq fits).trans ?_, fun fits => (Exact.formatSource_eq fits).trans ?_⟩
  · rw [Exact.formatSource, parsed]
    change (do return (<- Exact.formatSourceUnit (some settings) (tree.settle.run 0).1).printTrimmed : Except Error Text) = _
    rw [runs]
    rfl
  · rw [Exact.formatSource, read]
    change (do return (<- Exact.formatSourceUnit (some settings) (new.renewed.settle.run 0).1).printTrimmed :
      Except Error Text) = _
    rw [runsAgain, ← run.printTrimmed_eq again copied canonical distinct distinctCopy onLines]
    rfl

/-- Wrapped parameters, and wrapped arguments of a call in wrapped arguments of another one. -/
def crowdedCalls : Text :=
  "void f(int a,\nint b)\n\x7b\nx=g( h(a,\r\nb),c, // d\n\n\n\ne);\x7d".toList

/-- Formatted with settings that keep one blank line and make line breaks alike, such calls stay. -/
theorem formatting_isIdempotent_of_crowdedCalls :
    crowdedCalls.hasPairedReturns = true ∧
      overflows (formatSource terseSettings crowdedCalls ⟨"A.java".toList⟩) = false ∧
      ∃ tree, parse crowdedCalls ⟨"A.java".toList⟩ = .ok tree ∧
        alignsOnLines (stylesUnder (some terseSettings)).indents (tree.settle.run 0).1 (tree.settle.run 0).1 = true ∧
        ∃ printed, formatSource terseSettings crowdedCalls ⟨"A.java".toList⟩ = .ok printed ∧
          formatSource terseSettings printed ⟨"A.java".toList⟩ = .ok printed := by
  have paired : crowdedCalls.hasPairedReturns = true := by decide +kernel
  have fits : overflows (formatSource terseSettings crowdedCalls ⟨"A.java".toList⟩) = false := by decide +kernel
  have fitsAgain : (formatSource terseSettings crowdedCalls ⟨"A.java".toList⟩).toOption.all (fun printed =>
      !overflows (formatSource terseSettings printed ⟨"A.java".toList⟩)) = true := by
    decide +kernel
  have stays : ((parse crowdedCalls ⟨"A.java".toList⟩).toOption.any fun tree =>
      alignsOnLines (stylesUnder (some terseSettings)).indents (tree.settle.run 0).1 (tree.settle.run 0).1) = true := by
    decide +kernel
  refine ⟨paired, fits, ?_⟩
  generalize parsed : parse crowdedCalls ⟨"A.java".toList⟩ = outcome at stays
  cases outcome with
  | error => cases stays
  | ok tree =>
      obtain ⟨printed, runs, again⟩ := formatting_isIdempotent paired parsed stays fits
      rw [runs] at fitsAgain
      exact ⟨tree, rfl, stays, printed, runs, again (by simpa [Except.toOption] using fitsAgain)⟩

/-- The calls as they are printed. -/
example :
    (formatSource terseSettings crowdedCalls ⟨"A.java".toList⟩).toOption =
      some "void f(int a,\n       int b)\n\x7b\n    x = g(h(a,\n            b), c, // d\n\n          e);\x7d".toList := by
  decide +kernel

/-- Behind a wrapped chain, the column of the first argument is measured before the chain is moved. -/
example :
    let source := "x = a\n  .foo(b,\n    c);".toList
    let printed := "x = a\n        .foo(b,\n       c);".toList
    (formatSource {} source ⟨"A.java".toList⟩).toOption = some printed ∧
      (formatSource {} printed ⟨"A.java".toList⟩).toOption = some "x = a\n        .foo(b,\n             c);".toList := by
  decide +kernel

end Again

end Format
end Lossless
