import Lossless.Command.Configuration
import Lossless.Command.Format
import Lossless.Proofs.Format.LineBreaks
import Lossless.Proofs.Format.TrailingBlanks

/-!
# Resolved configurations

A resolved configuration spells every setting out, and so gives the styles of the original one. What a run makes of a
source depends on these styles, and on whether the settings ask for line breaks. A resolved configuration always asks
for them. So it formats like the original one with the line breaks of its styles, and where the original one leaves line
breaks alone, it makes a difference to sources with carriage returns.
-/

namespace Lossless

/-! ## Styles -/

/-- Fields that share a setting have the same value. -/
structure Styles.IsSettable (styles : Styles) : Prop where
  blankLines : styles.blankLines.beforeEndOfBlock = styles.blankLines.inCode
  emptyDeclaration : styles.spacing.within.emptyDeclaration = styles.spacing.within.declaration
  emptyCall : styles.spacing.within.emptyCall = styles.spacing.within.call

/-- The fields that no setting decides are the same. -/
structure Styles.SameFixed (styles other : Styles) : Prop where
  conditional : styles.spacing.beforeParentheses.conditional = other.spacing.beforeParentheses.conditional
  beforeColon : styles.spacing.punctuation.beforeColon = other.spacing.punctuation.beforeColon
  beforeLeftBrace : styles.spacing.punctuation.beforeLeftBrace = other.spacing.punctuation.beforeLeftBrace

namespace Config
namespace FormatterSettings

variable {styles base : Styles}

/-- Settings that are spelled out give back the styles that they are taken from, if any settings give these styles. -/
theorem applyTo_ofStyles_iff :
    (ofStyles styles).applyTo base = styles ↔ styles.IsSettable ∧ styles.SameFixed base := by
  constructor
  · intro same
    have blankLines := congrArg Styles.blankLines same
    have within := congrArg (SpacingStyle.within ∘ Styles.spacing) same
    have before := congrArg (SpacingStyle.beforeParentheses ∘ Styles.spacing) same
    have punctuation := congrArg (SpacingStyle.punctuation ∘ Styles.spacing) same
    exact ⟨⟨(congrArg BlankLineStyle.beforeEndOfBlock blankLines).symm,
        (congrArg WithinDelimiters.emptyDeclaration within).symm, (congrArg WithinDelimiters.emptyCall within).symm⟩,
      ⟨(congrArg BeforeParentheses.conditional before).symm, (congrArg BesidePunctuation.beforeColon punctuation).symm,
        (congrArg BesidePunctuation.beforeLeftBrace punctuation).symm⟩⟩
  · rintro ⟨⟨blankLines, emptyDeclaration, emptyCall⟩, ⟨conditional, beforeColon, beforeLeftBrace⟩⟩
    simp only [ofStyles, applyTo, SpacingSettings.ofStyle, SpacingSettings.applyTo, Option.getD_some, ← conditional,
      ← beforeColon, ← beforeLeftBrace]
    obtain ⟨_, ⟨_, _, ⟨_, _, _, _, _⟩, _⟩, ⟨_, _⟩, _⟩ := styles
    cases blankLines
    cases emptyDeclaration
    cases emptyCall
    rfl

theorem isSettable_applyTo
    (settings : FormatterSettings)
    (settable : base.IsSettable) :
    (settings.applyTo base).IsSettable := by
  obtain ⟨blankLines, emptyDeclaration, emptyCall⟩ := settable
  refine ⟨?_, ?_, ?_⟩
  · simp [applyTo, blankLines]
  · cases spacing : settings.spacing <;> simp [applyTo, spacing, SpacingSettings.applyTo, emptyDeclaration]
  · cases spacing : settings.spacing <;> simp [applyTo, spacing, SpacingSettings.applyTo, emptyCall]

theorem sameFixed_applyTo (settings : FormatterSettings) : (settings.applyTo base).SameFixed base := by
  unfold applyTo
  cases settings.spacing <;> exact ⟨rfl, rfl, rfl⟩

/-- Laid over styles, settings do what they do when all of them are spelled out. -/
theorem applyTo_ofStyles_applyTo
    (settings : FormatterSettings)
    (settable : base.IsSettable) :
    (ofStyles (settings.applyTo base)).applyTo base = settings.applyTo base :=
  applyTo_ofStyles_iff.2 ⟨isSettable_applyTo settings settable, sameFixed_applyTo settings⟩

/-- Settings that are spelled out stay so when it is done again. -/
theorem ofStyles_applyTo_ofStyles (styles base : Styles) : ofStyles ((ofStyles styles).applyTo base) = ofStyles styles :=
  rfl

theorem isSettable_default : Styles.IsSettable {} := ⟨rfl, rfl, rfl⟩

/-- The settings, which ask for the line breaks of their styles. -/
def withBreaks (settings : FormatterSettings) : FormatterSettings :=
  { settings with useCrlf := some (settings.applyTo {}).lineBreaks.useCrlf }

theorem applyTo_withBreaks (settings : FormatterSettings) : settings.withBreaks.applyTo {} = settings.applyTo {} := rfl

theorem withBreaks_eq_self
    {settings : FormatterSettings}
    (asks : settings.useCrlf ≠ none) :
    settings.withBreaks = settings := by
  obtain ⟨useCrlf, isSet⟩ := Option.ne_none_iff_exists'.1 asks
  rw [withBreaks, applyTo, isSet, Option.getD_some, ← isSet]

end FormatterSettings
end Config

/-! ## Formatting -/

namespace Format

open Java Config FormatterSettings

section Sources

variable {settings other : FormatterSettings} {source : Text} {path : Path} {tree : Tree}

/-- The numbered unit of a source has no markers, and so no styles of its own. -/
theorem enclosingStyles_of_parse
    (parsed : parse source path = .ok tree)
    (next : Nat) :
    enclosingStyles .root (tree.settle.run next).1 = {} := by
  refine enclosingStyles_of_unmarked ?_
  obtain ⟨statements, eof, rfl⟩ := build_of_parse parsed
  rw [Tree.build, Tree.settle_node]
  rfl

theorem bind_eq_bind_of_ok
    {ε α β : Type}
    {outcome : Except ε α}
    {first second : α -> Except ε β}
    (same : forall value, outcome = .ok value -> first value = second value) :
    outcome >>= first = outcome >>= second := by
  cases outcome with
  | error => rfl
  | ok value => exact same value rfl

/-- A run makes of a source what the styles say, and what is said about line breaks. -/
theorem formatSource_congr
    (styles : settings.applyTo {} = other.applyTo {})
    (breaks : settings.useCrlf = other.useCrlf)
    (source : Text)
    (path : Path) :
    formatSource settings source path = formatSource other source path := by
  refine bind_eq_bind_of_ok fun tree parsed => ?_
  have formats : formatWith (some settings) none .root (tree.settle.run 0).1 =
      formatWith (some other) none .root (tree.settle.run 0).1 := by
    rw [formatWith, formatWith, autoFormat, autoFormat, enclosingStyles_of_parse parsed]
    exact congrArg (fun styles => runPasses none .root (passes styles) (tree.settle.run 0).1) styles
  have unit : formatSourceUnit (some settings) (tree.settle.run 0).1 =
      formatSourceUnit (some other) (tree.settle.run 0).1 := by
    rw [formatSourceUnit, formatSourceUnit, formats, Option.bind_some, Option.bind_some, breaks]
  rw [unit]

end Sources

/-! ## Sources without carriage returns -/

section Returns

variable {test : Char -> Bool} {space : Space} {source : Text} {path : Path} {tree : Tree}

theorem allTexts_of_render
    {delimiters : CommentDelimiters}
    (all : (space.render delimiters).all test = true) :
    space.AllTexts (fun text => text.all test = true) := by
  have mem := List.all_eq_true.1 all
  refine ⟨List.all_eq_true.2 fun char inside => mem char (List.mem_append_left _ inside), fun comment member => ?_⟩
  have atComment (char : Char) (inside : char ∈ comment.render delimiters ++ comment.suffix) : test char = true :=
    mem char (List.mem_append_right _ (List.mem_flatMap.2 ⟨comment, member, inside⟩))
  have rendered (char : Char) (inside : char ∈ comment.text) : char ∈ comment.render delimiters := by
    unfold Comment.render
    split <;> simp [inside]
  exact ⟨List.all_eq_true.2 fun char inside => atComment char (List.mem_append_left _ (rendered char inside)),
    List.all_eq_true.2 fun char inside => atComment char (List.mem_append_right _ inside)⟩

/-- The characters in the gaps of a tree are printed with it. -/
theorem allTexts_of_printTrimmed (all : tree.printTrimmed.all test = true) :
    forall gap, gap ∈ Piece.spaces (tree.pieces tree.dialect) ->
      gap.2.AllTexts (fun text => text.all test = true) := by
  intro gap member
  have rendered : (gap.2.render tree.dialect.delimiters).all test = true :=
    List.all_eq_true.2 fun char inside =>
      List.all_eq_true.1 all char (List.mem_flatMap.2 ⟨_, Piece.mem_spaces_iff.1 member, inside⟩)
  exact allTexts_of_render rendered

/-- Line breaks without returns stay as they are when they are made line feeds. -/
theorem normalizeLineBreaks_of_noReturn (all : space.AllTexts (fun text => text.all isNoReturn = true)) :
    normalizeLineBreaks false space = space := by
  refine (normalizeLineBreaks_eq_self_iff false space).2 fun text member => (replace_eq_self_iff text).2 fun found => ?_
  have noReturn : text.all isNoReturn = true := by
    rcases List.mem_cons.1 member with rfl | inComment
    · exact all.1
    · obtain ⟨comment, isComment, inside⟩ := List.mem_flatMap.1 inComment
      rcases List.mem_cons.1 inside with rfl | isText
      · exact (all.2 comment isComment).2
      · split at isText
        · rw [List.mem_singleton.1 isText]
          exact (all.2 comment isComment).1
        · cases isText
  cases List.all_eq_true.1 noReturn '\r' (found.subset List.mem_cons_self)

/-- Gaps that a change leaves as they are. -/
theorem isGapRelation_stays (change : SpacePlace -> Space -> Space) :
    IsGapRelation fun old new => (forall gap, gap ∈ old -> change gap.1 gap.2 = gap.2) -> new = old where
  refl := fun _ _ => rfl
  trans := fun first second stay => by
    obtain rfl := first stay
    exact second stay
  append := fun first second stay => by
    obtain ⟨here, more⟩ := List.forall_mem_append.1 stay
    rw [first here, second more]

/-- A tree whose gaps stay as they are is printed as before. -/
theorem printTrimmed_respaced_of_stay
    {change : SpacePlace -> Space -> Space}
    (stay : forall gap, gap ∈ Piece.spaces (tree.pieces tree.dialect) -> change gap.1 gap.2 = gap.2) :
    (respaced (gapsOf change) tree).printTrimmed = tree.printTrimmed := by
  have each (place : SpacePlace) (space : Space) :
      GapOf (fun old new => (forall gap, gap ∈ old -> change gap.1 gap.2 = gap.2) -> new = old) place space
        (change place space) :=
    fun stay => by rw [stay (place, space) List.mem_cons_self]
  have regapped := regapped_respaced (isGapRelation_stays change) each tree
  exact Tree.printTrimmed_eq_of_bare regapped.bare (regapped.gaps tree.dialect stay)

/-- Where a tree is printed without returns, the passes leave no line breaks to make line feeds. -/
theorem runPasses_of_noReturn
    {styles : Styles}
    {formatted : Tree}
    (noReturn : tree.printTrimmed.all isNoReturn = true)
    (runs : runPasses none .root (passes styles) tree = .ok formatted) :
    (respaced (gapsOf fun _ => normalizeLineBreaks false) formatted).printTrimmed = formatted.printTrimmed := by
  have invariant : IsTextInvariant styles.indents (fun text => text.all isNoReturn = true) :=
    isTextInvariant_all rfl fun char indents => bne_iff_ne.2 fun isReturn => by
      rw [isReturn] at indents
      cases indents
  have runsExact := (Exact.runPasses_eq (Exact.passes_refine styles) (by rw [runs]; rfl)).symm.trans runs
  obtain ⟨_, runsAlike, regapped⟩ := runPasses_regap (isGapRelation_keepsAll _)
    (fun pass (member : pass ∈ Exact.passes styles) => invariant.passes_regap member) none .root tree
  cases runsExact.symm.trans runsAlike
  have dialect : formatted.dialect = tree.dialect := by
    rw [← Tree.dialect_bare, regapped.bare, Tree.dialect_bare]
  have gaps := regapped.gaps tree.dialect (allTexts_of_printTrimmed noReturn)
  exact printTrimmed_respaced_of_stay fun gap member =>
    normalizeLineBreaks_of_noReturn (gaps gap (dialect ▸ member))

theorem formatSource_of_noReturn
    {settings : FormatterSettings}
    (unset : settings.useCrlf = none)
    (noReturn : '\r' ∉ source) :
    formatSource settings.withBreaks source path = formatSource settings source path := by
  have noReturns : source.all isNoReturn = true :=
    List.all_eq_true.2 fun char member => bne_iff_ne.2 fun isReturn => noReturn (isReturn ▸ member)
  have breaks : settings.withBreaks.useCrlf = some false := by
    rw [withBreaks, applyTo, unset]
    rfl
  refine bind_eq_bind_of_ok fun tree parsed => ?_
  obtain ⟨-, printed⟩ := printTrimmed_settle (Text.hasPairedReturns_of_notMem noReturn) parsed 0
  -- The passes do not read the line breaks of the styles.
  have samePasses : formatWith (some settings.withBreaks) none .root (tree.settle.run 0).1 =
      formatWith (some settings) none .root (tree.settle.run 0).1 := rfl
  rw [formatSourceUnit, formatSourceUnit, samePasses, bind_assoc, bind_assoc]
  refine bind_eq_bind_of_ok fun formatted runs => ?_
  have alike := runPasses_of_noReturn (printed.symm ▸ noReturns) runs
  have runsBreaks : (lineBreaks ⟨false⟩).run none .root formatted =
      .ok (some (respaced (gapsOf fun _ => normalizeLineBreaks false) formatted)) := ofSpaces_run ..
  rw [Option.bind_some, Option.bind_some, unset, breaks]
  dsimp only
  rw [runsBreaks]
  exact congrArg Except.ok alike

end Returns

/-! ## Resolved settings -/

/-- Settings that are spelled out ask for line breaks, and else format as before. -/
theorem formatSource_ofStyles
    (settings : FormatterSettings)
    (source : Text)
    (path : Path) :
    formatSource (.ofStyles (settings.applyTo {})) source path = formatSource settings.withBreaks source path := by
  have styles : (ofStyles (settings.applyTo {})).applyTo {} = settings.withBreaks.applyTo {} := by
    rw [applyTo_ofStyles_applyTo settings isSettable_default, applyTo_withBreaks]
  have breaks : (ofStyles (settings.applyTo {})).useCrlf = settings.withBreaks.useCrlf := rfl
  exact formatSource_congr styles breaks source path

end Format

namespace Command

open Config Format FormatterSettings

theorem resolved_resolved (configuration : Configuration) : resolved (resolved configuration) = resolved configuration :=
  congrArg (fun settings => { configuration with formatter := some settings }) (ofStyles_applyTo_ofStyles _ _)

/-- Options of the command line change the same settings before and after the configuration is resolved. -/
theorem settings_resolved
    (options : FormatOptions)
    (configuration : Configuration) :
    options.settings (resolved configuration) = .ofStyles ((options.settings configuration).applyTo {}) := by
  cases size : options.indentSize <;> cases tabs : options.usesTabs <;>
    simp [FormatOptions.settings, size, tabs] <;> rfl

/--
A resolved configuration gives the styles of the original one, and resolving it again makes no difference. Under any
options of the command line it formats every source as the original one would, did that one ask for the line breaks of
its styles. So it formats like the original one if that one asks for line breaks, and it always does on a source without
carriage returns.
-/
theorem resolvedConfiguration_isEquivalent (configuration : Configuration) :
    (FormatterSettings.ofStyles (configuration.formatterSettings.applyTo {})).applyTo {} =
        configuration.formatterSettings.applyTo {} ∧
      resolved (resolved configuration) = resolved configuration ∧
      forall (options : FormatOptions) (source : Text) (path : Path),
        formatSource (options.settings (resolved configuration)) source path =
            formatSource (options.settings configuration).withBreaks source path ∧
          (configuration.formatterSettings.useCrlf ≠ none ∨ '\r' ∉ source ->
            formatSource (options.settings (resolved configuration)) source path =
              formatSource (options.settings configuration) source path) := by
  refine ⟨applyTo_ofStyles_applyTo _ isSettable_default, resolved_resolved _, fun options source path => ?_⟩
  have spelled : formatSource (options.settings (resolved configuration)) source path =
      formatSource (options.settings configuration).withBreaks source path := by
    rw [settings_resolved, formatSource_ofStyles]
  refine ⟨spelled, fun alike => spelled.trans ?_⟩
  by_cases unset : (options.settings configuration).useCrlf = none
  · exact formatSource_of_noReturn unset (alike.resolve_left fun asks => asks unset)
  · rw [withBreaks_eq_self unset]

/-- Two statements on lines of their own, formatted without any settings and with all of them spelled out. -/
theorem resolvedConfiguration_isEquivalent_withoutReturns :
    '\r' ∉ "a=1;\nb;".toList ∧
      formatSource (({} : FormatOptions).settings (resolved {})) "a=1;\nb;".toList ⟨"A.java".toList⟩ =
        formatSource (({} : FormatOptions).settings {}) "a=1;\nb;".toList ⟨"A.java".toList⟩ :=
  have noReturn : '\r' ∉ "a=1;\nb;".toList := by decide
  ⟨noReturn, ((resolvedConfiguration_isEquivalent {}).2.2 {} _ _).2 (.inr noReturn)⟩

/-- Without settings a carriage return is left alone, and with all of them spelled out it is lost. -/
theorem resolvedConfiguration_rewritesReturns :
    (formatSource (({} : FormatOptions).settings {}) "a;\r\nb;".toList ⟨"A.java".toList⟩).toOption =
        some "a;\r\nb;".toList ∧
      (formatSource (({} : FormatOptions).settings (resolved {})) "a;\r\nb;".toList ⟨"A.java".toList⟩).toOption =
        some "a;\nb;".toList ∧
      ¬ forall (configuration : Configuration) (source : Text) (path : Path),
        formatSource (({} : FormatOptions).settings (resolved configuration)) source path =
          formatSource (({} : FormatOptions).settings configuration) source path := by
  have kept : (formatSource (({} : FormatOptions).settings {}) "a;\r\nb;".toList ⟨"A.java".toList⟩).toOption =
      some "a;\r\nb;".toList := by decide +kernel
  have lost :
      (formatSource (({} : FormatOptions).settings (resolved {})) "a;\r\nb;".toList ⟨"A.java".toList⟩).toOption =
        some "a;\nb;".toList := by decide +kernel
  refine ⟨kept, lost, fun alike => ?_⟩
  rw [alike, kept] at lost
  revert lost
  decide

end Command
end Lossless
