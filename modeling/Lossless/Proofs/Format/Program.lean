import Lossless.Config.Settings
import Lossless.Proofs.Format.Safe
import Lossless.Proofs.Java.RoundTrip

/-!
# Formatting preserves the program

Every pass of a formatting run lays a unit out anew in a safe way. So the run fails only where a sum does not fit, what it
prints is read back as the tree that it printed, and the tokens and the comments are those of the source.
-/

namespace Lossless

namespace Format

open Java Config

/-- Trees that print as the same tokens and as the same comments, but for blanks and line ends in block comments. -/
structure SameProgram (old new : Tree) : Prop where
  tokens : Piece.tokens (new.pieces .java) = Piece.tokens (old.pieces .java)
  comments : (commentsOf (new.pieces .java)).map contentOf = (commentsOf (old.pieces .java)).map contentOf

section Trees

variable {styles : Styles} {gap : Slot -> Space -> Space -> Prop} {around : Surroundings}
variable {path : Path} {old middle new : Tree}

theorem SameProgram.refl (tree : Tree) : SameProgram tree tree := ⟨rfl, rfl⟩

theorem SameProgram.trans
    (first : SameProgram old middle)
    (second : SameProgram middle new) :
    SameProgram old new :=
  ⟨second.tokens.trans first.tokens, second.comments.trans first.comments⟩

/-- A safe layout prints the same program. -/
theorem Relaid.sameProgram
    (related : Relaid styles gap around old new)
    (safe : IsSafe gap) :
    SameProgram old new :=
  ⟨related.printed.2.tokens_eq, related.printed.2.comments_eq safe.contents⟩

/-- A layout that keeps gaps leaves a unit one that can be read. -/
theorem Relaid.isUnitOf
    (related : Relaid styles gap .root old new)
    (keeps : KeepsGaps gap)
    (unit : old.IsUnitOf path) :
    new.IsUnitOf path := by
  have canonical := related.isCanonical keeps unit.canonical
  obtain ⟨leading, -, unmarked, form⟩ := relaid_iff.1 related
  obtain ⟨⟨statements, eof, isUnit⟩, isEmpty, -, -⟩ := unit
  rw [isUnit] at leading form
  refine ⟨?_, keeps.stays leading nofun nofun isEmpty, unmarked, canonical⟩
  generalize new.form = newForm at form
  cases form with
  | compilationUnit => exact ⟨_, _, rfl⟩

end Trees

/-! ## Passes -/

/-- Such a pass never fails on a unit that can be read, and lays it out anew in a safe way. -/
def Pass.IsSafe
    (path : Path)
    (pass : Pass) : Prop :=
  forall tree : Tree, tree.IsUnitOf path -> exists new styles gap,
    pass.run none .root tree = .ok (some new) ∧ Format.IsSafe gap ∧ Relaid styles gap .root tree new

section Passes

variable {path : Path}

/-- A safe pass leaves a unit that can be read. -/
theorem Pass.IsSafe.isUnitOf
    {pass : Pass}
    {tree new : Tree}
    (safe : pass.IsSafe path)
    (unit : tree.IsUnitOf path)
    (runs : pass.run none .root tree = .ok (some new)) :
    new.IsUnitOf path := by
  obtain ⟨_, _, _, other, isSafe, related⟩ := safe tree unit
  cases runs.symm.trans other
  exact related.isUnitOf isSafe.keeps unit

/-- A pass over spaces is safe when it recasts those inside a unit, and keeps those around it. -/
theorem isSafe_ofSpaces
    {change : SpacePlace -> Space -> Space}
    (inner : forall place space, SpacePlace.IsInner place -> Recast space (change place space))
    (outer : forall place space, SpaceKept space (change place space)) :
    (Exact.ofSpaces change).IsSafe path := by
  intro tree unit
  obtain ⟨new, runs, changed⟩ := ofSpaces_changes {} change unit.isPart
  let gap : SpacePlace -> Space -> Space -> Prop := fun place old new => new = change place old
  have safe : IsSafe fun slot => gap slot.place := by
    refine isSafe_of_places ?_ ?_
    · rintro place old _ rfl
      exact inner place old
    · rintro place old _ rfl
      exact outer place old
  exact ⟨new, {}, _, runs, safe, changed .root⟩

/-- A pass over spaces is safe when it recasts them all. -/
theorem isSafe_ofSpaces_of_recast
    {change : SpacePlace -> Space -> Space}
    (recast : forall place space, Recast space (change place space)) :
    (Exact.ofSpaces change).IsSafe path :=
  isSafe_ofSpaces (fun place space _ => recast place space) fun place space => (recast place space).kept_of_recast

theorem isSafe_normalizeFormat : normalizeFormat.IsSafe path := by
  intro tree unit
  obtain ⟨new, runs, changed⟩ := normalizeFormat_changes {} unit.isPart
  let gap : SpacePlace -> Space -> Space -> Prop := fun _ old new => new = old
  have safe : IsSafe fun slot => gap slot.place := by
    refine isSafe_of_recast ?_
    rintro place old _ rfl
    exact recast_refl _
  exact ⟨new, {}, _, runs, safe, changed .root⟩

theorem isSafe_spaces (style : SpacingStyle) : (spaces style).IsSafe path := by
  intro tree unit
  have isUnit : tree.form.isUnit = true := by
    obtain ⟨statements, eof, form⟩ := unit.isUnit
    rw [form]
    rfl
  obtain ⟨new, runs, related⟩ := spaces_relays { spacing := style } unit.isPart isUnit
  exact ⟨new, _, _, runs, isSafe_respaced, related⟩

theorem isSafe_tabsAndIndents (style : IndentStyle) : (Exact.tabsAndIndents style).IsSafe path := by
  intro tree unit
  obtain ⟨new, runs, changed⟩ := tabsAndIndents_changes {} style unit.isPart
  exact ⟨new, {}, _, runs, isSafe_moved style, changed .root⟩

theorem isSafe_blankLines (style : BlankLineStyle) : (Exact.blankLines style).IsSafe path :=
  isSafe_ofSpaces_of_recast fun _ old =>
    recast_mapWhitespace (keepMaximumBreaks_kept (Nat.succ_pos _)) (keepMaximumBreaks_sameShape (Nat.succ_pos _)) old

theorem isSafe_tabsOrSpaces (style : IndentStyle) : (Exact.tabsOrSpaces style).IsSafe path := by
  refine isSafe_ofSpaces_of_recast fun place old => ?_
  exact recast_mapWhitespace (retab_kept style) (retab_sameShape style) old

theorem isSafe_trailingWhitespace : trailingWhitespace.IsSafe path := by
  refine isSafe_ofSpaces (fun place old isInner => ?_) fun place old => ?_
  · rw [stripSpace, if_neg (by simp [isInner.1]), if_neg isInner.2]
    exact recast_mapWhitespace stripTrailing_kept stripTrailing_sameShape old
  · unfold stripSpace
    split
    · next first =>
        rw [Bool.and_eq_true, decide_eq_true_eq, decide_eq_true_eq] at first
        exact kept_empty first.2
    · split
      · exact (mapWhitespace_rewrites (fun text => onlyLineBreaks_kept) bodyRecast_refl old).spaceKept
      · exact (recast_mapWhitespace stripTrailing_kept stripTrailing_sameShape old).kept_of_recast

theorem isSafe_lineBreaks (style : LineBreakStyle) : (lineBreaks style).IsSafe path := by
  refine isSafe_ofSpaces_of_recast fun place old => ?_
  exact recast_normalizeLineBreaks style.useCrlf old

/-- Every pass of a formatting run is safe. -/
theorem isSafe_of_mem_passes
    {styles : Styles}
    {pass : Pass}
    (member : pass ∈ Exact.passes styles) :
    pass.IsSafe path := by
  simp only [Exact.passes, List.mem_append, List.mem_cons, List.not_mem_nil, or_false] at member
  rcases member with (rfl | rfl | rfl | rfl | rfl) | last
  · exact isSafe_normalizeFormat
  · exact isSafe_blankLines _
  · exact isSafe_spaces _
  · exact isSafe_tabsAndIndents _
  · exact isSafe_tabsOrSpaces _
  · split at last
    · cases last
    · obtain rfl := List.mem_singleton.1 last
      exact isSafe_trailingWhitespace

/-- A unit that can be read, with the program of another one. -/
structure Preserved
    (path : Path)
    (old new : Tree) : Prop where
  unit : new.IsUnitOf path
  program : SameProgram old new

theorem Preserved.pass
    {pass : Pass}
    {old middle : Tree}
    (safe : pass.IsSafe path)
    (preserved : Preserved path old middle) :
    exists new, pass.run none .root middle = .ok (some new) ∧ Preserved path old new := by
  obtain ⟨new, styles, gap, runs, safe, related⟩ := safe middle preserved.unit
  exact ⟨new, runs, related.isUnitOf safe.keeps preserved.unit, preserved.program.trans (related.sameProgram safe)⟩

/-- Safe passes one after the other. -/
theorem Preserved.runPasses
    {passes : List Pass}
    {old middle : Tree}
    (safe : forall pass, pass ∈ passes -> pass.IsSafe path)
    (preserved : Preserved path old middle) :
    exists new, runPasses none .root passes middle = .ok new ∧ Preserved path old new := by
  induction passes generalizing middle with
  | nil => exact ⟨middle, rfl, preserved⟩
  | cons pass rest ih =>
      obtain ⟨here, later⟩ := List.forall_mem_cons.1 safe
      obtain ⟨next, runs, preservedNext⟩ := preserved.pass here
      obtain ⟨new, finished, preservedNew⟩ := ih later preservedNext
      refine ⟨new, ?_, preservedNew⟩
      rw [Format.runPasses, runs]
      exact finished

end Passes

/-! ## Runs -/

section Runs

variable {settings : Option FormatterSettings} {path : Path} {old tree : Tree}

/-- The styles that settings give a unit without styles of its own. -/
def stylesUnder (settings : Option FormatterSettings) : Styles :=
  (settings.map fun present => present.applyTo {}).getD {}

/-- A tree without markers has no styles of its own. -/
theorem enclosingStyles_of_unmarked (unmarked : tree.markers.toList = []) : enclosingStyles .root tree = {} := by
  have unstyled : stylesOf tree = {} := by
    unfold stylesOf
    split
    · rw [Markers.findAll, unmarked]
      rfl
    · rfl
  unfold enclosingStyles
  split
  · exact unstyled
  · rfl

theorem enclosingStyles_of_isUnitOf (unit : tree.IsUnitOf path) : enclosingStyles .root tree = {} :=
  enclosingStyles_of_unmarked unit.unmarked

theorem Preserved.formatSourceUnit
    (settings : Option FormatterSettings)
    (preserved : Preserved path old tree) :
    exists formatted, Exact.formatSourceUnit settings tree = .ok formatted ∧ Preserved path old formatted := by
  obtain ⟨middle, runs, kept⟩ := preserved.runPasses fun pass member => isSafe_of_mem_passes member
  have formats : Exact.formatWith settings none .root tree = .ok middle := by
    rw [Exact.formatWith, Exact.autoFormat, enclosingStyles_of_isUnitOf preserved.unit]
    exact runs
  unfold Exact.formatSourceUnit
  rw [formats]
  cases breaks : settings.bind fun settings => settings.useCrlf with
  | none => exact ⟨middle, rfl, kept⟩
  | some useCrlf =>
      obtain ⟨formatted, alike, keptNew⟩ := kept.pass (isSafe_lineBreaks ⟨useCrlf⟩)
      refine ⟨formatted, ?_, keptNew⟩
      change (do return (<- (lineBreaks ⟨useCrlf⟩).run none .root middle).getD middle : Except Error Tree) = _
      rw [alike]
      rfl

/--
Unless a sum overflows, formatting a source that parses does not fail, and what it prints is read back as the formatted
tree made anew, with the tokens and the comments of the source.
-/
theorem formatting_preservesProgram
    {source : Text}
    {path : Path}
    {tree : Tree}
    {settings : Option FormatterSettings}
    (paired : source.hasPairedReturns = true)
    (parsed : parse source path = .ok tree)
    (next : Nat)
    (fits : overflows (formatSourceUnit settings (tree.settle.run next).1) = false) :
    exists formatted, formatSourceUnit settings (tree.settle.run next).1 = .ok formatted ∧
      parse formatted.printTrimmed path = .ok formatted.renewed ∧
      SameProgram tree formatted ∧ SameProgram tree formatted.renewed := by
  obtain ⟨unit, isJava⟩ := isUnitOf_of_parse paired parsed
  have settled : Relaid {} (fun slot => SameSpace slot.place) .root tree (tree.settle.run next).1 :=
    (numbered_settle unit.isPart (fun _ => unit.isEmpty) next .root).mono fun _ _ _ numbered => numbered.same
  have preserved : Preserved path tree (tree.settle.run next).1 :=
    ⟨settled.isUnitOf isSafe_copied.keeps unit, settled.sameProgram isSafe_copied⟩
  obtain ⟨formatted, runs, unitNew, program⟩ := preserved.formatSourceUnit settings
  have copied : Relaid {} (fun slot => SameSpace slot.place) .root formatted formatted.renewed :=
    copied_renewed unitNew.canonical unitNew.unmarked .root
  exact ⟨formatted, (Exact.formatSourceUnit_eq fits).trans runs, parse_printTrimmed unitNew isJava, program,
    program.trans (copied.sameProgram isSafe_copied)⟩

/-- Settings that keep one blank line and make the line breaks alike. -/
def terseSettings : FormatterSettings :=
  { keepMaximumBlankLines := some 1, useCrlf := some false }

/-- Two statements on a line with a comment, formatted with such settings. -/
theorem formatting_preservesProgram_of_statements :
    Text.hasPairedReturns "a=b;// c\r\nx=f( a ,b);".toList = true ∧
      exists tree formatted, parse "a=b;// c\r\nx=f( a ,b);".toList ⟨"A.java".toList⟩ = .ok tree ∧
        formatSourceUnit (some terseSettings) (tree.settle.run 0).1 = .ok formatted ∧
        parse formatted.printTrimmed ⟨"A.java".toList⟩ = .ok formatted.renewed ∧ SameProgram tree formatted := by
  have paired : Text.hasPairedReturns "a=b;// c\r\nx=f( a ,b);".toList = true := by decide +kernel
  have fits : (parse "a=b;// c\r\nx=f( a ,b);".toList ⟨"A.java".toList⟩).toOption.any (fun tree =>
      !overflows (formatSourceUnit (some terseSettings) (tree.settle.run 0).1)) = true := by
    decide +kernel
  refine ⟨paired, ?_⟩
  generalize parsed : parse "a=b;// c\r\nx=f( a ,b);".toList ⟨"A.java".toList⟩ = outcome at fits
  cases outcome with
  | error => cases fits
  | ok tree =>
      obtain ⟨formatted, runs, printed, program, -⟩ :=
        formatting_preservesProgram paired parsed 0 (by simpa [Except.toOption] using fits)
      exact ⟨tree, formatted, rfl, runs, printed, program⟩

end Runs

end Format
end Lossless
