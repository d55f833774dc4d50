import Lossless.Proofs.Format.Feeds
import Lossless.Proofs.Format.Remade
import Lossless.Proofs.Java.Between

/-!
# No blanks at the ends of lines

After formatting, no line has a blank before its line break, but for lines that end inside a comment or inside the text of
an unknown node. Two spaces that have been stripped could still put a blank before a line break, if they were printed side
by side. In a unit that can be read this does not happen: no more than one space between two tokens is not empty.
-/

namespace Lossless

/-! ## Glyphs -/

/-- A character of a printed text, and whether formatting keeps it: those of comments and of unknown nodes are kept. -/
abbrev Glyph := Char × Bool

/-- The characters of a text, all of them kept or none. -/
def Text.glyphs
    (isKept : Bool)
    (text : Text) : List Glyph :=
  text.map fun char => (char, isKept)

/-- The characters of a space as it is written. -/
def Space.glyphs
    (delimiters : CommentDelimiters)
    (space : Space) : List Glyph :=
  Text.glyphs false space.whitespace ++ space.comments.flatMap fun comment =>
    Text.glyphs true (comment.render delimiters) ++ Text.glyphs false comment.suffix

/-- The whitespace of a space: what it starts with, and what stands behind each comment. -/
def Space.whitespaces (space : Space) : List Text :=
  space.whitespace :: space.comments.map Comment.suffix

namespace Java

/-- The characters of pieces as they are printed. The token behind the space before an unknown node is its text. -/
def Pieces.glyphs (delimiters : CommentDelimiters) : Bool -> Pieces -> List Glyph
  | _, [] => []
  | _, .space place content :: rest => content.glyphs delimiters ++ glyphs delimiters (place = .unknownPrefix) rest
  | isUnknown, .token text :: rest => Text.glyphs isUnknown text ++ glyphs delimiters false rest
  | isUnknown, .start _ _ :: rest => glyphs delimiters isUnknown rest
  | _, .finish _ :: rest => glyphs delimiters false rest

/-- The characters of a tree as it is printed without its markers. -/
def Tree.glyphs (tree : Tree) : List Glyph :=
  Pieces.glyphs tree.dialect.delimiters false (tree.pieces tree.dialect)

end Java

section Glyphs

variable {delimiters : CommentDelimiters}

@[simp] theorem Text.map_glyphs
    (isKept : Bool)
    (text : Text) :
    (Text.glyphs isKept text).map Prod.fst = text := by
  simp [Text.glyphs, Function.comp_def]

theorem Space.map_glyphs (space : Space) : (space.glyphs delimiters).map Prod.fst = space.render delimiters := by
  simp [Space.glyphs, Space.render, List.map_flatMap]

theorem Java.Pieces.map_glyphs
    (isUnknown : Bool)
    (pieces : Pieces) :
    (Pieces.glyphs delimiters isUnknown pieces).map Prod.fst = Piece.renderAll delimiters .hidden pieces := by
  induction pieces generalizing isUnknown with
  | nil => rfl
  | cons first rest ih =>
      cases first <;>
        simp [Pieces.glyphs, Piece.renderAll_cons, Piece.render, Markers.render, Space.map_glyphs, ih]

/-- The characters are those of the printed text. -/
theorem Java.Tree.map_glyphs (tree : Tree) : tree.glyphs.map Prod.fst = tree.printTrimmed :=
  Pieces.map_glyphs false _

end Glyphs

namespace Format

open Text

/--
No blank stands before a line break, unless one of the two is kept. A line break is a line feed with the returns
before it.
-/
def HasCleanEnds (glyphs : List Glyph) : Prop :=
  forall front blank returns rest,
    glyphs = front ++ (blank, false) :: (List.replicate returns ('\r', false) ++ ('\n', false) :: rest) ->
      isBlank blank = true -> isBreak blank = true

/-! ## Reading glyphs -/

/--
Read characters one after the other. What is kept in mind is whether the last one, returns aside, is a blank that is not
kept. Nothing comes of a line feed behind such a blank.
-/
def blankBehind? : Bool -> List Glyph -> Option Bool
  | isBlank, [] => some isBlank
  | _, (_, true) :: rest => blankBehind? false rest
  | isBlank, (char, false) :: rest =>
      if char = '\r' then blankBehind? isBlank rest
      else if char = '\n' then if isBlank then none else blankBehind? false rest
      else blankBehind? (Text.isBlank char) rest

section Reading

variable {isBlank : Bool} {text : Text}

theorem blankBehind?_append
    (isBlank : Bool)
    (front rest : List Glyph) :
    blankBehind? isBlank (front ++ rest) = (blankBehind? isBlank front).bind fun isBlank => blankBehind? isBlank rest := by
  induction front generalizing isBlank with
  | nil => rfl
  | cons first front ih =>
      obtain ⟨char, isKept⟩ := first
      rw [List.cons_append]
      cases isKept with
      | true => exact ih false
      | false =>
          rw [blankBehind?, blankBehind?]
          split
          · exact ih isBlank
          · split
            · split
              · rfl
              · exact ih false
            · exact ih (Text.isBlank char)

theorem blankBehind?_returns
    (isBlank : Bool)
    (returns : Nat)
    (rest : List Glyph) :
    blankBehind? isBlank (List.replicate returns ('\r', false) ++ rest) = blankBehind? isBlank rest := by
  induction returns with
  | zero => rfl
  | succ returns ih => exact ih

/-- What can be read has clean ends. -/
theorem hasCleanEnds_of_blankBehind?
    {glyphs : List Glyph}
    {behind : Bool}
    (read : blankBehind? isBlank glyphs = some behind) :
    HasCleanEnds glyphs := by
  rintro front blank returns rest rfl blanks
  rw [blankBehind?_append] at read
  obtain ⟨before, -, read⟩ := Option.bind_eq_some_iff.1 read
  refine Bool.of_not_eq_false fun noBreak => ?_
  simp only [isBreak, Bool.or_eq_false_iff, decide_eq_false_iff_not] at noBreak
  rw [blankBehind?, if_neg noBreak.1, if_neg noBreak.2, blanks, blankBehind?_returns] at read
  cases read

example : blankBehind? false (Text.glyphs false "a \r\n".toList) = none := by decide

theorem blankBehind?_kept (text : Text) :
    blankBehind? isBlank (Text.glyphs true text) = some (isBlank && text.isEmpty) := by
  induction text generalizing isBlank with
  | nil => simp [Text.glyphs, blankBehind?]
  | cons first rest ih =>
      change blankBehind? false (Text.glyphs true rest) = _
      rw [ih]
      simp

theorem exists_blankBehind?_of_notMem (noFeed : '\n' ∉ text) :
    exists behind, blankBehind? isBlank (Text.glyphs false text) = some behind := by
  induction text generalizing isBlank with
  | nil => exact ⟨isBlank, rfl⟩
  | cons first rest ih =>
      obtain ⟨differs, later⟩ := List.ne_and_not_mem_of_not_mem_cons noFeed
      change exists behind, blankBehind? isBlank ((first, false) :: Text.glyphs false rest) = _
      rw [blankBehind?, if_neg (Ne.symm differs)]
      split <;> exact ih later

theorem blankBehind?_of_breaks (breaks : text.all isBreak = true) :
    blankBehind? false (Text.glyphs false text) = some false := by
  induction text with
  | nil => rfl
  | cons first rest ih =>
      rw [List.all_cons, Bool.and_eq_true] at breaks
      obtain ⟨here, later⟩ := breaks
      simp only [isBreak, Bool.or_eq_true, decide_eq_true_eq] at here
      rcases here with rfl | rfl <;> exact ih later

/-- A firm token can be read, and leaves no blank behind. -/
theorem blankBehind?_token
    {isUnknown : Bool}
    (firm : Java.isFirm isUnknown text = true) :
    blankBehind? isBlank (Text.glyphs isUnknown text) = some false := by
  obtain ⟨front, last, rfl, notBlank, noFeed⟩ := Java.exists_of_isFirm firm
  cases isUnknown with
  | true => rw [blankBehind?_kept]; simp
  | false =>
      have notReturn : last ≠ '\r' := by rintro rfl; cases notBlank
      have notFeed : last ≠ '\n' := by rintro rfl; cases notBlank
      obtain ⟨behind, read⟩ := exists_blankBehind?_of_notMem (noFeed.resolve_left Bool.false_ne_true)
      rw [Text.glyphs, List.map_append]
      change blankBehind? isBlank (Text.glyphs false front ++ [(last, false)]) = _
      rw [blankBehind?_append, read, Option.bind_some, blankBehind?, if_neg notReturn, if_neg notFeed, notBlank]
      rfl

/-- Returns make no difference. -/
theorem blankBehind?_filter (text : Text) :
    blankBehind? isBlank (Text.glyphs false (text.filter isNoReturn)) = blankBehind? isBlank (Text.glyphs false text) := by
  induction text generalizing isBlank with
  | nil => rfl
  | cons first rest ih =>
      by_cases isReturn : first = '\r'
      · subst isReturn
        exact ih
      · rw [List.filter_cons_of_pos (by simpa [isNoReturn] using isReturn)]
        change blankBehind? isBlank ((first, false) :: Text.glyphs false (rest.filter isNoReturn)) =
          blankBehind? isBlank ((first, false) :: Text.glyphs false rest)
        rw [blankBehind?, blankBehind?, ih, ih, ih]

end Reading

/-! ## Spaces -/

/-- No blank of the whitespace stands before a line break. -/
def IsTidy (text : Text) : Prop :=
  exists behind, blankBehind? false (Text.glyphs false text) = some behind

/-- All whitespace of the space is tidy. -/
def IsTidySpace (space : Space) : Prop :=
  forall text, text ∈ space.whitespaces -> IsTidy text

section Spaces

variable {delimiters : CommentDelimiters} {space : Space} {text : Text}

theorem isTidy_of_notMem (noFeed : '\n' ∉ text) : IsTidy text :=
  exists_blankBehind?_of_notMem noFeed

theorem isTidy_onlyLineBreaks (text : Text) : IsTidy (onlyLineBreaks text) :=
  ⟨false, blankBehind?_of_breaks (all_onlyLineBreaks text)⟩

theorem isTidy_stripTrailing (text : Text) : IsTidy (stripTrailing text) := by
  obtain ⟨lines, last, has⟩ := exists_hasLines text
  cases lines with
  | nil =>
      have noFeed : '\n' ∉ text := fun feed => has.mem_iff.1 feed rfl
      rw [stripTrailing_of_notMem noFeed]
      exact isTidy_of_notMem noFeed
  | cons first rest =>
      let front := onlyLineBreaks (ofLines (first :: rest) [])
      obtain ⟨behind, read⟩ : exists behind, blankBehind? false (Text.glyphs false last) = some behind :=
        isTidy_of_notMem has.noFeedLast
      have stripped : stripTrailing text = front ++ last := by
        rw [stripTrailing, has.splitLast?_eq, if_neg (List.cons_ne_nil _ _)]
      have breaks : blankBehind? false (Text.glyphs false front) = some false :=
        blankBehind?_of_breaks (all_onlyLineBreaks _)
      refine ⟨behind, ?_⟩
      rw [stripped, Text.glyphs, List.map_append, blankBehind?_append]
      exact (congrArg (Option.bind · _) breaks).trans read

theorem isTidy_normalizeNewLines
    (useCrlf : Bool)
    (tidy : IsTidy text) :
    IsTidy (normalizeNewLines useCrlf text) := by
  unfold IsTidy at tidy ⊢
  rwa [← blankBehind?_filter, filter_normalizeNewLines, blankBehind?_filter]

theorem all_normalizeNewLines
    (useCrlf : Bool)
    (breaks : text.all isBreak = true) :
    (normalizeNewLines useCrlf text).all isBreak = true := by
  refine List.all_eq_true.2 fun char member => ?_
  by_cases isReturn : char = '\r'
  · rw [isReturn]
    rfl
  · have inside : char ∈ (normalizeNewLines useCrlf text).filter isNoReturn :=
      List.mem_filter.2 ⟨member, by simpa [isNoReturn] using isReturn⟩
    rw [filter_normalizeNewLines] at inside
    exact List.all_eq_true.1 breaks char (List.mem_filter.1 inside).1

/-- Whitespace that can be read, with tidy whitespace behind comments, can be read. -/
theorem exists_blankBehind?_space
    {isBlank : Bool}
    (leading : exists before, blankBehind? isBlank (Text.glyphs false space.whitespace) = some before)
    (tidy : IsTidySpace space) :
    exists behind, blankBehind? isBlank (space.glyphs delimiters) = some behind := by
  obtain ⟨before, leading⟩ := leading
  have comments (list : List Comment) (tidy : forall text, text ∈ list.map Comment.suffix -> IsTidy text) (isBlank : Bool) :
      exists behind, blankBehind? isBlank (list.flatMap fun comment =>
        Text.glyphs true (comment.render delimiters) ++ Text.glyphs false comment.suffix) = some behind := by
    induction list generalizing isBlank with
    | nil => exact ⟨isBlank, rfl⟩
    | cons first rest ih =>
        obtain ⟨⟨after, read⟩, later⟩ := List.forall_mem_cons.1 tidy
        obtain ⟨behind, finishes⟩ := ih later after
        have nonempty : (first.render delimiters).isEmpty = false := by
          unfold Comment.render
          split <;> rfl
        refine ⟨behind, ?_⟩
        rw [List.flatMap_cons, blankBehind?_append, blankBehind?_append, blankBehind?_kept, nonempty, Bool.and_false,
          Option.bind_some, read, Option.bind_some, finishes]
  obtain ⟨behind, read⟩ := comments space.comments (List.forall_mem_cons.1 tidy).2 before
  exact ⟨behind, by rw [Space.glyphs, blankBehind?_append, leading, Option.bind_some, read]⟩

theorem glyphs_of_isEmpty (isEmpty : space.isEmpty = true) : space.glyphs delimiters = [] := by
  simp only [Space.isEmpty, Bool.and_eq_true, List.isEmpty_iff] at isEmpty
  rw [Space.glyphs, isEmpty.1, isEmpty.2]
  rfl

/-- What becomes of whitespace that is changed text by text. -/
theorem whitespaces_mapWhitespace
    (change : Text -> Text)
    (space : Space) :
    (space.mapWhitespace change).whitespaces = space.whitespaces.map change := by
  rw [Space.whitespaces, Space.whitespaces, mapWhitespace_whitespace, mapWhitespace_comments, List.map_map, List.map_cons,
    List.map_map]
  rfl

theorem whitespaces_normalizeLineBreaks
    (useCrlf : Bool)
    (space : Space) :
    (normalizeLineBreaks useCrlf space).whitespaces = space.whitespaces.map (normalizeNewLines useCrlf) := by
  rw [Space.whitespaces, Space.whitespaces, normalizeLineBreaks_whitespace, normalizeLineBreaks_comments, List.map_map,
    List.map_cons, List.map_map]
  rfl

theorem isTidySpace_empty : IsTidySpace .empty :=
  List.forall_mem_singleton.2 (isTidy_of_notMem List.not_mem_nil)

theorem isTidySpace_normalizeLineBreaks
    (useCrlf : Bool)
    (tidy : IsTidySpace space) :
    IsTidySpace (normalizeLineBreaks useCrlf space) := by
  rw [IsTidySpace, whitespaces_normalizeLineBreaks]
  exact List.forall_mem_map.2 fun text member => isTidy_normalizeNewLines useCrlf (tidy text member)

end Spaces

/-! ## Pieces -/

section Pieces

open Java

variable {delimiters : CommentDelimiters} {isUnknown isSpaced behind : Bool}

/-- Tokens that are firm, with tidy spaces of which no more than one between two of them is not empty, can be read. -/
theorem exists_blankBehind?_of_isTidySpace
    {pieces : Pieces}
    {left : Bool}
    (single : spacedBehind? isUnknown isSpaced pieces = some left)
    (tidy : forall gap, gap ∈ Piece.spaces pieces -> IsTidySpace gap.2)
    (fits : isSpaced = false -> behind = false) :
    exists after, blankBehind? behind (Pieces.glyphs delimiters isUnknown pieces) = some after := by
  induction pieces generalizing isUnknown isSpaced behind with
  | nil => exact ⟨behind, rfl⟩
  | cons first rest ih =>
      cases first with
      | space place content =>
          obtain ⟨here, later⟩ := List.forall_mem_cons.1 tidy
          rw [spacedBehind?] at single
          rw [Pieces.glyphs, blankBehind?_append]
          split at single
          · next isEmpty =>
              rw [glyphs_of_isEmpty isEmpty]
              exact ih single later fits
          · split at single
            · cases single
            · next notSpaced =>
                obtain rfl := fits (Bool.eq_false_iff.2 notSpaced)
                obtain ⟨middle, read⟩ : exists middle, blankBehind? false (content.glyphs delimiters) = some middle :=
                  exists_blankBehind?_space (here _ List.mem_cons_self) here
                rw [read]
                exact ih single later fun spaced => absurd spaced (by decide)
      | token text =>
          rw [spacedBehind?] at single
          split at single
          · next firm =>
              rw [Pieces.glyphs, blankBehind?_append, blankBehind?_token firm]
              exact ih single tidy fun _ => rfl
          · cases single
      | start id markers => exact ih (single : spacedBehind? isUnknown isSpaced rest = some left) tidy fits
      | finish id => exact ih (single : spacedBehind? false isSpaced rest = some left) tidy fits

end Pieces

/-! ## Passes -/

section Passes

open Java

variable {styles : Styles} {path : Path} {tree : Tree}

theorem RelaidPieces.forall_spaces
    {gap : Slot -> Space -> Space -> Prop}
    {holds : Space -> Prop}
    {old new : Pieces}
    (each : forall slot old new, gap slot old new -> holds new)
    (related : RelaidPieces gap old new) :
    forall gap, gap ∈ Piece.spaces new -> holds gap.2 := by
  induction related with
  | nil => nofun
  | cons piece _ ih =>
      cases piece with
      | space related => exact List.forall_mem_cons.2 ⟨each _ _ _ related, ih⟩
      | token => exact ih
      | start => exact ih
      | finish => exact ih

/-- What a pass over spaces makes of a unit that can be read. -/
theorem relaid_respaced
    (styles : Styles)
    (change : SpacePlace -> Space -> Space)
    (part : tree.IsPart) :
    Relaid styles (fun slot old new => new = change slot.place old) .root tree (respaced (gapsOf change) tree) := by
  obtain ⟨new, runs, changed⟩ := ofSpaces_changes styles change part
  rw [ofSpaces_run] at runs
  cases runs
  exact changed .root

theorem regapped_respaced
    {relates : Gaps -> Gaps -> Prop}
    {change : SpacePlace -> Space -> Space}
    (relation : IsGapRelation relates)
    (each : forall place space, GapOf relates place space (change place space))
    (tree : Tree) :
    Regapped relates tree (respaced (gapsOf change) tree) := by
  obtain ⟨new, runs, regapped⟩ := ofSpaces_regaps relation each none .root tree
  rw [ofSpaces_run] at runs
  cases runs
  exact regapped

theorem isUnitOf_respaced
    {change : SpacePlace -> Space -> Space}
    (safe : (Exact.ofSpaces change).IsSafe path)
    (unit : tree.IsUnitOf path) :
    (respaced (gapsOf change) tree).IsUnitOf path :=
  safe.isUnitOf unit (ofSpaces_run ..)

/-- A tree whose printed spaces all have a property. -/
def AllSpaces
    (holds : Space -> Prop)
    (tree : Tree) : Prop :=
  forall gap, gap ∈ Piece.spaces (tree.pieces .java) -> holds gap.2

/-- What a change makes of every space is true of all spaces of a unit that has been changed. -/
theorem allSpaces_respaced_of_part
    {holds : Space -> Prop}
    {change : SpacePlace -> Space -> Space}
    (each : forall place space, holds (change place space))
    (part : tree.IsPart) :
    AllSpaces holds (respaced (gapsOf change) tree) := by
  refine (relaid_respaced {} change part).printed.2.forall_spaces ?_
  rintro slot old _ rfl
  exact each slot.place old

theorem AllSpaces.respaced
    {holds : Space -> Prop}
    {change : SpacePlace -> Space -> Space}
    (each : forall place space, holds space -> holds (change place space))
    (all : AllSpaces holds tree) :
    AllSpaces holds (respaced (gapsOf change) tree) := by
  have keeps (place : SpacePlace) (space : Space) : GapOf (KeepsAll holds) place space (change place space) :=
    gapOf_keepsAll (each place space)
  exact (regapped_respaced (isGapRelation_keepsAll holds) keeps tree).gaps .java all

/-! ## What the passes leave -/

theorem isTidySpace_stripSpace
    (place : SpacePlace)
    (space : Space) :
    IsTidySpace (stripSpace place space) := by
  unfold stripSpace
  split
  · exact isTidySpace_empty
  · split
    · rw [IsTidySpace, whitespaces_mapWhitespace]
      exact List.forall_mem_map.2 fun text _ => isTidy_onlyLineBreaks text
    · rw [IsTidySpace, whitespaces_mapWhitespace]
      exact List.forall_mem_map.2 fun text _ => isTidy_stripTrailing text

end Passes

/-! ## Runs -/

section Runs

open Java Config

variable {settings : Option FormatterSettings} {source : Text} {path : Path} {tree middle : Tree}

theorem runPasses_append
    {stopAfter : Option Stamp}
    {parent : TreeCursor}
    {front rest : List Pass}
    (runs : runPasses stopAfter parent front tree = .ok middle) :
    runPasses stopAfter parent (front ++ rest) tree = runPasses stopAfter parent rest middle := by
  induction front generalizing tree with
  | nil =>
      cases runs
      rfl
  | cons pass others ih =>
      rw [List.cons_append, runPasses]
      rw [runPasses] at runs
      cases run : pass.run stopAfter parent tree with
      | error error => rw [run] at runs; cases runs
      | ok visited =>
          rw [run] at runs
          exact ih runs

/-- The passes before blanks are stripped. -/
def layoutPasses (styles : Styles) : List Pass :=
  [normalizeFormat, Exact.blankLines styles.blankLines, spaces styles.spacing, Exact.tabsAndIndents styles.indents,
    Exact.tabsOrSpaces styles.indents]

/-- The end of a run: blanks are stripped, and line breaks made alike if this is asked for. -/
def ended
    (useCrlf : Option Bool)
    (tree : Tree) : Tree :=
  let stripped := respaced (gapsOf stripSpace) tree
  match useCrlf with
  | none => stripped
  | some useCrlf => respaced (gapsOf fun _ => normalizeLineBreaks useCrlf) stripped

/-- The tree with line breaks made alike, if this is asked for. -/
def withAlikeBreaks
    (useCrlf : Option Bool)
    (tree : Tree) : Tree :=
  match useCrlf with
  | none => tree
  | some useCrlf => respaced (gapsOf fun _ => normalizeLineBreaks useCrlf) tree

theorem ended_eq
    (useCrlf : Option Bool)
    (tree : Tree) :
    ended useCrlf tree = withAlikeBreaks useCrlf (respaced (gapsOf stripSpace) tree) := by
  cases useCrlf <;> rfl

/-- What formatting a tree without styles of its own makes of it. -/
theorem formatSourceUnit_of_runPasses
    (unstyled : enclosingStyles .root tree = {})
    (runs : runPasses none .root (Exact.passes (stylesUnder settings)) tree = .ok middle) :
    Exact.formatSourceUnit settings tree = .ok (withAlikeBreaks (settings.bind (·.useCrlf)) middle) := by
  have formats : Exact.formatWith settings none .root tree = .ok middle := by
    rw [Exact.formatWith, Exact.autoFormat, unstyled]
    exact runs
  rw [Exact.formatSourceUnit, formats]
  cases settings.bind (·.useCrlf) with
  | none => rfl
  | some useCrlf =>
      have alike : (lineBreaks ⟨useCrlf⟩).run none .root middle =
          .ok (some (respaced (gapsOf fun _ => normalizeLineBreaks useCrlf) middle)) :=
        ofSpaces_run ..
      change (do return (<- (lineBreaks ⟨useCrlf⟩).run none .root middle).getD middle : Except Error Tree) = _
      rw [alike]
      rfl

theorem formatSourceUnit_eq
    (plain : (stylesUnder settings).indents.keepIndentsOnEmptyLines = false)
    (unit : tree.IsUnitOf path)
    (runs : runPasses none .root (layoutPasses (stylesUnder settings)) tree = .ok middle) :
    Exact.formatSourceUnit settings tree = .ok (ended (settings.bind (·.useCrlf)) middle) := by
  have all : Exact.passes (stylesUnder settings) = layoutPasses (stylesUnder settings) ++ [trailingWhitespace] := by
    rw [Exact.passes, plain]
    rfl
  have strips : trailingWhitespace.run none .root middle = .ok (some (respaced (gapsOf stripSpace) middle)) :=
    ofSpaces_run ..
  rw [ended_eq]
  refine formatSourceUnit_of_runPasses (enclosingStyles_of_isUnitOf unit) ?_
  rw [all, runPasses_append runs, runPasses, strips]
  rfl

/-- The passes before blanks are stripped leave a unit that can be read. -/
theorem layoutPasses_run
    (settings : Option FormatterSettings)
    (unit : tree.IsUnitOf path) :
    exists middle,
      runPasses none .root (layoutPasses (stylesUnder settings)) tree = .ok middle ∧ middle.IsUnitOf path := by
  have safe (pass : Pass) (member : pass ∈ layoutPasses (stylesUnder settings)) : pass.IsSafe path :=
    isSafe_of_mem_passes (List.mem_append_left _ member)
  have start : Preserved path tree tree := ⟨unit, .refl tree⟩
  obtain ⟨middle, runs, preserved⟩ := start.runPasses safe
  exact ⟨middle, runs, preserved.unit⟩

theorem ended_isUnitOf
    (useCrlf : Option Bool)
    (unit : tree.IsUnitOf path) :
    (ended useCrlf tree).IsUnitOf path := by
  have stripped : (respaced (gapsOf stripSpace) tree).IsUnitOf path := isUnitOf_respaced isSafe_trailingWhitespace unit
  cases useCrlf with
  | none => exact stripped
  | some useCrlf => exact isUnitOf_respaced (isSafe_lineBreaks ⟨useCrlf⟩) stripped

theorem allSpaces_ended
    {holds : Space -> Prop}
    (useCrlf : Option Bool)
    (alike : forall useCrlf space, holds space -> holds (normalizeLineBreaks useCrlf space))
    (stripped : AllSpaces holds (respaced (gapsOf stripSpace) tree)) :
    AllSpaces holds (ended useCrlf tree) := by
  cases useCrlf with
  | none => exact stripped
  | some useCrlf => exact stripped.respaced fun _ => alike useCrlf

/-- What a run ends with can be read. -/
theorem exists_blankBehind?_ended
    (useCrlf : Option Bool)
    (unit : tree.IsUnitOf path) :
    exists behind, blankBehind? false (ended useCrlf tree).glyphs = some behind := by
  have unitEnded := ended_isUnitOf useCrlf unit
  have tidy : AllSpaces IsTidySpace (ended useCrlf tree) :=
    allSpaces_ended useCrlf (fun useCrlf _ => isTidySpace_normalizeLineBreaks useCrlf)
      (allSpaces_respaced_of_part isTidySpace_stripSpace unit.isPart)
  obtain ⟨left, single⟩ := exists_spacedBehind? unitEnded
  rw [Tree.glyphs, dialect_of_isUnitOf unitEnded]
  exact exists_blankBehind?_of_isTidySpace single tidy fun _ => rfl

theorem eof_respaced
    (change : SpacePlace -> Space -> Space)
    {dialect : Dialect}
    {info : SourceInfo}
    {statements : List (RightPadded Tree)}
    {eof : Space}
    (form : tree.form = .compilationUnit dialect info statements eof) :
    exists respacedStatements, (respaced (gapsOf change) tree).form =
      .compilationUnit dialect info respacedStatements (change .compilationUnitEof eof) := by
  rw [respaced_eq, Tree.form_remake, form]
  exact ⟨_, rfl⟩

/-- A run ends with line breaks alone in the whitespace at the end of the file. -/
theorem exists_eof
    (useCrlf : Option Bool)
    (unit : tree.IsUnitOf path) :
    exists statements eof, (ended useCrlf tree).form = .compilationUnit .java ⟨path, none, none⟩ statements eof ∧
      forall text, text ∈ eof.whitespaces -> text.all isBreak = true := by
  obtain ⟨_, eof, form⟩ := unit.isUnit
  obtain ⟨_, stripped⟩ := eof_respaced stripSpace form
  have breaks : forall text, text ∈ (stripSpace .compilationUnitEof eof).whitespaces -> text.all isBreak = true := by
    have atEof : stripSpace .compilationUnitEof eof = eof.mapWhitespace onlyLineBreaks := rfl
    rw [atEof, whitespaces_mapWhitespace]
    exact List.forall_mem_map.2 fun text _ => all_onlyLineBreaks text
  cases useCrlf with
  | none => exact ⟨_, _, stripped, breaks⟩
  | some useCrlf =>
      obtain ⟨_, alike⟩ := eof_respaced (fun _ => normalizeLineBreaks useCrlf) stripped
      refine ⟨_, _, alike, ?_⟩
      rw [whitespaces_normalizeLineBreaks]
      exact List.forall_mem_map.2 fun text member => all_normalizeNewLines useCrlf (breaks text member)

/--
A source that parses is formatted without blanks before line breaks, but for those in comments and in the text of unknown
nodes, unless the settings ask for the indentation of empty lines or a sum overflows. All whitespace at the end of the
file is line breaks.
-/
theorem formatting_stripsLineEnds
    (plain : (stylesUnder settings).indents.keepIndentsOnEmptyLines = false)
    (paired : source.hasPairedReturns = true)
    (parsed : parse source path = .ok tree)
    (next : Nat)
    (fits : overflows (formatSourceUnit settings (tree.settle.run next).1) = false) :
    exists formatted statements eof, formatSourceUnit settings (tree.settle.run next).1 = .ok formatted ∧
      formatted.glyphs.map Prod.fst = formatted.printTrimmed ∧ HasCleanEnds formatted.glyphs ∧
      formatted.form = .compilationUnit .java ⟨path, none, none⟩ statements eof ∧
      forall text, text ∈ eof.whitespaces -> text.all isBreak = true := by
  obtain ⟨unit, -⟩ := printTrimmed_settle paired parsed next
  obtain ⟨middle, runs, laidOut⟩ := layoutPasses_run settings unit
  let formatted := ended (settings.bind (·.useCrlf)) middle
  obtain ⟨statements, eof, form, breaks⟩ := exists_eof (settings.bind (·.useCrlf)) laidOut
  obtain ⟨behind, read⟩ := exists_blankBehind?_ended (settings.bind (·.useCrlf)) laidOut
  exact ⟨formatted, statements, eof, (Exact.formatSourceUnit_eq fits).trans (formatSourceUnit_eq plain unit runs),
    formatted.map_glyphs, hasCleanEnds_of_blankBehind? read, form, breaks⟩

/-- Two statements with blanks at the ends of their lines, and a line of blanks at the end of the file. -/
theorem formatting_stripsLineEnds_of_statements :
    Text.hasPairedReturns "a = b; \r\nf(a); \t\n  ".toList = true ∧
      exists tree formatted statements eof, parse "a = b; \r\nf(a); \t\n  ".toList ⟨"A.java".toList⟩ = .ok tree ∧
        formatSourceUnit none (tree.settle.run 0).1 = .ok formatted ∧
        formatted.glyphs.map Prod.fst = formatted.printTrimmed ∧ HasCleanEnds formatted.glyphs ∧
        formatted.form = .compilationUnit .java ⟨⟨"A.java".toList⟩, none, none⟩ statements eof ∧
        forall text, text ∈ eof.whitespaces -> text.all isBreak = true := by
  have paired : Text.hasPairedReturns "a = b; \r\nf(a); \t\n  ".toList = true := by decide +kernel
  have fits : (parse "a = b; \r\nf(a); \t\n  ".toList ⟨"A.java".toList⟩).toOption.any (fun tree =>
      !overflows (formatSourceUnit none (tree.settle.run 0).1)) = true := by
    decide +kernel
  refine ⟨paired, ?_⟩
  generalize parsed : parse "a = b; \r\nf(a); \t\n  ".toList ⟨"A.java".toList⟩ = outcome at fits
  cases outcome with
  | error => cases fits
  | ok tree =>
      obtain ⟨formatted, statements, eof, result⟩ :=
        formatting_stripsLineEnds rfl paired parsed 0 (by simpa [Except.toOption] using fits)
      exact ⟨tree, formatted, statements, eof, rfl, result⟩

end Runs

end Format
end Lossless
