import Lossless.Format.Auto
import Lossless.Proofs.Format.Gaps
import Lossless.Proofs.Format.Spaced
import Lossless.Proofs.Java.Written
import Lossless.Proofs.Layout.Canonical
import Lossless.Proofs.Layout.Copies
import Mathlib.Data.List.Forall2

/-!
# Passes that leave the program alone

A tree that is laid out anew is printed as the same tokens in the same order, with related spaces between them.

What a pass makes of the spaces of a tree is safe when trees stay readable under it, and when it leaves the comments
alone but for blanks and line ends inside them. Every pass of a formatting run is.
-/

namespace Lossless
namespace Format

/-! ## The printed pieces of a layout -/

section Layout

open Java

/-- Pieces that are the same but for their spaces, which are related. -/
inductive RelaidPiece (gap : Slot -> Space -> Space -> Prop) :
    Piece SpacePlace -> Piece SpacePlace -> Prop
  | space {slot old new} :
      gap slot old new -> RelaidPiece gap (.space slot.place old) (.space slot.place new)
  | token {text} : RelaidPiece gap (.token text) (.token text)
  | start {id id'} {markers markers' : Markers Space} :
      markers.toList = [] -> markers'.toList = [] ->
        RelaidPiece gap (.start id markers) (.start id' markers')
  | finish {id id'} : RelaidPiece gap (.finish id) (.finish id')

/-- Lists of pieces that are related one by one. -/
abbrev RelaidPieces
    (gap : Slot -> Space -> Space -> Prop)
    (old new : Pieces) : Prop :=
  List.Forall₂ (RelaidPiece gap) old new

/-- Trees of one kind whose pieces are related. -/
def RelaidPrinted
    (gap : Slot -> Space -> Space -> Prop)
    (old new : Tree) : Prop :=
  SameKind old.form new.form ∧ RelaidPieces gap (old.pieces .java) (new.pieces .java)

variable {α : Type} {styles : Styles} {gap : Slot -> Space -> Space -> Prop}
variable {inside : Interior} {around : Surroundings} {slot : Slot} {layout : ListLayout}

theorem RelaidPieces.append
    {old new oldMore newMore : Pieces}
    (related : RelaidPieces gap old new)
    (more : RelaidPieces gap oldMore newMore) :
    RelaidPieces gap (old ++ oldMore) (new ++ newMore) :=
  List.rel_append related more

theorem RelaidPadded.pieces_statement
    {place : ElementPlace}
    {old new : RightPadded Tree}
    (related : RelaidPadded gap (fun _ => RelaidPrinted gap) around slot old new)
    (atPlace : slot.place = place.after) :
    RelaidPieces gap (Pieces.statement .java place (old.map (Tree.printed .java)))
      (Pieces.statement .java place (new.map (Tree.printed .java))) := by
  obtain ⟨⟨same, pieces⟩, after, unmarked, unmarkedNew⟩ := related
  have sign : Dialect.java.needsSemicolon new = Dialect.java.needsSemicolon old := by
    simp only [Dialect.needsSemicolon, Markers.findFirst?, unmarked, unmarkedNew, same.isSelfTerminated]
  have noPrinted (padded : RightPadded Tree) :
      (padded.map (Tree.printed .java)).map Prod.fst = padded := rfl
  unfold Pieces.statement
  rw [noPrinted, noPrinted, sign, ← atPlace]
  refine RelaidPieces.append pieces (.cons (.space after) ?_)
  cases Dialect.java.needsSemicolon old
  · exact .nil
  · exact .cons .token .nil

theorem RelaidStatements.pieces
    {place : ElementPlace}
    {olds news : List (RightPadded Tree)}
    (related : RelaidStatements gap (fun _ => RelaidPrinted gap) around slot olds news)
    (atPlace : slot.place = place.after) :
    RelaidPieces gap
      ((olds.map (·.map (Tree.printed .java))).flatMap (Pieces.statement .java place))
      ((news.map (·.map (Tree.printed .java))).flatMap (Pieces.statement .java place)) := by
  induction related with
  | nil => exact .nil
  | cons first _ ih =>
      rw [List.map_cons, List.map_cons, List.flatMap_cons, List.flatMap_cons]
      exact (first.pieces_statement atPlace).append ih

theorem RelaidLast.pieces
    {old new : RightPadded Tree}
    (related : RelaidLast gap (fun _ => RelaidPrinted gap) layout around old new) :
    RelaidPieces gap
      (Pieces.listElements layout.place.element [old.map (Tree.printed .java)])
      (Pieces.listElements layout.place.element [new.map (Tree.printed .java)]) := by
  cases related with
  | plain padded =>
      obtain ⟨⟨-, pieces⟩, after, unmarked, unmarkedNew⟩ := padded
      simp only [Pieces.listElements, Pieces.trailingComma, RightPadded.markers_map,
        Markers.findFirst?, unmarked, unmarkedNew, List.findSome?_nil]
      exact RelaidPieces.append pieces (.cons (.space after) .nil)
  | comma element after only isComma onlyNew isCommaNew suffix =>
      simp only [Pieces.listElements, Pieces.trailingComma, RightPadded.markers_map,
        Markers.findFirst?, only, onlyNew, isComma, isCommaNew, List.findSome?_cons,
        Fact.trailingComma?]
      exact RelaidPieces.append element.2
        (.cons (.space after) (.cons .token (.cons (.space suffix) .nil)))

theorem RelaidElements.pieces
    {blank : Bool}
    {olds news : List (RightPadded Tree)}
    (related : RelaidElements gap (fun _ => RelaidPrinted gap) layout inside blank olds news) :
    RelaidPieces gap
      (Pieces.listElements layout.place.element (olds.map (·.map (Tree.printed .java))))
      (Pieces.listElements layout.place.element (news.map (·.map (Tree.printed .java)))) := by
  induction related with
  | last last => exact last.pieces
  | cons first others ih =>
      obtain ⟨notLast, notLastNew⟩ := others.ne_nil
      rw [List.map_cons, List.map_cons, Pieces.listElements, Pieces.listElements]
      · exact RelaidPieces.append first.element.2 (.cons (.space first.after) (.cons .token ih))
      · simpa using notLastNew
      · simpa using notLast

theorem RelaidNone.pieces
    {olds news : List (RightPadded Tree)}
    (related : RelaidNone gap (fun _ => RelaidPrinted gap) layout inside olds news) :
    RelaidPieces gap
      (Pieces.listElements layout.place.element (olds.map (·.map (Tree.printed .java))))
      (Pieces.listElements layout.place.element (news.map (·.map (Tree.printed .java)))) := by
  cases related with
  | only _ _ padded =>
      obtain ⟨⟨-, pieces⟩, after, unmarked, unmarkedNew⟩ := padded
      simp only [List.map_cons, List.map_nil, Pieces.listElements, Pieces.trailingComma,
        RightPadded.markers_map, Markers.findFirst?, unmarked, unmarkedNew, List.findSome?_nil]
      exact RelaidPieces.append pieces (.cons (.space after) .nil)

theorem RelaidContainer.pieces
    {delimiters : Text × Text}
    {old new : Container Tree}
    (related : RelaidContainer styles gap (fun _ => RelaidPrinted gap) layout inside old new) :
    RelaidPieces gap (Pieces.container layout.place delimiters (old.map (Tree.printed .java)))
      (Pieces.container layout.place delimiters (new.map (Tree.printed .java))) := by
  refine .cons (.space related.before) (.cons .token (RelaidPieces.append ?_ (.cons .token .nil)))
  rcases related.padded with none | ⟨-, -, elements⟩
  · exact none.pieces
  · exact elements.pieces

theorem relaidOption_pieces
    {old new : Option Tree}
    (related : Option.Rel (RelaidPrinted gap) old new) :
    RelaidPieces gap (Pieces.option (old.map (Tree.printed .java)))
      (Pieces.option (new.map (Tree.printed .java))) := by
  cases related with
  | none => exact .nil
  | some related => exact related.2

/-- The pieces of related forms are related. -/
theorem RelaidForm.pieces
    {old new : Form Tree}
    (related : RelaidForm styles gap (fun _ => RelaidPrinted gap) inside old new) :
    RelaidPieces gap (Pieces.form .java (old.map (Tree.printed .java)))
      (Pieces.form .java (new.map (Tree.printed .java))) := by
  cases related with
  | compilationUnit statements eof => exact (statements.pieces rfl).append (.cons (.space eof) .nil)
  | block statements closing =>
      exact .cons .token (((statements.pieces rfl).append (.cons (.space closing) .nil)).append
        (.cons .token .nil))
  | conditional condition consequence alternative =>
      exact .cons .token ((RelaidPieces.append condition.2 (consequence.pieces_statement rfl)).append
        (relaidOption_pieces alternative))
  | otherwise body => exact .cons .token (body.pieces_statement rfl)
  | returns value => exact .cons .token (relaidOption_pieces value)
  | assignment target value =>
      exact RelaidPieces.append target.2 (.cons (.space value.before) (.cons .token value.element.2))
  | binary _ same _ _ left before right =>
      simp only [Form.map, Pieces.form, ← same]
      exact RelaidPieces.append left.2 (.cons (.space before) (.cons .token right.2))
  | identifier => exact .cons .token .nil
  | literal => exact .cons .token .nil
  | fieldAccess target name =>
      exact RelaidPieces.append target.2 (.cons (.space name.before) (.cons .token name.element.2))
  | plainCall name list => exact RelaidPieces.append name.2 list.pieces
  | call _ receiver name list =>
      refine RelaidPieces.append (RelaidPieces.append ?_ name.2) list.pieces
      exact RelaidPieces.append receiver.element.2 (.cons (.space receiver.after) (.cons .token .nil))
  | declaration returnType name list body =>
      exact (((relaidOption_pieces returnType).append name.2).append list.pieces).append
        (relaidOption_pieces body)
  | parentheses inner =>
      exact .cons .token (RelaidPieces.append inner.element.2
        (.cons (.space inner.after) (.cons .token .nil)))
  | collection list => exact list.pieces
  | empty => exact .nil
  | unknown => exact .cons .token .nil

/-- The pieces of related trees are related. -/
theorem Relaid.printed
    {old new : Tree}
    (related : Relaid styles gap around old new) :
    RelaidPrinted gap old new := by
  induction old using Tree.induction generalizing around new with
  | step head form ih =>
      obtain ⟨head', form'⟩ := new
      obtain ⟨leading, unmarked, unmarkedNew, forms⟩ := relaid_iff.1 related
      have place : form'.leadingPlace = form.leadingPlace := congrArg Slot.place (forms.slot_eq around)
      have printed : RelaidForm styles gap (fun _ => RelaidPrinted gap)
          (around.interior styles head.leading form) form form' :=
        forms.mono (fun _ _ _ => id) fun tree _ member around => ih tree (List.of_mem_zip member).1
      refine ⟨forms.sameKind, ?_⟩
      rw [Tree.pieces_node, Tree.pieces_node, place]
      exact .cons (.space leading) (.cons (.start unmarked unmarkedNew)
        (printed.pieces.append (.cons .finish .nil)))

/-! ## What is seen of the pieces -/

section Pieces

variable {old new : Pieces}

/-- A layout leaves the tokens alone. -/
theorem RelaidPieces.tokens_eq
    (related : RelaidPieces gap old new) :
    Piece.tokens new = Piece.tokens old := by
  induction related with
  | nil => rfl
  | cons piece _ ih =>
      unfold Piece.tokens at ih ⊢
      cases piece <;> simp [ih]

/-- The comments of printed pieces. -/
def commentsOf (pieces : Pieces) : List Comment :=
  (Piece.spaces pieces).flatMap fun space => space.2.comments

/-- A layout leaves of the comments what it leaves of those in every space. -/
theorem RelaidPieces.comments_eq
    {content : Comment -> α}
    (atSpace : forall {slot old new}, gap slot old new -> new.comments.map content = old.comments.map content)
    (related : RelaidPieces gap old new) :
    (commentsOf new).map content = (commentsOf old).map content := by
  induction related with
  | nil => rfl
  | cons piece _ ih =>
      unfold commentsOf Piece.spaces at ih ⊢
      cases piece with
      | space related =>
          simp only [List.filterMap_cons, List.flatMap_cons, List.map_append, ih, atSpace related]
      | token => exact ih
      | start => exact ih
      | finish => exact ih

/-- Pieces whose spaces are written alike are. -/
theorem RelaidPieces.renderAll_eq
    (atSpace : forall slot old new, gap slot old new -> new.render .slash = old.render .slash)
    (related : RelaidPieces gap old new) :
    Piece.renderAll .slash .hidden new = Piece.renderAll .slash .hidden old := by
  induction related with
  | nil => rfl
  | cons piece _ ih =>
      rw [Piece.renderAll_cons, Piece.renderAll_cons, ih]
      cases piece with
      | space related => rw [Piece.render, Piece.render, atSpace _ _ _ related]
      | token => rfl
      | start => rfl
      | finish => rfl

end Pieces

end Layout

open Java Text

/-! ## Spaces -/

/-- What is made of whitespace inside a unit. -/
def WhitespaceRecast (old new : Text) : Prop :=
  KeepsWhitespace old new ∧ SameShape old new

/-- What is made of the text of a block comment. -/
def BodyRecast (old new : Text) : Prop :=
  KeepsBody old new ∧ SameBody old new

/-- Spaces that may stand for one another inside a unit. -/
abbrev Recast (old new : Space) : Prop :=
  Rewritten WhitespaceRecast BodyRecast old new

/-- Spaces that may stand for one another around a unit, where an empty space stays empty. -/
structure SpaceKept (old new : Space) : Prop where
  isGapTo : forall {final}, old.IsGapTo final -> new.IsGapTo final
  stays : old.isEmpty = true -> new.isEmpty = true
  contents : new.comments.map contentOf = old.comments.map contentOf

section Spaces

variable {old middle new : Space}

theorem isEmpty_iff (space : Space) : space.isEmpty = true ↔ space.whitespace = [] ∧ space.comments = [] := by
  simp [Space.isEmpty]

theorem SpaceKept.trans
    (first : SpaceKept old middle)
    (second : SpaceKept middle new) :
    SpaceKept old new :=
  ⟨fun isGap => second.isGapTo (first.isGapTo isGap), fun isEmpty => second.stays (first.stays isEmpty),
    second.contents.trans first.contents⟩

theorem Rewritten.spaceKept (rewritten : Rewritten KeepsWhitespace BodyRecast old new) : SpaceKept old new where
  isGapTo := (rewritten.mono (fun _ _ => id) fun _ _ => And.left).isGapTo
  stays := fun isEmpty => by
    obtain ⟨blank, none⟩ := (isEmpty_iff old).1 isEmpty
    refine (isEmpty_iff new).2 ⟨(rewritten.leading ?_).nil blank, ?_⟩
    · rw [blank]
      exact ⟨rfl, rfl⟩
    · rw [← List.length_eq_zero_iff, ← rewritten.comments.length_eq, none]
      rfl
  contents := (rewritten.mono (fun _ _ => id) fun _ _ => And.right).contents_eq

theorem Rewritten.kept_of_recast (recast : Recast old new) : SpaceKept old new :=
  (recast.mono (fun _ _ => And.left) fun _ _ => id).spaceKept

theorem whitespaceRecast_refl (text : Text) : WhitespaceRecast text text :=
  ⟨fun blank => .refl blank, .refl text⟩

theorem bodyRecast_refl (text : Text) : BodyRecast text text :=
  ⟨id, rfl⟩

theorem recast_refl (space : Space) : Recast space space :=
  ⟨whitespaceRecast_refl _, List.forall₂_same.2 fun _ _ =>
    ⟨rfl, rfl, fun _ => rfl, fun _ => bodyRecast_refl _, whitespaceRecast_refl _⟩⟩

theorem recast_of_sameSpace (same : new.renewed = old.renewed) : Recast old new := by
  have whitespace : new.whitespace = old.whitespace := by simpa using congrArg Space.whitespace same
  have comments : new.comments = old.comments := by simpa using congrArg Space.comments same
  obtain ⟨leading, others⟩ := recast_refl old
  exact ⟨by rwa [whitespace], by rwa [comments]⟩

/-- Changing all whitespace of a space recasts it. -/
theorem recast_mapWhitespace
    {change : Text -> Text}
    (kept : forall {text : Text}, text.IsWhitespace -> WhitespaceKept text (change text))
    (sameShape : forall text, SameShape text (change text))
    (space : Space) :
    Recast space (space.mapWhitespace change) :=
  mapWhitespace_rewrites (fun text => ⟨kept, sameShape text⟩) bodyRecast_refl space

theorem recast_indentTo
    (style : IndentStyle)
    (column : Nat)
    (space : Space) :
    Recast space (Exact.indentTo style column space) :=
  indentTo_rewrites
    (fun text => ⟨whitespaceRecast_refl text, shiftWhitespace_kept style column, shiftWhitespace_sameShape style column text⟩)
    (fun text => ⟨bodyRecast_refl text, fun source =>
      ⟨shiftCommentBody_isBody source column, bodyLines_shiftCommentBody source column text⟩⟩) space

theorem recast_normalizeLineBreaks
    (useCrlf : Bool)
    (space : Space) :
    Recast space (normalizeLineBreaks useCrlf space) :=
  normalizeLineBreaks_rewrites
    (fun text => ⟨normalizeNewLines_kept useCrlf, normalizeNewLines_sameShape useCrlf text⟩)
    (fun text => ⟨normalizeNewLines_isBody useCrlf, bodyLines_normalizeNewLines useCrlf text⟩) space

theorem kept_withoutWhitespace (space : Space) : SpaceKept space (space.withWhitespace []) where
  isGapTo := fun isGap => by
    refine ⟨?_, ?_, ?_, ?_⟩
    · rw [whitespace_withWhitespace]
      rfl
    · rw [comments_withWhitespace]
      exact isGap.closed
    · rw [whitespace_withWhitespace]
      rfl
    · rw [comments_withWhitespace]
      exact isGap.paired.2
  stays := fun isEmpty => (isEmpty_iff _).2 ⟨whitespace_withWhitespace .., by
    rw [comments_withWhitespace, ((isEmpty_iff space).1 isEmpty).2]⟩
  contents := by rw [comments_withWhitespace]

theorem kept_empty (none : old.comments = []) : SpaceKept old .empty where
  isGapTo := fun _ => Space.isGapTo_empty _
  stays := fun _ => rfl
  contents := by
    rw [none]
    rfl

end Spaces

/-! ## Layouts -/

/-- Trees stay readable, and their comments stay the same but for blanks and line ends inside them. -/
structure IsSafe (gap : Slot -> Space -> Space -> Prop) : Prop where
  keeps : KeepsGaps gap
  contents : forall {slot old new}, gap slot old new -> new.comments.map contentOf = old.comments.map contentOf

/-- What is made of the spaces by place is safe when it recasts them, but for those around the unit. -/
theorem isSafe_of_places
    {gap : SpacePlace -> Space -> Space -> Prop}
    (inner : forall {place old new}, gap place old new -> SpacePlace.IsInner place -> Recast old new)
    (outer : forall {place old new}, gap place old new -> SpaceKept old new) :
    IsSafe fun slot => gap slot.place where
  keeps :=
    { isGap := fun related _ => (outer related).isGapTo
      eof := fun related _ => (outer related).isGapTo
      isEmpty := fun related isInner _ =>
        ((inner related isInner).mono (fun _ _ => And.right) fun _ _ => id).isEmpty_eq.1
      stays := fun related _ _ => (outer related).stays
      startsComment := fun related isInner noComment => by
        rw [((inner related isInner).mono (fun _ _ => And.right) fun _ _ => id).isEmpty_eq.2]
        exact noComment }
  contents := fun related => (outer related).contents

/-- What recasts every space is safe. -/
theorem isSafe_of_recast
    {gap : SpacePlace -> Space -> Space -> Prop}
    (recast : forall {place old new}, gap place old new -> Recast old new) :
    IsSafe fun slot => gap slot.place :=
  isSafe_of_places (fun related _ => recast related) fun related => (recast related).kept_of_recast

theorem isSafe_copied : IsSafe fun slot => SameSpace slot.place :=
  isSafe_of_recast recast_of_sameSpace

theorem isSafe_moved (style : IndentStyle) : IsSafe fun slot => Moved style slot.place := by
  refine isSafe_of_places ?_ ?_
  · intro place old new moved isInner
    rcases moved with rfl | ⟨column, rfl⟩
    · exact recast_refl _
    · rw [unindented, if_neg isInner.1]
      exact recast_indentTo style column old
  · intro place old new moved
    rcases moved with rfl | ⟨column, rfl⟩
    · exact (recast_refl _).kept_of_recast
    · have moved := (recast_indentTo style column (unindented place old)).kept_of_recast
      have kept : SpaceKept old (unindented place old) := by
        unfold unindented
        split
        · exact kept_withoutWhitespace old
        · exact (recast_refl old).kept_of_recast
      exact kept.trans moved

/-- Spacing leaves a space alone, or replaces blanks. -/
theorem updateSpace_cases
    (wanted : Bool)
    (space : Space) :
    updateSpace wanted space = space ∨
      space.comments = [] ∧ updateSpace wanted space = if wanted then .single else .empty := by
  unfold updateSpace
  split
  · next blanks =>
      rw [Bool.and_eq_true, decide_eq_true_eq] at blanks
      exact .inr ⟨blanks.1, rfl⟩
  · exact .inl rfl

/-- Spacing is safe; the conditions on a tree say where a blank has to stay. -/
theorem isSafe_respaced : IsSafe Respaced := by
  have isGapTo {final : Bool} (wanted : Bool) : Space.IsGapTo final (if wanted then .single else .empty) := by
    cases wanted
    · exact Space.isGapTo_empty final
    · exact ⟨rfl, trivial, rfl, nofun⟩
  have noComment (wanted : Bool) : (if wanted then Space.single else .empty).comments = [] := by
    cases wanted <;> rfl
  have updated (slot : Slot) (space : Space) : respace slot space = space ∨ space.comments = [] ∧
      exists wanted, slot.blank = some wanted ∧ respace slot space = if wanted then .single else .empty := by
    unfold respace
    split
    · exact .inl rfl
    · next wanted blank =>
        exact (updateSpace_cases wanted space).imp_right fun changed => ⟨changed.1, wanted, blank, changed.2⟩
  have isGap {slot : Slot} {old new : Space} {final : Bool} (related : Respaced slot old new)
      (isGap : old.IsGapTo final) : new.IsGapTo final := by
    obtain same | ⟨-, wanted, -, same⟩ := updated slot old
    · rwa [related, same]
    · rw [related, same]
      exact isGapTo wanted
  refine ⟨⟨fun related _ => isGap related, fun related _ => isGap related, ?_, ?_, ?_⟩, ?_⟩
  · intro slot old new related _ alone
    rw [related, respace, alone]
  · intro slot old new related _ noBlank isEmpty
    obtain same | ⟨-, wanted, blank, same⟩ := updated slot old
    · rwa [related, same]
    · rw [related, same]
      cases wanted
      · rfl
      · exact absurd blank noBlank
  · intro slot old new related _ starts
    obtain same | ⟨-, wanted, -, same⟩ := updated slot old
    · rwa [related, same]
    · rw [related, same, Space.startsComment, noComment]
      simp
  · intro slot old new related
    obtain same | ⟨none, wanted, -, same⟩ := updated slot old
    · rw [related, same]
    · rw [related, same, none, noComment]

end Format
end Lossless
