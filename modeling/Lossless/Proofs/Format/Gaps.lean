import Lossless.Format.Pass
import Lossless.Format.Spacing
import Lossless.Proofs.Format.CommentBody
import Lossless.Proofs.Format.Exact
import Mathlib.Data.List.Forall2

/-!
# What the passes make of gaps

A pass rewrites a space text by text: its whitespace, the whitespace behind each comment, and the texts of block
comments. Kinds and markers of the comments stay, and so does what a scanner needs to read the gap back.
-/

namespace Lossless

namespace Format

open Text

/-! ## Rewriting -/

section Rewriting

variable (whitespace body : Text -> Text -> Prop)

/-- Comments of one kind with related texts; the texts of line comments are the same. -/
structure RewrittenComment (old new : Comment) : Prop where
  isBlock : new.isBlock = old.isBlock
  markers : new.markers = old.markers
  line : old.isBlock = false -> new.text = old.text
  body : old.isBlock = true -> body old.text new.text
  suffix : whitespace old.suffix new.suffix

/-- Spaces with related texts. -/
structure Rewritten (old new : Space) : Prop where
  leading : whitespace old.whitespace new.whitespace
  comments : List.Forall₂ (RewrittenComment whitespace body) old.comments new.comments

end Rewriting

/-- What is made of whitespace stays whitespace. -/
def KeepsWhitespace (old new : Text) : Prop :=
  old.IsWhitespace -> WhitespaceKept old new

/-- What is made of the text of a block comment can stand in one, too. -/
def KeepsBody (old new : Text) : Prop :=
  IsBody old -> IsBody new

/-- Texts of block comments that differ in blanks at the starts of lines and in line breaks. -/
def SameBody (old new : Text) : Prop :=
  bodyLines new = bodyLines old

section Rewritten

variable {whitespace whitespace' body body' : Text -> Text -> Prop}
variable {old new : Space} {final : Bool}

theorem RewrittenComment.mono
    {old new : Comment}
    (whitespaces : forall old new, whitespace old new -> whitespace' old new)
    (bodies : forall old new, body old new -> body' old new)
    (rewritten : RewrittenComment whitespace body old new) :
    RewrittenComment whitespace' body' old new :=
  ⟨rewritten.isBlock, rewritten.markers, rewritten.line, fun isBlock => bodies _ _ (rewritten.body isBlock),
    whitespaces _ _ rewritten.suffix⟩

theorem Rewritten.mono
    (whitespaces : forall old new, whitespace old new -> whitespace' old new)
    (bodies : forall old new, body old new -> body' old new)
    (rewritten : Rewritten whitespace body old new) :
    Rewritten whitespace' body' old new :=
  ⟨whitespaces _ _ rewritten.leading, rewritten.comments.imp fun _ _ => .mono whitespaces bodies⟩

/-- A rewritten comment can stand where the old one stood. -/
theorem RewrittenComment.isClosed
    {old new : Comment}
    (rewritten : RewrittenComment KeepsWhitespace KeepsBody old new)
    (paired : old.IsPaired)
    (closed : old.IsClosed final) :
    new.IsClosed final ∧ new.IsPaired := by
  obtain ⟨blank, noMarkers, contained, ended⟩ := closed
  have suffix := rewritten.suffix ⟨blank, paired.2⟩
  have text : new.isContained = true ∧ new.text.hasPairedReturns = true := by
    unfold Comment.isContained at contained ⊢
    rw [rewritten.isBlock]
    cases isBlock : old.isBlock with
    | true =>
        rw [isBlock, if_pos rfl] at contained
        have kept := rewritten.body isBlock ⟨paired.1, contained⟩
        exact ⟨kept.noClosing, kept.paired⟩
    | false =>
        rw [isBlock, if_neg (by simp)] at contained
        rw [rewritten.line isBlock]
        exact ⟨contained, paired.1⟩
  refine ⟨⟨suffix.isWhitespace.1, rewritten.markers.trans noMarkers, text.1, ?_⟩, text.2, suffix.isWhitespace.2⟩
  rcases ended with ended | ⟨isLast, atEnd⟩
  · left
    unfold Comment.isEnded at ended ⊢
    rw [rewritten.isBlock]
    rw [Bool.or_eq_true] at ended ⊢
    exact ended.imp_right suffix.startsBreak
  · refine .inr ⟨isLast, .inl (suffix.nil ?_)⟩
    rcases atEnd with none | only
    · exact none
    · have torn := paired.2
      rw [only] at torn
      cases torn

theorem allClosed_of_rewritten
    {olds news : List Comment}
    (rewritten : List.Forall₂ (RewrittenComment KeepsWhitespace KeepsBody) olds news)
    (paired : forall comment, comment ∈ olds -> comment.IsPaired)
    (closed : Comment.AllClosed final olds) :
    Comment.AllClosed final news ∧ forall comment, comment ∈ news -> comment.IsPaired := by
  induction rewritten with
  | nil => exact ⟨trivial, nofun⟩
  | cons first others ih =>
      obtain ⟨pairedHere, pairedLater⟩ := List.forall_mem_cons.1 paired
      obtain ⟨closedNew, pairedNew⟩ := ih pairedLater closed.2
      have sameEnd := others.length_eq
      obtain ⟨closedFirst, pairedFirst⟩ := first.isClosed pairedHere closed.1
      refine ⟨⟨?_, closedNew⟩, List.forall_mem_cons.2 ⟨pairedFirst, pairedNew⟩⟩
      cases others with
      | nil => exact closedFirst
      | cons => exact closedFirst

/-- A rewritten gap is a gap. -/
theorem Rewritten.isGapTo
    (rewritten : Rewritten KeepsWhitespace KeepsBody old new)
    (isGap : old.IsGapTo final) :
    new.IsGapTo final := by
  have whitespace := rewritten.leading ⟨isGap.blank, isGap.paired.1⟩
  obtain ⟨closed, paired⟩ := allClosed_of_rewritten rewritten.comments isGap.paired.2 isGap.closed
  exact ⟨whitespace.isWhitespace.1, closed, whitespace.isWhitespace.2, paired⟩

/-- Whether the space is empty depends on whether its texts are. -/
theorem Rewritten.isEmpty_eq
    (rewritten : Rewritten SameShape body old new) :
    new.isEmpty = old.isEmpty ∧ new.startsComment = old.startsComment := by
  have whitespace : new.whitespace.isEmpty = old.whitespace.isEmpty := by
    rw [Bool.eq_iff_iff, List.isEmpty_iff, List.isEmpty_iff]
    exact rewritten.leading.eq_nil_iff
  have comments : new.comments.isEmpty = old.comments.isEmpty := by
    rw [Bool.eq_iff_iff, List.isEmpty_iff, List.isEmpty_iff, List.eq_nil_iff_length_eq_zero,
      List.eq_nil_iff_length_eq_zero, rewritten.comments.length_eq]
  rw [Space.isEmpty, Space.isEmpty, Space.startsComment, Space.startsComment, whitespace, comments]
  exact ⟨rfl, rfl⟩

/-- A comment without the blanks and line ends that formatting can change in it. -/
def contentOf (comment : Comment) : Bool × List Text :=
  (comment.isBlock, if comment.isBlock then bodyLines comment.text else [comment.text])

theorem RewrittenComment.content_eq
    {old new : Comment}
    (rewritten : RewrittenComment whitespace SameBody old new) :
    contentOf new = contentOf old := by
  unfold contentOf
  rw [rewritten.isBlock]
  cases isBlock : old.isBlock with
  | true =>
      have same : bodyLines new.text = bodyLines old.text := rewritten.body isBlock
      rw [if_pos rfl, if_pos rfl, same]
  | false => rw [if_neg (by simp), if_neg (by simp), rewritten.line isBlock]

/-- Rewriting leaves the comments alone but for blanks and line ends inside them. -/
theorem Rewritten.contents_eq
    (rewritten : Rewritten whitespace SameBody old new) :
    new.comments.map contentOf = old.comments.map contentOf := by
  have comments {olds news : List Comment}
      (rewritten : List.Forall₂ (RewrittenComment whitespace SameBody) olds news) :
      news.map contentOf = olds.map contentOf := by
    induction rewritten with
    | nil => rfl
    | cons first _ ih => rw [List.map_cons, List.map_cons, first.content_eq, ih]
  exact comments rewritten.comments

end Rewritten

/-! ## Operations that rewrite -/

section Operations

variable {whitespace body : Text -> Text -> Prop}

/-- A list of comments that is equal as values to one with the same markers is that list. -/
theorem eq_of_listAgrees
    {left right : List Comment}
    (markers : left.map (fun comment => comment.markers) = right.map fun comment => comment.markers)
    (agrees : Comment.listAgrees left right = true) :
    left = right := by
  induction left generalizing right with
  | nil =>
      cases right with
      | nil => rfl
      | cons => cases agrees
  | cons first rest ih =>
      cases right with
      | nil => cases agrees
      | cons second more =>
          rw [List.map_cons, List.map_cons, List.cons.injEq] at markers
          rw [Comment.listAgrees, Bool.and_eq_true] at agrees
          have same : first = second := by
            obtain ⟨isBlock, text, suffix, firstMarkers⟩ := first
            obtain ⟨isBlock', text', suffix', secondMarkers⟩ := second
            have fields := agrees.1
            simp only [Comment.agrees, Bool.and_eq_true, decide_eq_true_eq] at fields
            obtain ⟨⟨⟨rfl, rfl⟩, rfl⟩, -⟩ := fields
            obtain rfl : firstMarkers = secondMarkers := markers.1
            rfl
          rw [same, ih markers.2 agrees.2]

theorem comments_withComments
    {space : Space}
    {comments : List Comment}
    (markers : comments.map (fun comment => comment.markers) = space.comments.map fun comment => comment.markers) :
    (space.withComments comments).comments = comments := by
  unfold Space.withComments
  split
  · next agrees => exact (eq_of_listAgrees markers agrees).symm
  · exact Space.comments_build ..

@[simp] theorem whitespace_withComments
    (space : Space)
    (comments : List Comment) :
    (space.withComments comments).whitespace = space.whitespace := by
  unfold Space.withComments
  split
  · rfl
  · exact Space.whitespace_build ..

@[simp] theorem whitespace_withWhitespace
    (space : Space)
    (whitespace : Text) :
    (space.withWhitespace whitespace).whitespace = whitespace := by
  unfold Space.withWhitespace
  split
  · next same => exact same.symm
  · exact Space.whitespace_build ..

@[simp] theorem comments_withWhitespace
    (space : Space)
    (whitespace : Text) :
    (space.withWhitespace whitespace).comments = space.comments := by
  unfold Space.withWhitespace
  split
  · rfl
  · exact Space.comments_build ..

/-- Changing comments one by one rewrites the space. -/
theorem rewritten_map
    {space new : Space}
    {change : Comment -> Comment}
    (leading : whitespace space.whitespace new.whitespace)
    (comments : new.comments = space.comments.map change)
    (each : forall comment, RewrittenComment whitespace body comment (change comment)) :
    Rewritten whitespace body space new := by
  refine ⟨leading, ?_⟩
  rw [comments, List.forall₂_map_right_iff]
  exact List.forall₂_same.2 fun comment _ => each comment

theorem mapWhitespace_comments
    (change : Text -> Text)
    (space : Space) :
    (space.mapWhitespace change).comments = space.comments.map fun comment =>
      { comment with suffix := change comment.suffix } := by
  unfold Space.mapWhitespace
  refine comments_withComments ?_
  rw [comments_withWhitespace, List.map_map]
  rfl

theorem mapWhitespace_whitespace
    (change : Text -> Text)
    (space : Space) :
    (space.mapWhitespace change).whitespace = change space.whitespace := by
  unfold Space.mapWhitespace
  rw [whitespace_withComments, whitespace_withWhitespace]

theorem listAgrees_self (comments : List Comment) : Comment.listAgrees comments comments = true := by
  induction comments with
  | nil => rfl
  | cons first rest ih => simp [Comment.listAgrees, Comment.agrees, Markers.agrees, ih]

/-- A space none of whose whitespace changes is the same cell. -/
theorem mapWhitespace_of_stays
    {change : Text -> Text}
    {space : Space}
    (leading : change space.whitespace = space.whitespace)
    (suffixes : forall comment, comment ∈ space.comments -> change comment.suffix = comment.suffix) :
    space.mapWhitespace change = space := by
  have comments : (space.comments.map fun comment => { comment with suffix := change comment.suffix }) =
      space.comments :=
    (List.map_congr_left fun comment member => by rw [suffixes comment member]; rfl).trans (List.map_id _)
  rw [Space.mapWhitespace, leading, comments, Space.withWhitespace, if_pos rfl, Space.withComments,
    if_pos (listAgrees_self _)]

/-- Changing all whitespace of a space rewrites it. -/
theorem mapWhitespace_rewrites
    {change : Text -> Text}
    (whitespaces : forall text, whitespace text (change text))
    (bodies : forall text, body text text)
    (space : Space) :
    Rewritten whitespace body space (space.mapWhitespace change) := by
  refine rewritten_map ?_ (mapWhitespace_comments change space) fun comment => ?_
  · rw [mapWhitespace_whitespace]
    exact whitespaces _
  · exact ⟨rfl, rfl, fun _ => rfl, fun _ => bodies _, whitespaces _⟩

/-- A comment whose line breaks are made alike, those inside a block comment included. -/
def alikeComment
    (useCrlf : Bool)
    (comment : Comment) : Comment :=
  { comment with
    text := if comment.isBlock then normalizeNewLines useCrlf comment.text else comment.text
    suffix := normalizeNewLines useCrlf comment.suffix }

theorem normalizeLineBreaks_comments
    (useCrlf : Bool)
    (space : Space) :
    (normalizeLineBreaks useCrlf space).comments = space.comments.map (alikeComment useCrlf) := by
  have alike (comment : Comment) :
      (if comment.isBlock then { comment with text := normalizeNewLines useCrlf comment.text } else comment) =
        { comment with text := if comment.isBlock then normalizeNewLines useCrlf comment.text else comment.text } := by
    split <;> rfl
  unfold normalizeLineBreaks
  simp only [alike]
  rw [comments_withComments]
  · rw [mapWhitespace_comments, List.map_map]
    rfl
  · rw [List.map_map]
    rfl

theorem normalizeLineBreaks_whitespace
    (useCrlf : Bool)
    (space : Space) :
    (normalizeLineBreaks useCrlf space).whitespace = normalizeNewLines useCrlf space.whitespace := by
  rw [normalizeLineBreaks, whitespace_withComments, mapWhitespace_whitespace]

/-- Making line breaks alike rewrites a space. -/
theorem normalizeLineBreaks_rewrites
    {useCrlf : Bool}
    (whitespaces : forall text, whitespace text (normalizeNewLines useCrlf text))
    (bodies : forall text, body text (normalizeNewLines useCrlf text))
    (space : Space) :
    Rewritten whitespace body space (normalizeLineBreaks useCrlf space) := by
  refine rewritten_map ?_ (normalizeLineBreaks_comments useCrlf space) fun comment => ?_
  · rw [normalizeLineBreaks_whitespace]
    exact whitespaces _
  · refine ⟨rfl, rfl, fun isLine => ?_, fun isBlock => ?_, whitespaces _⟩
    · rw [alikeComment, isLine]
      rfl
    · rw [alikeComment, isBlock]
      exact bodies _

section Indentation

variable {style : IndentStyle} {column : Nat}
variable (whitespaces : forall text, whitespace text text ∧ whitespace text (shiftWhitespace style column text))
variable (bodies : forall text, body text text ∧ forall source, body text (shiftCommentBody source column text))

include whitespaces bodies

/-- Moving comments to a column rewrites them, and the whitespace before the first one. -/
theorem indentComments_rewrites
    (leading : Text)
    (comments : List Comment) :
    whitespace leading (Exact.indentComments style column leading comments).1 ∧
      List.Forall₂ (RewrittenComment whitespace body) comments (Exact.indentComments style column leading comments).2 := by
  induction comments generalizing leading with
  | nil => exact ⟨(whitespaces leading).2, .nil⟩
  | cons first rest ih =>
      obtain ⟨suffix, others⟩ := ih first.suffix
      rw [Exact.indentComments]
      refine ⟨?_, .cons ⟨rfl, rfl, fun isLine => ?_, fun isBlock => ?_, suffix⟩ others⟩
      · dsimp only
        split
        · exact (whitespaces leading).1
        · exact (whitespaces leading).2
      · dsimp only
        rw [isLine, if_neg (by simp)]
      · dsimp only
        split
        · exact (bodies first.text).2 _
        · exact (bodies first.text).1

/-- Moving what follows a space to a column rewrites the space. -/
theorem indentTo_rewrites (space : Space) : Rewritten whitespace body space (Exact.indentTo style column space) := by
  have same (comment : Comment) : RewrittenComment whitespace body comment comment :=
    ⟨rfl, rfl, fun _ => rfl, fun _ => (bodies _).1, (whitespaces _).1⟩
  unfold Exact.indentTo
  split
  · exact ⟨(whitespaces _).1, List.forall₂_same.2 fun comment _ => same comment⟩
  · split
    · refine ⟨?_, ?_⟩
      · rw [whitespace_withWhitespace]
        exact (whitespaces _).2
      · rw [comments_withWhitespace]
        exact List.forall₂_same.2 fun comment _ => same comment
    · obtain ⟨leading, comments⟩ := indentComments_rewrites whitespaces bodies space.whitespace space.comments
      refine ⟨?_, ?_⟩
      · rw [Space.whitespace_build]
        exact leading
      · rw [Space.comments_build]
        exact comments

end Indentation

end Operations

end Format

/-!
## The space after a trailing comma

A pass that spaces or indents lists changes the suffix of the first trailing comma of a marker set. That suffix is
then the changed one, and a change that makes no more of its own result leaves the markers alone the second time.
-/

/-! ### Markers -/

section Markers

variable {α : Type} {select : Fact Space -> Option α}

/-- What the markers of a kind say, once the first one has been changed. -/
theorem filterMap_changeFirst
    {change : Marker Space -> Marker Space}
    {said : α}
    {list changed : List (Marker Space)}
    (tells : forall marker, select (change marker).fact = some said)
    (changes : Markers.changeFirst? select change list = some changed) :
    (changed.filterMap fun marker => select marker.fact) =
      (list.filterMap fun marker => select marker.fact).modifyHead fun _ => said := by
  induction list generalizing changed with
  | nil => cases changes
  | cons first rest ih =>
      rw [Markers.changeFirst?] at changes
      cases isFirst : select first.fact with
      | some old =>
          rw [isFirst, if_pos (Option.isSome_some ..)] at changes
          rw [← Option.some.inj changes, List.filterMap_cons, List.filterMap_cons, isFirst, tells]
          rfl
      | none =>
          rw [isFirst, if_neg (by simp)] at changes
          obtain ⟨others, atOthers, rfl⟩ := Option.map_eq_some_iff.1 changes
          rw [List.filterMap_cons, List.filterMap_cons, isFirst, ih atOthers]

/-- There is nothing to change when no marker is of the kind. -/
theorem changeFirst?_isSome
    {change : Marker Space -> Marker Space}
    {list : List (Marker Space)}
    {marker : Marker Space}
    (found : list.find? (fun marker => (select marker.fact).isSome) = some marker) :
    ∃ changed, Markers.changeFirst? select change list = some changed := by
  induction list with
  | nil => cases found
  | cons first rest ih =>
      rw [List.find?_cons] at found
      rw [Markers.changeFirst?]
      split
      · exact ⟨_, rfl⟩
      · next other =>
          rw [Bool.not_eq_true] at other
          rw [other] at found
          obtain ⟨changed, atRest⟩ := ih found
          exact ⟨_, by rw [atRest]; rfl⟩

end Markers

namespace Format

open Java

/-- Setting the suffix of the first trailing comma changes that suffix, and no other. -/
theorem findAll_updateTrailingComma
    (change : Space -> Space)
    (markers : Markers Space) :
    (updateTrailingComma change markers).findAll Fact.trailingComma? =
      (markers.findAll Fact.trailingComma?).modifyHead change := by
  have head : (markers.findAll Fact.trailingComma?).head? = markers.findFirst? Fact.trailingComma? := List.head?_filterMap
  unfold updateTrailingComma
  cases found : markers.toList.find? fun marker => marker.fact.trailingComma?.isSome with
  | none =>
      have none : markers.findAll Fact.trailingComma? = [] :=
        List.filterMap_eq_nil_iff.2 fun marker member => by simpa using List.find?_eq_none.1 found marker member
      dsimp only
      rw [none]
      rfl
  | some comma =>
      have said : markers.findFirst? Fact.trailingComma? = comma.fact.trailingComma? := findSome?_of_find? found
      have isComma : comma.fact.trailingComma?.isSome = true := by simpa using List.find?_some found
      obtain ⟨suffix, tells⟩ := Option.isSome_iff_exists.1 isComma
      have fact : comma.fact = .trailingComma suffix := by
        revert tells
        cases comma.fact <;> simp [Fact.trailingComma?]
      rw [said, tells] at head
      obtain ⟨others, all⟩ := List.head?_eq_some_iff.1 head
      dsimp only
      rw [fact]
      dsimp only
      split
      · next same => rw [all, List.modifyHead_cons, same]
      · obtain ⟨changed, changes⟩ : ∃ changed, Markers.changeFirst? Fact.trailingComma?
            (fun _ => { comma.withFact (.trailingComma (change suffix)) with stamp := .pending }) markers.toList =
              some changed := changeFirst?_isSome found
        have list : (changed.filterMap fun marker => marker.fact.trailingComma?) =
            (markers.findAll Fact.trailingComma?).modifyHead fun _ => change suffix :=
          filterMap_changeFirst (fun _ => rfl) changes
        rw [Markers.setByKind, Markers.computeByKind, changes, Markers.findAll, Markers.toList_withMarkers, list]
        rw [all]
        rfl

theorem findFirst?_updateTrailingComma
    (change : Space -> Space)
    (markers : Markers Space) :
    (updateTrailingComma change markers).findFirst? Fact.trailingComma? =
      (markers.findFirst? Fact.trailingComma?).map change := by
  have first (markers : Markers Space) :
      markers.findFirst? Fact.trailingComma? = (markers.findAll Fact.trailingComma?).head? := List.head?_filterMap.symm
  rw [first, first, findAll_updateTrailingComma, List.head?_modifyHead]

/-- A change that makes no more of its own result makes no more of the markers. -/
theorem updateTrailingComma_updateTrailingComma
    {change : Space -> Space}
    (again : forall space, change (change space) = change space)
    (markers : Markers Space) :
    updateTrailingComma change (updateTrailingComma change markers) = updateTrailingComma change markers := by
  refine updateTrailingComma_of_stays fun suffix said => ?_
  rw [findFirst?_updateTrailingComma] at said
  obtain ⟨old, -, rfl⟩ := Option.map_eq_some_iff.1 said
  exact again old

end Format

end Lossless
