import Lossless.Proofs.Java.Form
import Lossless.Proofs.Java.Renaming
import Lossless.Proofs.Java.Written
import Lossless.Proofs.Piece
import Lossless.Proofs.Visit.Walk
import Mathlib.Data.List.Forall2

/-!
# Bare trees

What is left of a tree without its gaps, and what that is printed as.
-/

namespace Lossless

/-!
## Trees without their gaps

What is left of a tree without its spaces, and without the suffixes of trailing commas, is bare. Two trees that
are the same bare have the same kinds, identifiers, names, texts, type annotations and markers throughout, and
differ in their gaps alone. A walk that changes gaps and nothing else leaves the bare tree as it is.
-/

section Bare

variable {α β : Type}

/-! ### Bare trees -/

/-- The marker as a new cell, without the space that it keeps. -/
def Marker.bare (marker : Marker Space) : Marker Space :=
  match marker.fact with
  | .trailingComma _ => ⟨.pending, marker.id, .trailingComma .empty⟩
  | fact => ⟨.pending, marker.id, fact⟩

/-- The markers as new cells, without the spaces that they keep. -/
def Markers.bare (markers : Markers Space) : Markers Space :=
  ⟨.pending, markers.id, markers.toList.map Marker.bare⟩

/-- The head as a new cell, without its space. -/
def Head.bare (head : Head) : Head :=
  ⟨.pending, head.id, .empty, head.markers.bare⟩

def RightPadded.bare (padded : RightPadded α) : RightPadded α :=
  ⟨padded.element, .empty, padded.markers.bare⟩

def LeftPadded.bare (padded : LeftPadded α) : LeftPadded α :=
  ⟨.empty, padded.element, padded.markers.bare⟩

def Container.bare (list : Container α) : Container α :=
  ⟨.empty, list.padded.map RightPadded.bare, list.markers.bare⟩

namespace Java

/-- The form without its spaces. -/
def Form.bare : Form α -> Form α
  | compilationUnit dialect source statements _ =>
      .compilationUnit dialect source (statements.map RightPadded.bare) .empty
  | block statements _ => .block (statements.map RightPadded.bare) .empty
  | conditional condition consequence alternative =>
      .conditional condition consequence.bare alternative
  | otherwise body => .otherwise body.bare
  | returns value => .returns value
  | assignment target value typeTag => .assignment target value.bare typeTag
  | binary left operator right typeTag => .binary left operator.bare right typeTag
  | identifier name typeTag => .identifier name typeTag
  | literal source typeTag => .literal source typeTag
  | fieldAccess target name typeTag => .fieldAccess target name.bare typeTag
  | call receiver name arguments typeTag =>
      .call (receiver.map RightPadded.bare) name arguments.bare typeTag
  | declaration returnType name parameters body =>
      .declaration returnType name parameters.bare body
  | parentheses inner => .parentheses inner.bare
  | collection kind elements typeTag => .collection kind elements.bare typeTag
  | empty => .empty
  | unknown text => .unknown text

namespace Tree

/-- The tree without its spaces, all of its nodes and markers as new cells of the same identifiers. -/
def bare (tree : Tree) : Tree :=
  recurse (fun head form => node head.bare (form.map Prod.snd).bare) tree

theorem bare_node
    (head : Head)
    (form : Form Tree) :
    (node head form).bare = node head.bare (form.map bare).bare := by
  rw [bare, recurse_node, Form.map_map]
  rfl

theorem bare_eq (tree : Tree) : tree.bare = node tree.head.bare (tree.form.map bare).bare := by
  obtain ⟨head, form⟩ := tree
  exact bare_node head form

end Tree

/-! ### Related gaps -/

/-- The spaces of printed pieces with their places. -/
abbrev Gaps := List (SpacePlace × Space)

/-- A relation of the gaps of parts that is one of the gaps of the whole. -/
structure IsGapRelation (relates : Gaps -> Gaps -> Prop) : Prop where
  refl : forall gaps, relates gaps gaps
  trans : forall {first second third}, relates first second -> relates second third -> relates first third
  append : forall {old new oldMore newMore}, relates old new -> relates oldMore newMore ->
    relates (old ++ oldMore) (new ++ newMore)

/-- Trees that are the same bare, with related gaps. -/
structure Regapped
    (relates : Gaps -> Gaps -> Prop)
    (old new : Tree) : Prop where
  bare : new.bare = old.bare
  gaps : forall dialect, relates (Piece.spaces (old.pieces dialect)) (Piece.spaces (new.pieces dialect))

section Parts

variable (gap : SpacePlace -> Space -> Space -> Prop)
variable (child closes : Tree -> Tree -> Prop)

/-- Markers that are the same bare, with related suffixes of the trailing commas that are printed. -/
structure RegappedMarkers (old new : Markers Space) : Prop where
  bare : new.bare = old.bare
  suffix : Option.Rel (gap .trailingCommaSuffix)
    (old.findFirst? Fact.trailingComma?) (new.findFirst? Fact.trailingComma?)

structure RegappedPadded
    (place : ElementPlace)
    (old new : RightPadded Tree) : Prop where
  element : child old.element new.element
  after : gap place.after old.after new.after
  markers : RegappedMarkers gap old.markers new.markers

structure RegappedOperand
    (place : OperandPlace)
    (old new : LeftPadded Tree) : Prop where
  before : gap place.before old.before new.before
  element : child old.element new.element
  markers : RegappedMarkers gap old.markers new.markers

structure RegappedContainer
    (place : ContainerPlace)
    (old new : Container Tree) : Prop where
  before : gap place.before old.before new.before
  padded : List.Forall₂ (RegappedPadded gap child place.element) old.padded new.padded
  markers : RegappedMarkers gap old.markers new.markers

/-- How a walk relates parts when all it changes is gaps. -/
def regapping : WalkRelation where
  space := fun place _ old _ new => gap place old new
  markers := fun _ old _ new => RegappedMarkers gap old new
  child := fun _ old _ new => child old new
  list := fun place _ old _ new => RegappedContainer gap child place old new
  opens := fun _ _ _ => True
  closes := fun _ old _ new => closes old new

end Parts

/-! ### Parts of walks -/

section Walked

variable {gap : SpacePlace -> Space -> Space -> Prop}
variable {child closes : Tree -> Tree -> Prop}
variable {view left : View}

theorem regappedPadded_of_walked
    {place : ElementPlace}
    {old new : RightPadded Tree}
    (walked : WalkedElement (regapping gap child closes) place view old left new) :
    RegappedPadded gap child place old new := by
  cases walked with
  | mk element after markers => exact ⟨element, after, markers⟩

theorem regappedElements_of_walked
    {place : ElementPlace}
    {old new : List (RightPadded Tree)}
    (walked : WalkedElements (regapping gap child closes) place view old left new) :
    List.Forall₂ (RegappedPadded gap child place) old new := by
  induction walked with
  | nil => exact .nil
  | cons first _ ih => exact .cons (regappedPadded_of_walked first) ih

theorem regappedOperand_of_walked
    {place : OperandPlace}
    {old new : LeftPadded Tree}
    (walked : WalkedOperand (regapping gap child closes) place view old left new) :
    RegappedOperand gap child place old new := by
  cases walked with
  | mk before element markers => exact ⟨before, element, markers⟩

theorem regappedContainer_of_walked
    {place : ContainerPlace}
    {old new : Container Tree}
    (walked : WalkedContainer (regapping gap child closes) place view old left new) :
    RegappedContainer gap child place old new := by
  cases walked with
  | mk before elements markers => exact ⟨before, regappedElements_of_walked elements, markers⟩

end Walked

/-! ### Bare parts -/

section Bare

variable {gap : SpacePlace -> Space -> Space -> Prop}
variable {child closes : Tree -> Tree -> Prop}

/-- Among what is related are only trees that are the same bare. -/
def KeepsBare
    (child : Tree -> Tree -> Prop)
    (trees : List Tree) : Prop :=
  forall tree, tree ∈ trees -> forall new, child tree new -> new.bare = tree.bare

theorem RegappedPadded.bare_eq
    {place : ElementPlace}
    {old new : RightPadded Tree}
    (related : RegappedPadded gap child place old new)
    (element : new.element.bare = old.element.bare) :
    (new.map Tree.bare).bare = (old.map Tree.bare).bare := by
  simp [RightPadded.bare, element, related.markers.bare]

theorem bare_elements
    {place : ElementPlace}
    {olds news : List (RightPadded Tree)}
    (related : List.Forall₂ (RegappedPadded gap child place) olds news)
    (keeps : KeepsBare child (RightPadded.elements olds)) :
    (news.map (·.map Tree.bare)).map RightPadded.bare = (olds.map (·.map Tree.bare)).map RightPadded.bare := by
  induction related with
  | nil => rfl
  | cons first _ ih =>
      obtain ⟨here, later⟩ := List.forall_mem_cons.1 keeps
      simp only [List.map_cons, ih later, first.bare_eq (here _ first.element)]

theorem RegappedOperand.bare_eq
    {place : OperandPlace}
    {old new : LeftPadded Tree}
    (related : RegappedOperand gap child place old new)
    (element : new.element.bare = old.element.bare) :
    (new.map Tree.bare).bare = (old.map Tree.bare).bare := by
  simp [LeftPadded.bare, element, related.markers.bare]

theorem RegappedContainer.bare_eq
    {place : ContainerPlace}
    {old new : Container Tree}
    (related : RegappedContainer gap child place old new)
    (keeps : KeepsBare child old.elements) :
    (new.map Tree.bare).bare = (old.map Tree.bare).bare := by
  simp only [Container.bare, Container.padded_map, Container.markers_map, bare_elements related.padded keeps,
    related.markers.bare]

theorem bare_option
    {view left : View}
    {old new : Option Tree}
    (walked : WalkedOption (regapping gap child closes).child view old left new)
    (keeps : KeepsBare child old.toList) :
    new.map Tree.bare = old.map Tree.bare := by
  cases walked with
  | none => rfl
  | some related => exact congrArg some (keeps _ (by simp) _ related)

theorem bare_receiver
    {view left : View}
    {old new : Option (RightPadded Tree)}
    (walked : WalkedOption (WalkedElement (regapping gap child closes) .methodSelect) view old left new)
    (keeps : KeepsBare child (old.map (·.element)).toList) :
    (new.map (·.map Tree.bare)).map RightPadded.bare = (old.map (·.map Tree.bare)).map RightPadded.bare := by
  cases walked with
  | none => rfl
  | some element =>
      have related := regappedPadded_of_walked element
      exact congrArg some (related.bare_eq (keeps _ (by simp) _ related.element))

/-- A walk that keeps the children bare keeps the form bare. -/
theorem bare_of_walked
    {view left : View}
    {old new : Form Tree}
    (walked : WalkedForm (regapping gap child closes) view old left new)
    (keeps : KeepsBare child old.children) :
    (new.map Tree.bare).bare = (old.map Tree.bare).bare := by
  have among {trees : List Tree} (within : forall tree, tree ∈ trees -> tree ∈ old.children) :
      KeepsBare child trees :=
    fun tree member => keeps tree (within tree member)
  cases walked with
  | compilationUnit statements _ =>
      simp only [Form.map, Form.bare, bare_elements (regappedElements_of_walked statements) keeps]
  | block statements _ =>
      simp only [Form.map, Form.bare, bare_elements (regappedElements_of_walked statements) keeps]
  | conditional condition consequence alternative =>
      have body := regappedPadded_of_walked consequence
      simp only [Form.map, Form.bare, keeps _ (by simp [Form.children]) _ condition,
        body.bare_eq (keeps _ (by simp [Form.children]) _ body.element),
        bare_option alternative (among (by simp_all [Form.children]))]
  | otherwise walkedBody =>
      have body := regappedPadded_of_walked walkedBody
      simp only [Form.map, Form.bare, body.bare_eq (keeps _ (by simp [Form.children]) _ body.element)]
  | returns value => simp only [Form.map, Form.bare, bare_option value keeps]
  | assignment target walkedValue =>
      have value := regappedOperand_of_walked walkedValue
      simp only [Form.map, Form.bare, keeps _ (by simp [Form.children]) _ target,
        value.bare_eq (keeps _ (by simp [Form.children]) _ value.element)]
  | binary leftTree operator right =>
      cases operator with
      | mk _ markers =>
          have same := markers.bare
          simp only [Form.map, Form.bare, LeftPadded.bare, keeps _ (by simp [Form.children]) _ leftTree,
            keeps _ (by simp [Form.children]) _ right, same]
  | identifier => rfl
  | literal => rfl
  | fieldAccess target walkedName =>
      have name := regappedOperand_of_walked walkedName
      simp only [Form.map, Form.bare, keeps _ (by simp [Form.children]) _ target,
        name.bare_eq (keeps _ (by simp [Form.children]) _ name.element)]
  | call receiver name list =>
      simp only [Form.map, Form.bare, bare_receiver receiver (among (by simp_all [Form.children])),
        keeps _ (by simp [Form.children]) _ name,
        RegappedContainer.bare_eq list (among (by simp_all [Form.children]))]
  | declaration returnType name list body =>
      simp only [Form.map, Form.bare, bare_option returnType (among (by simp_all [Form.children])),
        keeps _ (by simp [Form.children]) _ name,
        RegappedContainer.bare_eq list (among (by simp_all [Form.children])),
        bare_option body (among (by simp_all [Form.children]))]
  | parentheses walkedInner =>
      have inner := regappedPadded_of_walked walkedInner
      simp only [Form.map, Form.bare, inner.bare_eq (keeps _ (by simp [Form.children]) _ inner.element)]
  | collection list => simp only [Form.map, Form.bare, RegappedContainer.bare_eq list keeps]
  | empty => rfl
  | unknown => rfl

end Bare

end Java

end Bare

/-!
## What a bare tree is printed as

A bare tree is printed as the pieces of the tree, each of them bare. So trees that are the same bare are printed
with the same tokens.
-/

/-- The piece without its space. -/
def Piece.bare {π : Type} : Piece π -> Piece π
  | space place _ => .space place .empty
  | token text => .token text
  | start id markers => .start id markers.bare
  | finish id => .finish id

theorem Piece.tokens_map_bare
    {π : Type}
    (pieces : List (Piece π)) :
    tokens (pieces.map bare) = tokens pieces := by
  rw [tokens, List.filterMap_map]
  refine List.filterMap_congr fun piece _ => ?_
  cases piece <;> rfl

theorem Piece.starts_map_bare
    {π : Type}
    (pieces : List (Piece π)) :
    starts (pieces.map bare) = starts pieces := by
  rw [starts, List.filterMap_map]
  refine List.filterMap_congr fun piece _ => ?_
  cases piece <;> rfl

/-! ### Markers -/

/-- A kind of marker is found among bare markers, if every single bare marker says the changed thing. -/
theorem Markers.findFirst?_bare
    {α : Type}
    {select : Fact Space -> Option α}
    {change : α -> α}
    (each : forall marker : Marker Space, select marker.bare.fact = (select marker.fact).map change)
    (markers : Markers Space) :
    markers.bare.findFirst? select = (markers.findFirst? select).map change := by
  have among (list : List (Marker Space)) :
      (list.map Marker.bare).findSome? (fun marker => select marker.fact) =
        (list.findSome? fun marker => select marker.fact).map change := by
    induction list with
    | nil => rfl
    | cons first rest ih =>
        rw [List.map_cons, List.findSome?_cons, List.findSome?_cons, each, ih]
        cases select first.fact <;> rfl
  exact among markers.toList

theorem Markers.semicolon_bare (markers : Markers Space) :
    markers.bare.findFirst? Fact.semicolon? = markers.findFirst? Fact.semicolon? := by
  refine (findFirst?_bare (fun marker => ?_) markers).trans Option.map_id'
  unfold Marker.bare
  split
  · next isComma => rw [isComma]; rfl
  · exact Option.map_id'.symm

theorem Markers.trailingComma_bare (markers : Markers Space) :
    markers.bare.findFirst? Fact.trailingComma? = (markers.findFirst? Fact.trailingComma?).map fun _ => .empty := by
  refine findFirst?_bare (fun marker => ?_) markers
  unfold Marker.bare
  split
  · next isComma => rw [isComma]; rfl
  · next notComma => cases fact : marker.fact <;> first | rfl | exact absurd fact (notComma _)

namespace Java

open Pieces

/-! ### Parts -/

/-- A child and its pieces, bare. -/
def Pieces.Printed.bare (child : Printed) : Printed :=
  (child.1.bare, child.2.map Piece.bare)

theorem Form.isSelfTerminated_bare (tree : Tree) : tree.bare.form.isSelfTerminated = tree.form.isSelfTerminated := by
  rw [Tree.bare_eq]
  rcases tree.form with _ | _ | _ | _ | _ | _ | _ | _ | _ | _ | _ | ⟨_, _, _, body⟩ | _ | _ | _ | _
  all_goals first | rfl | cases body <;> rfl

theorem Dialect.needsSemicolon_bare
    (dialect : Dialect)
    (padded : RightPadded Tree) :
    dialect.needsSemicolon (padded.map Tree.bare).bare = dialect.needsSemicolon padded := by
  simp [needsSemicolon, RightPadded.bare, Markers.semicolon_bare, Form.isSelfTerminated_bare]

section Parts

variable (dialect : Dialect)

theorem statement_bare
    (place : ElementPlace)
    (padded : RightPadded Printed) :
    statement dialect place (padded.map Printed.bare).bare = (statement dialect place padded).map Piece.bare := by
  have semicolon : dialect.needsSemicolon ((padded.map Printed.bare).bare.map Prod.fst) =
      dialect.needsSemicolon (padded.map Prod.fst) :=
    dialect.needsSemicolon_bare (padded.map Prod.fst)
  unfold statement
  rw [semicolon]
  split <;> simp [RightPadded.bare, Printed.bare, Piece.bare, symbol]

theorem statements_bare
    (place : ElementPlace)
    (list : List (RightPadded Printed)) :
    ((list.map (·.map Printed.bare)).map RightPadded.bare).flatMap (statement dialect place) =
      (list.flatMap (statement dialect place)).map Piece.bare := by
  simp only [List.flatMap_map, List.map_flatMap, statement_bare]

theorem trailingComma_bare (markers : Markers Space) :
    trailingComma markers.bare = (trailingComma markers).map Piece.bare := by
  unfold trailingComma
  rw [Markers.trailingComma_bare]
  cases markers.findFirst? Fact.trailingComma? <;> rfl

theorem listElements_bare
    (place : ElementPlace)
    (list : List (RightPadded Printed)) :
    listElements place ((list.map (·.map Printed.bare)).map RightPadded.bare) =
      (listElements place list).map Piece.bare := by
  induction list with
  | nil => rfl
  | cons first rest ih =>
      cases rest with
      | nil => simp [listElements, RightPadded.bare, Printed.bare, trailingComma_bare, Piece.bare]
      | cons second more =>
          simp only [List.map_cons, listElements] at ih ⊢
          rw [ih]
          simp [RightPadded.bare, Printed.bare, Piece.bare, symbol]

theorem container_bare
    (place : ContainerPlace)
    (delimiters : Text × Text)
    (list : Container Printed) :
    container place delimiters (list.map Printed.bare).bare = (container place delimiters list).map Piece.bare := by
  have elements := listElements_bare place.element list.padded
  simp_all [container, Container.bare, Piece.bare]

theorem option_bare (child : Option Printed) :
    Pieces.option (child.map Printed.bare) = (Pieces.option child).map Piece.bare := by
  cases child <;> rfl

theorem receiver_bare (padded : Option (RightPadded Printed)) :
    receiver ((padded.map (·.map Printed.bare)).map RightPadded.bare) = (receiver padded).map Piece.bare := by
  cases padded with
  | none => rfl
  | some padded => simp [receiver, RightPadded.bare, Printed.bare, Piece.bare, symbol]

theorem form_bare (form : Form Printed) :
    Pieces.form dialect (form.map Printed.bare).bare = (Pieces.form dialect form).map Piece.bare := by
  cases form with
  | compilationUnit unitDialect source statements eof =>
      simp [Form.map, Form.bare, Pieces.form, statements_bare, Piece.bare, -List.map_map]
  | block statements closing =>
      cases dialect <;> simp [Form.map, Form.bare, Pieces.form, statements_bare, Piece.bare, symbol, -List.map_map]
  | conditional condition consequence alternative =>
      simp [Form.map, Form.bare, Pieces.form, statement_bare, option_bare, Piece.bare, symbol, Printed.bare]
  | otherwise body => simp [Form.map, Form.bare, Pieces.form, statement_bare, Piece.bare, symbol]
  | returns value => simp [Form.map, Form.bare, Pieces.form, option_bare, Piece.bare, symbol]
  | assignment target value typeTag =>
      simp [Form.map, Form.bare, Pieces.form, LeftPadded.bare, Printed.bare, Piece.bare, symbol]
  | binary left operator right typeTag =>
      simp [Form.map, Form.bare, Pieces.form, LeftPadded.bare, Printed.bare, Piece.bare]
  | fieldAccess target name typeTag =>
      simp [Form.map, Form.bare, Pieces.form, LeftPadded.bare, Printed.bare, Piece.bare, symbol]
  | call callee name arguments typeTag =>
      simp [Form.map, Form.bare, Pieces.form, receiver_bare, container_bare, Printed.bare, -Option.map_map]
  | declaration returnType name parameters body =>
      cases dialect <;>
        simp [Form.map, Form.bare, Pieces.form, option_bare, container_bare, Printed.bare, Piece.bare, symbol]
  | parentheses inner => simp [Form.map, Form.bare, Pieces.form, RightPadded.bare, Printed.bare, Piece.bare, symbol]
  | collection kind elements typeTag => simp [Form.map, Form.bare, Pieces.form, container_bare]
  | identifier name typeTag => rfl
  | literal source typeTag => rfl
  | empty => rfl
  | unknown text => rfl

end Parts

/-! ### Trees -/

theorem Form.map_bare
    {α β : Type}
    (change : α -> β)
    (form : Form α) :
    form.bare.map change = (form.map change).bare := by
  cases form <;> simp [map, bare, RightPadded.bare, LeftPadded.bare, Container.bare, RightPadded.map,
    LeftPadded.map, Container.map, Function.comp_def]

@[simp] theorem Tree.dialect_bare (tree : Tree) : tree.bare.dialect = tree.dialect := by
  obtain ⟨head, form⟩ := tree
  rw [bare_node, dialect, dialect, dialect?, dialect?]
  cases form <;> rfl

/-- A bare tree is printed as the bare pieces of the tree. -/
theorem Tree.pieces_bare
    (dialect : Dialect)
    (tree : Tree) :
    tree.bare.pieces dialect = (tree.pieces dialect).map Piece.bare := by
  induction tree using Tree.induction with
  | step head form ih =>
      have children : (form.map bare).map (printed dialect) = (form.map (printed dialect)).map Printed.bare := by
        rw [Form.map_map, Form.map_map]
        refine Form.map_congr fun child member => ?_
        rw [printed, ih child member]
        rfl
      have place : (form.map bare).bare.leadingPlace = form.leadingPlace := by
        cases form <;> rfl
      rw [bare_node, pieces_node, Form.map_bare, children, form_bare, pieces_node, place]
      simp [Piece.bare, Head.bare]

/-- Trees that are the same bare are printed with the same tokens. -/
theorem Tree.tokens_eq_of_bare
    {old new : Tree}
    (same : new.bare = old.bare)
    (dialect : Dialect) :
    Piece.tokens (new.pieces dialect) = Piece.tokens (old.pieces dialect) := by
  rw [← Piece.tokens_map_bare, ← pieces_bare, same, pieces_bare, Piece.tokens_map_bare]

/-- Pieces that are the same bare are written alike without markers, when their spaces are the same. -/
theorem renderAll_eq_of_bare
    {olds news : Pieces}
    (bare : news.map Piece.bare = olds.map Piece.bare)
    (spaces : Piece.spaces news = Piece.spaces olds)
    (delimiters : CommentDelimiters) :
    Piece.renderAll delimiters .hidden news = Piece.renderAll delimiters .hidden olds := by
  induction news generalizing olds with
  | nil =>
      obtain rfl := List.map_eq_nil_iff.1 bare.symm
      rfl
  | cons new news ih =>
      cases olds with
      | nil => cases bare
      | cons old olds =>
          obtain ⟨head, tail⟩ := List.cons.inj bare
          rw [Piece.renderAll_cons, Piece.renderAll_cons]
          cases new with
          | space =>
              cases old with
              | space =>
                  obtain ⟨content, others⟩ := List.cons.inj spaces
                  obtain ⟨-, rfl⟩ := Prod.mk.inj content
                  rw [ih tail others]
                  rfl
              | _ => cases head
          | token =>
              cases old with
              | token =>
                  obtain rfl := Piece.token.inj head
                  rw [ih tail spaces]
              | _ => cases head
          | start =>
              cases old with
              | start => exact ih tail spaces
              | _ => cases head
          | finish =>
              cases old with
              | finish => exact ih tail spaces
              | _ => cases head

/-- Trees that are the same bare are printed alike without markers, when their spaces are the same. -/
theorem Tree.printTrimmed_eq_of_bare
    {old new : Tree}
    (same : new.bare = old.bare)
    (spaces : Piece.spaces (new.pieces old.dialect) = Piece.spaces (old.pieces old.dialect)) :
    new.printTrimmed = old.printTrimmed := by
  have dialect : new.dialect = old.dialect := by
    rw [← dialect_bare, same, dialect_bare]
  rw [printTrimmed, printTrimmed, printIn, printIn, dialect]
  refine renderAll_eq_of_bare ?_ spaces _
  rw [← pieces_bare, same, pieces_bare]

end Java

end Lossless
