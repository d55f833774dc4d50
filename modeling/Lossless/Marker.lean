import Lossless.Identity
import Lossless.Style

/-!
# Markers

A marker is a fact attached to a node, a padding or a comment. Markers come in ordered sets. A set keeps
its identifier through edits, and there is one empty set, so that untouched sets stay the same cell.
Two sets count as equal when their identifiers agree, whatever they hold.

The facts are parametric in what a trailing comma keeps, the space before the closing delimiter; where no
comma can stand this is `Empty`.
-/

namespace Lossless

/-- What a marker says. -/
inductive Fact (σ : Type)
  /-- Matched by a search. -/
  | searchResult (description : Option Text)
  /-- A parser failed here. -/
  | parseFailure (parserName exceptionName message : Text)
  /-- A separator after the last element of a list; the suffix stands before the closing delimiter. -/
  | trailingComma (suffix : σ)
  /-- A terminator where the dialect leaves it optional. -/
  | semicolon
  /-- Styles of the source unit. -/
  | namedStyles (styles : NamedStyles)
  deriving DecidableEq

namespace Fact

/-- The name of the kind of a fact. -/
def kindName : Fact σ -> Text
  | searchResult .. => "SearchResult".toList
  | parseFailure .. => "ParseExceptionResult".toList
  | trailingComma .. => "TrailingComma".toList
  | semicolon => "Semicolon".toList
  | namedStyles .. => "NamedStyles".toList

def searchResult? : Fact σ -> Option (Option Text)
  | searchResult description => some description
  | _ => none

def parseFailure? : Fact σ -> Option (Text × Text × Text)
  | parseFailure parserName exceptionName message => some (parserName, exceptionName, message)
  | _ => none

def trailingComma? : Fact σ -> Option σ
  | trailingComma suffix => some suffix
  | _ => none

def semicolon? : Fact σ -> Option Unit
  | semicolon => some ()
  | _ => none

def namedStyles? : Fact σ -> Option NamedStyles
  | namedStyles styles => some styles
  | _ => none

end Fact

/-- A fact with an identity of its own. -/
structure Marker (σ : Type) where
  stamp : Stamp
  id : Stamp
  fact : Fact σ
  deriving DecidableEq

namespace Marker

/-- A new marker. -/
def build (fact : Fact σ) : Marker σ where
  stamp := .pending
  id := .pending
  fact := fact

/-- The same marker with another fact, as a new cell. -/
def withFact
    (marker : Marker σ)
    (fact : Fact σ) : Marker σ where
  stamp := .pending
  id := marker.id
  fact := fact

/-- Number the marker and what its fact carries. -/
def settle
    (settleSuffix : σ -> Numbering σ)
    (marker : Marker σ) : Numbering (Marker σ) := do
  let stamp <- marker.stamp.settle
  let id <- marker.id.settle
  match marker.fact with
  | .trailingComma suffix => return ⟨stamp, id, .trailingComma (<- settleSuffix suffix)⟩
  | fact => return ⟨stamp, id, fact⟩

end Marker

/-- An ordered set of markers. -/
structure Markers (σ : Type) where
  stamp : Stamp
  id : Stamp
  toList : List (Marker σ)
  deriving DecidableEq

namespace Markers

/-- The one empty set. -/
def empty : Markers σ where
  stamp := .canonical
  id := .canonical
  toList := []

@[simp] theorem toList_empty : (empty : Markers σ).toList = [] := rfl

/-- A new set; of no markers, the empty set. -/
def build : List (Marker σ) -> Markers σ
  | [] => empty
  | first :: rest => ⟨.pending, .pending, first :: rest⟩

@[simp] theorem build_nil : build ([] : List (Marker σ)) = empty := rfl

@[simp] theorem toList_build (markers : List (Marker σ)) : (build markers).toList = markers := by
  cases markers <;> rfl

/-- No marker is in the set. -/
def isEmpty (markers : Markers σ) : Bool :=
  markers.toList.isEmpty

/-- Both sets have the same identifier. -/
def agrees (left right : Markers σ) : Bool :=
  left.id = right.id

/-- Number the set and its markers. -/
def settle
    (settleSuffix : σ -> Numbering σ)
    (markers : Markers σ) : Numbering (Markers σ) := do
  let stamp <- markers.stamp.settle
  let id <- markers.id.settle
  return ⟨stamp, id, <- markers.toList.mapM (Marker.settle settleSuffix)⟩

variable [DecidableEq σ]

/--
The set with another list of markers. It is the old cell when every marker is, the empty set when there
is none, and otherwise a new cell under the old identifier.
-/
def withMarkers
    (markers : Markers σ)
    (list : List (Marker σ)) : Markers σ :=
  if list = markers.toList then markers
  else if list = [] then empty
  else ⟨.pending, markers.id, list⟩

@[simp] theorem toList_withMarkers
    (markers : Markers σ)
    (list : List (Marker σ)) :
    (markers.withMarkers list).toList = list := by
  unfold withMarkers
  split
  · next same => exact same.symm
  · split
    · next none => exact none.symm
    · rfl

@[simp] theorem withMarkers_toList (markers : Markers σ) :
    markers.withMarkers markers.toList = markers := by
  simp [withMarkers]

/-- Put a marker at the end. -/
def add
    (markers : Markers σ)
    (marker : Marker σ) : Markers σ :=
  markers.withMarkers (markers.toList ++ [marker])

@[simp] theorem toList_add
    (markers : Markers σ)
    (marker : Marker σ) :
    (markers.add marker).toList = markers.toList ++ [marker] := by
  simp [add]

/-- What the first marker of a kind says. -/
def findFirst?
    (select : Fact σ -> Option α)
    (markers : Markers σ) : Option α :=
  markers.toList.findSome? fun marker => select marker.fact

/-- What all markers of a kind say, in order. -/
def findAll
    (select : Fact σ -> Option α)
    (markers : Markers σ) : List α :=
  markers.toList.filterMap fun marker => select marker.fact

/-- Drop every marker of a kind. -/
def remove
    (select : Fact σ -> Option α)
    (markers : Markers σ) : Markers σ :=
  markers.withMarkers (markers.toList.filter fun marker => (select marker.fact).isNone)

/-- Change the first marker of a kind; nothing when there is none. -/
def changeFirst?
    (select : Fact σ -> Option α)
    (change : Marker σ -> Marker σ) : List (Marker σ) -> Option (List (Marker σ))
  | [] => none
  | first :: rest =>
      if (select first.fact).isSome then some (change first :: rest)
      else (changeFirst? select change rest).map (first :: ·)

/-- Replace the first marker of a kind by `remap old new`, a new cell, or put the new one at the end. -/
def computeByKind
    (select : Fact σ -> Option α)
    (marker : Marker σ)
    (remap : Marker σ -> Marker σ -> Marker σ)
    (markers : Markers σ) : Markers σ :=
  match changeFirst? select (fun old => { remap old marker with stamp := .pending })
      markers.toList with
  | some list => markers.withMarkers list
  | none => markers.add marker

/-- Replace the first marker of a kind, or put the new one at the end. -/
def setByKind
    (select : Fact σ -> Option α)
    (marker : Marker σ)
    (markers : Markers σ) : Markers σ :=
  markers.computeByKind select marker fun _ new => new

end Markers
end Lossless
