import Lossless.Error
import Lossless.Space

/-!
# Heads and padding

The space between the elements of a list belongs to the boundary and not to an element. A right-padded
element carries the space after it, a left-padded one the space before it, and a container is a delimited
list of right-padded elements with the space before its opening delimiter.

`RightPadded.withElements` puts an edited list of plain elements back into the padding of the old list: an
element keeps the padding that stood with its identifier, and a new one gets none.
-/

namespace Lossless

/-- A cell with an identifier that survives edits. -/
class Identified (α : Type) where
  id : α -> Stamp

/-- An element and the space after it, before its separator or the closing delimiter. -/
structure RightPadded (α : Type) where
  element : α
  after : Space
  markers : Markers Space
  deriving DecidableEq

/-- The space before an element, and the element. -/
structure LeftPadded (α : Type) where
  before : Space
  element : α
  markers : Markers Space
  deriving DecidableEq

/-- A delimited list; `before` is the space ahead of the opening delimiter. -/
structure Container (α : Type) where
  before : Space
  padded : List (RightPadded α)
  markers : Markers Space
  deriving DecidableEq

namespace RightPadded

/-- An element without padding. -/
def build (element : α) : RightPadded α := ⟨element, .empty, .empty⟩

/-- Change the element and keep the padding. -/
def map
    (change : α -> β)
    (padded : RightPadded α) : RightPadded β :=
  ⟨change padded.element, padded.after, padded.markers⟩

@[simp] theorem element_map
    (change : α -> β)
    (padded : RightPadded α) :
    (padded.map change).element = change padded.element := rfl

@[simp] theorem after_map
    (change : α -> β)
    (padded : RightPadded α) :
    (padded.map change).after = padded.after := rfl

@[simp] theorem markers_map
    (change : α -> β)
    (padded : RightPadded α) :
    (padded.map change).markers = padded.markers := rfl

/-- The plain elements of a padded list. -/
def elements (list : List (RightPadded α)) : List α :=
  list.map fun padded => padded.element

@[simp] theorem elements_map
    (change : α -> β)
    (list : List (RightPadded α)) :
    elements (list.map fun padded => padded.map change) = (elements list).map change := by
  simp [elements]

/-- Number the element and then the padding. -/
def settle
    (settleElement : α -> Numbering β)
    (padded : RightPadded α) : Numbering (RightPadded β) := do
  return ⟨<- settleElement padded.element, <- padded.after.settle,
    <- padded.markers.settle Space.settle⟩

/-- Paired elements agree, with equal padding. -/
def agreeBy
    (relation : α -> β -> Bool)
    (left : RightPadded α)
    (right : RightPadded β) : Bool :=
  relation left.element right.element && left.after = right.after &&
    left.markers = right.markers

/-- Lists of equal length whose elements agree pairwise, with equal padding. -/
def listAgreeBy
    (relation : α -> β -> Bool) : List (RightPadded α) -> List (RightPadded β) -> Bool
  | [], [] => true
  | left :: lefts, right :: rights =>
      agreeBy relation left right && listAgreeBy relation lefts rights
  | _, _ => false

theorem agreeBy_iff
    {relation : α -> α -> Bool}
    (left right : RightPadded α)
    (decides : relation left.element right.element = true ↔ left.element = right.element) :
    agreeBy relation left right = true ↔ left = right := by
  obtain ⟨element, after, markers⟩ := left
  obtain ⟨element', after', markers'⟩ := right
  simp_all [agreeBy, and_assoc]

theorem listAgreeBy_iff
    {relation : α -> α -> Bool}
    (left right : List (RightPadded α))
    (decides : forall element, element ∈ elements left ->
      forall other, relation element other = true ↔ element = other) :
    listAgreeBy relation left right = true ↔ left = right := by
  induction left generalizing right with
  | nil => cases right <;> simp [listAgreeBy]
  | cons first rest ih =>
      cases right with
      | nil => simp [listAgreeBy]
      | cons first' rest' =>
          have atFirst := agreeBy_iff first first'
            (decides first.element (by simp [elements]) first'.element)
          have atRest := ih rest' fun element member =>
            decides element (by simp_all [elements])
          simp [listAgreeBy, atFirst, atRest]

theorem listAgreeBy_map
    (relation : β -> γ -> Bool)
    (change : α -> β)
    (left : List (RightPadded α))
    (right : List (RightPadded γ)) :
    listAgreeBy relation (left.map (·.map change)) right =
      listAgreeBy (fun element => relation (change element)) left right := by
  induction left generalizing right with
  | nil => cases right <;> rfl
  | cons first rest ih =>
      cases right with
      | nil => rfl
      | cons other others =>
          simp only [List.map_cons, listAgreeBy, ih]
          rfl

/-- Change every element of a padded list, up to the first failure. -/
def mapElements
    (change : α -> Except ε α) : List (RightPadded α) -> Except ε (List (RightPadded α))
  | [] => .ok []
  | padded :: rest => do
      let element <- change padded.element
      let rest <- mapElements change rest
      return { padded with element } :: rest

variable [Identified α]

/-- An element of the list that shares its identifier with an earlier one. -/
def firstRepeated? (seen : List Stamp) : List (RightPadded α) -> Option Stamp
  | [] => none
  | padded :: rest =>
      let id := Identified.id padded.element
      if id ∈ seen then some id else firstRepeated? (id :: seen) rest

/-- The padding that stood with an element in the old list, around the new element. -/
def repad
    (old : List (RightPadded α))
    (element : α) : RightPadded α :=
  match old.find? fun padded => Identified.id padded.element = Identified.id element with
  | some padded => { padded with element }
  | none => build element

/--
Put an edited list of elements into the padding of the old list. The old list itself comes back when the
elements are its own; two old elements with one identifier are an error.
-/
def withElements
    [DecidableEq α]
    (old : List (RightPadded α))
    (list : List α) : Except Error (List (RightPadded α)) :=
  if list = elements old then .ok old
  else if list = [] then .ok []
  else
    match firstRepeated? [] old with
    | some id => .error (.ofCause (.duplicateId id))
    | none => .ok (list.map (repad old))

end RightPadded

namespace LeftPadded

/-- An element without padding. -/
def build (element : α) : LeftPadded α := ⟨.empty, element, .empty⟩

/-- Change the element and keep the padding. -/
def map
    (change : α -> β)
    (padded : LeftPadded α) : LeftPadded β :=
  ⟨padded.before, change padded.element, padded.markers⟩

@[simp] theorem before_map
    (change : α -> β)
    (padded : LeftPadded α) :
    (padded.map change).before = padded.before := rfl

@[simp] theorem element_map
    (change : α -> β)
    (padded : LeftPadded α) :
    (padded.map change).element = change padded.element := rfl

@[simp] theorem markers_map
    (change : α -> β)
    (padded : LeftPadded α) :
    (padded.map change).markers = padded.markers := rfl

/-- Number the space, the element and the markers. -/
def settle
    (settleElement : α -> Numbering β)
    (padded : LeftPadded α) : Numbering (LeftPadded β) := do
  return ⟨<- padded.before.settle, <- settleElement padded.element,
    <- padded.markers.settle Space.settle⟩

end LeftPadded

namespace Container

/-- No elements and no padding. -/
def empty : Container α := ⟨.empty, [], .empty⟩

/-- The plain elements. -/
def elements (container : Container α) : List α :=
  RightPadded.elements container.padded

/-- Change every element and keep the padding. -/
def map
    (change : α -> β)
    (container : Container α) : Container β :=
  ⟨container.before, container.padded.map fun padded => padded.map change, container.markers⟩

@[simp] theorem before_map
    (change : α -> β)
    (container : Container α) :
    (container.map change).before = container.before := rfl

@[simp] theorem padded_map
    (change : α -> β)
    (container : Container α) :
    (container.map change).padded = container.padded.map fun padded => padded.map change := rfl

@[simp] theorem markers_map
    (change : α -> β)
    (container : Container α) :
    (container.map change).markers = container.markers := rfl

/-- Number the space, the elements and the markers. -/
def settle
    (settleElement : α -> Numbering β)
    (container : Container α) : Numbering (Container β) := do
  return ⟨<- container.before.settle, <- container.padded.mapM (RightPadded.settle settleElement),
    <- container.markers.settle Space.settle⟩

variable [Identified α] [DecidableEq α]

/-- Put an edited list of elements into the padding of the container. -/
def withElements
    (container : Container α)
    (list : List α) : Except Error (Container α) := do
  return { container with padded := <- RightPadded.withElements container.padded list }

/-- Like `withElements`; an absent or empty list leaves no container. -/
def withElements?
    (container : Option (Container α))
    (list : Option (List α)) : Except Error (Option (Container α)) :=
  match list, container with
  | none, _ | some [], _ => .ok none
  | some list, some container => some <$> container.withElements list
  | some list, none => .ok (some ⟨.empty, list.map RightPadded.build, .empty⟩)

end Container
/-!
## Heads

A node of any language has a head, with its identity, the space before it and its markers, beside what is
particular to its kind.
-/

/-- What every node has. -/
structure Head where
  stamp : Stamp
  id : Stamp
  /-- The space before the node. -/
  leading : Space
  markers : Markers Space
  deriving DecidableEq

namespace Head

/-- The head of a new node without formatting. -/
def build : Head := ⟨.pending, .pending, .empty, .empty⟩

/-- Number a head. -/
def settle (head : Head) : Numbering Head := do
  return ⟨<- head.stamp.settle, <- head.id.settle, <- head.leading.settle,
    <- head.markers.settle Space.settle⟩

end Head

/-- The height of a child is at most the greatest of the heights. -/
theorem le_foldr_max
    {numbers : List Nat}
    {number : Nat}
    (member : number ∈ numbers) :
    number ≤ numbers.foldr max 0 := by
  induction numbers with
  | nil => cases member
  | cons first rest ih =>
      rcases List.mem_cons.1 member with rfl | later
      · exact Nat.le_max_left ..
      · exact Nat.le_trans (ih later) (Nat.le_max_right ..)

end Lossless
