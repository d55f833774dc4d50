import Lossless.Text.Basic

/-!
# Messages

Visits leave notes for one another under text keys. A store holds at most one message for a key, of any of
a few types; asking for a message of another type finds nothing.
-/

namespace Lossless

/-- How the lines inside a piece of syntax relate to the line that it starts on. -/
inductive Nesting
  /-- In the same column. -/
  | aligned
  /-- One level deeper. -/
  | indented
  /-- A continuation indent deeper. -/
  | continued
  deriving DecidableEq

/-- The value of a note. -/
inductive Message
  | integer (value : Int)
  | text (value : Text)
  | truth (value : Bool)
  | column (value : Nat)
  | nesting (value : Nesting)
  deriving DecidableEq

namespace Message

def integer? : Message -> Option Int
  | integer value => some value
  | _ => none

def text? : Message -> Option Text
  | text value => some value
  | _ => none

def truth? : Message -> Option Bool
  | truth value => some value
  | _ => none

def column? : Message -> Option Nat
  | column value => some value
  | _ => none

def nesting? : Message -> Option Nesting
  | nesting value => some value
  | _ => none

end Message

/-- Messages by key. -/
structure Messages where
  entries : List (Text × Message)
  deriving DecidableEq

namespace Messages

def empty : Messages := ⟨[]⟩

/-- The first message under a key. -/
def find? (key : Text) : List (Text × Message) -> Option Message
  | [] => none
  | (name, message) :: rest => if name = key then some message else find? key rest

/-- The message under a key. -/
def get?
    (messages : Messages)
    (key : Text) : Option Message :=
  find? key messages.entries

/-- Drop the message under a key. -/
def remove
    (messages : Messages)
    (key : Text) : Messages :=
  ⟨messages.entries.filter fun entry => entry.1 ≠ key⟩

/-- Put a message under a key, in place of the one there. -/
def put
    (messages : Messages)
    (key : Text)
    (message : Message) : Messages :=
  ⟨(key, message) :: (messages.remove key).entries⟩

@[simp] theorem get?_empty (key : Text) : empty.get? key = none := rfl

theorem find?_filter_ne
    (entries : List (Text × Message))
    (key other : Text) :
    find? key (entries.filter fun entry => entry.1 ≠ other) =
      if other = key then none else find? key entries := by
  induction entries with
  | nil => simp [find?]
  | cons entry rest ih =>
      obtain ⟨name, message⟩ := entry
      by_cases dropped : name = other
      · subst dropped
        by_cases found : name = key <;> simp_all [find?]
      · by_cases found : name = key
        · subst found
          simp [find?, dropped, Ne.symm dropped]
        · simp_all [find?]

@[simp] theorem get?_remove
    (messages : Messages)
    (key other : Text) :
    (messages.remove other).get? key = if other = key then none else messages.get? key :=
  find?_filter_ne messages.entries key other

@[simp] theorem get?_put
    (messages : Messages)
    (key other : Text)
    (message : Message) :
    (messages.put other message).get? key =
      if other = key then some message else messages.get? key := by
  have removed := get?_remove messages key other
  by_cases same : other = key
  · simp [get?, put, find?, same]
  · simpa [get?, put, find?, same] using removed

/-- The message of one type under a key. -/
def read?
    (select : Message -> Option α)
    (messages : Messages)
    (key : Text) : Option α :=
  (messages.get? key).bind select

end Messages
end Lossless
