import Lossless.Proofs.Format.Safe
import Lossless.Proofs.Visit.Steps

/-!
# What the indentation reads from the frames

The indentation passes columns on in messages: the column of the innermost line start, the nesting of the node
around, the column that a list gives to an element, and the column of the wrapped segments of a chain of calls.
`Reads` and `ReadsInside` say that it reads what the surroundings of a node, or its interior, tell.

The message of a chain is put on the frame of the outermost call by whichever segment is wrapped first. Any segment
would put the same column there, so that the message makes no difference for what is read.
-/

namespace Lossless

theorem Messages.read?_put
    {α : Type}
    {select : Message -> Option α}
    (messages : Messages)
    (key other : Text)
    (message : Message) :
    (messages.put key message).read? select other =
      if key = other then select message else messages.read? select other := by
  unfold Messages.read?
  rw [Messages.get?_put]
  split <;> rfl

@[simp] theorem Messages.read?_empty
    {α : Type}
    (select : Message -> Option α)
    (key : Text) :
    Messages.empty.read? select key = none := rfl

namespace Cursor

variable {ν : Type}

theorem frames_putMessageBelow
    (cursor : Cursor ν)
    (key : Text)
    (message : Message)
    (steps : Nat) :
    (cursor.putMessageBelow key message steps).frames = cursor.frames.modify steps fun frame =>
      { frame with messages := frame.messages.put key message } := by
  cases steps <;> rfl

/-- A message under one key makes no difference for what is read under another. -/
theorem nearestMessage?_putMessageBelow
    {α : Type}
    {select : Message -> Option α}
    {key other : Text}
    (differ : key ≠ other)
    (cursor : Cursor ν)
    (message : Message)
    (steps : Nat) :
    (cursor.putMessageBelow key message steps).nearestMessage? select other = cursor.nearestMessage? select other := by
  unfold nearestMessage?
  rw [frames_putMessageBelow]
  generalize cursor.frames = frames
  induction frames generalizing steps with
  | nil => rw [List.modify_nil]
  | cons first rest ih =>
      cases steps with
      | zero => rw [List.modify_zero_cons, List.findSome?_cons, List.findSome?_cons, Messages.read?_put, if_neg differ]
      | succ steps => rw [List.modify_succ_cons, List.findSome?_cons, List.findSome?_cons, ih]

/-- What is read from the frame on top, or else from those below. -/
theorem nearestMessage?_frames
    {α : Type}
    (select : Message -> Option α)
    (top : Frame ν)
    (cursor : Cursor ν)
    (key : Text) :
    (Cursor.mk top cursor.frames).nearestMessage? select key =
      (top.messages.read? select key).or (cursor.nearestMessage? select key) := by
  unfold nearestMessage?
  rw [frames, List.findSome?_cons]
  cases top.messages.read? select key <;> rfl

/-- Frames that are left with another one on top are gone back to as they are. -/
theorem returnTo_frames
    {saved current : Cursor ν}
    (top : Frame ν)
    (same : current.values = saved.values) :
    saved.returnTo ⟨top, current.frames⟩ = current :=
  frames_injective (frames_returnTo [top.value] (congrArg (top.value :: ·) same))

end Cursor

namespace Format
namespace Indents

open Java

variable (style : IndentStyle)

/-! ## The chain of calls -/

/-- The frames of a call, when the innermost frame is that of its receiver. -/
def callAround? (cursor : TreeCursor) : Option TreeCursor :=
  match cursor.below with
  | [] => none
  | owner :: below => if isReceiverOf cursor.top owner then some ⟨owner, below⟩ else none

theorem frames_callAround?
    {cursor call : TreeCursor}
    (around : callAround? cursor = some call) :
    cursor.frames = cursor.top :: call.frames ∧ isReceiverOf cursor.top call.top = true := by
  obtain ⟨top, below⟩ := cursor
  cases below with
  | nil => cases around
  | cons owner below =>
      unfold callAround? at around
      dsimp only at around
      split at around
      · next isReceiver =>
          obtain rfl := Option.some.inj around
          exact ⟨rfl, isReceiver⟩
      · cases around

theorem chainHeight_frames
    (top : Frame TreeFrame)
    (cursor : TreeCursor) :
    chainHeight (top :: cursor.frames) =
      ((callAround? cursor).map fun call => chainHeight call.frames + 2).getD 0 := by
  obtain ⟨padding, below⟩ := cursor
  cases below with
  | nil => rfl
  | cons owner below =>
      rw [Cursor.frames, chainHeight, callAround?]
      dsimp only
      split <;> rfl

theorem chainHeight_lt (cursor : TreeCursor) : chainHeight cursor.frames < cursor.frames.length := by
  have all (frames : List (Frame TreeFrame)) (some : frames ≠ []) : chainHeight frames < frames.length := by
    fun_induction chainHeight frames with
    | case1 top padding owner below isReceiver ih =>
        have shorter := ih (List.cons_ne_nil _ _)
        simp only [List.length_cons] at shorter ⊢
        omega
    | case2 => simp
    | case3 => exact List.length_pos_iff.2 some
  exact all _ (List.cons_ne_nil _ _)

theorem length_ancestors (cursor : Cursor ν) : cursor.ancestors.length = cursor.frames.length := by
  have same := congrArg List.length (map_ancestors cursor)
  rwa [List.length_map, Cursor.values, List.length_map] at same

theorem chainCursor_of_outermost
    {cursor : TreeCursor}
    (outermost : chainHeight cursor.frames = 0) :
    chainCursor cursor = cursor := by
  rw [chainCursor, outermost]
  cases cursor
  rename_i top below
  cases below <;> rfl

/-- The outermost call of a chain is that of the call around, for the receiver of a call. -/
theorem chainCursor_frames
    (top : Frame TreeFrame)
    (cursor : TreeCursor) :
    chainCursor ⟨top, cursor.frames⟩ =
      ((callAround? cursor).map chainCursor).getD ⟨top, cursor.frames⟩ := by
  have height := chainHeight_frames top cursor
  cases around : callAround? cursor with
  | none =>
      rw [around] at height
      exact chainCursor_of_outermost height
  | some call =>
      rw [chainCursor, Cursor.frames, height, around]
      obtain ⟨frames, -⟩ := frames_callAround? around
      have below : (Cursor.mk top cursor.frames).ancestors = ⟨top, cursor.frames⟩ :: cursor :: call.ancestors := by
        obtain ⟨padding, below⟩ := cursor
        obtain rfl : below = call.frames := (List.cons.inj frames).2
        rfl
      have isThere : chainHeight call.frames < call.ancestors.length := by
        rw [length_ancestors]
        exact chainHeight_lt call
      rw [below, Option.map_some, Option.getD_some, Option.map_some, Option.getD_some, List.drop_succ_cons,
        List.drop_succ_cons, chainCursor, List.drop_eq_getElem_cons isThere]
      rfl

/-- The frames once the column of a chain is noted on the innermost one. -/
def noteHere (cursor : TreeCursor) : TreeCursor :=
  if (cursor.message? Message.column? chainedIndentKey).isSome then cursor
  else cursor.putMessage chainedIndentKey (.column (lastIndent cursor + style.continuationIndent))

theorem noteChain_of_outermost
    {cursor : TreeCursor}
    (outermost : chainHeight cursor.frames = 0) :
    noteChain style cursor = noteHere style cursor := by
  unfold noteChain noteHere chainColumn
  rw [chainCursor_of_outermost outermost, outermost]
  split
  · rfl
  · next missing =>
      rw [Bool.not_eq_true, Option.isSome_eq_false_iff, Option.isNone_iff_eq_none] at missing
      rw [missing]
      rfl

theorem noteChain_frames
    (top : Frame TreeFrame)
    (cursor : TreeCursor) :
    noteChain style ⟨top, cursor.frames⟩ =
      ((callAround? cursor).map fun call => ⟨top, cursor.top :: (noteChain style call).frames⟩).getD
        (noteHere style ⟨top, cursor.frames⟩) := by
  have height := chainHeight_frames top cursor
  have outermost := chainCursor_frames top cursor
  cases around : callAround? cursor with
  | none =>
      rw [around] at height
      exact noteChain_of_outermost style height
  | some call =>
      obtain ⟨frames, -⟩ := frames_callAround? around
      rw [around, Option.map_some, Option.getD_some] at height outermost
      rw [Option.map_some, Option.getD_some]
      unfold noteChain chainColumn
      rw [outermost, show (Cursor.mk top cursor.frames).frames = top :: cursor.frames from rfl, height]
      split
      · rw [frames]
      · refine Cursor.frames_injective ?_
        rw [Cursor.frames_putMessageBelow, Cursor.frames, frames, List.modify_succ_cons, List.modify_succ_cons,
          ← Cursor.frames_putMessageBelow]
        rfl

theorem noteHere_frames
    (top : Frame TreeFrame)
    (cursor : TreeCursor) :
    exists noted : Frame TreeFrame, noteHere style ⟨top, cursor.frames⟩ = ⟨noted, cursor.frames⟩ ∧ noted.value = top.value := by
  unfold noteHere
  split
  · exact ⟨top, rfl, rfl⟩
  · exact ⟨_, rfl, rfl⟩

/-- The chain around a receiver is the same when the frames from the call outwards stand for the same. -/
theorem callAround?_of_values
    {top : Frame TreeFrame}
    {call left : TreeCursor}
    (isReceiver : isReceiverOf top call.top = true)
    (same : left.values = call.values) :
    callAround? ⟨top, left.frames⟩ = some left := by
  have atTop : left.top.value = call.top.value := (List.cons.inj same).1
  have isReceiverLeft : isReceiverOf top left.top = true := by
    rw [← isReceiver, isReceiverOf, isReceiverOf, atTop]
  exact if_pos isReceiverLeft

/-- Noting the column of a chain notes it on the outermost call. -/
theorem chainCursor_noteChain (cursor : TreeCursor) :
    chainCursor (noteChain style cursor) = noteHere style (chainCursor cursor) := by
  obtain ⟨top, below⟩ := cursor
  induction size : below.length using Nat.strongRecOn generalizing top below with
  | _ count ih =>
      cases below with
      | nil =>
          have alone (frame : Frame TreeFrame) : chainCursor ⟨frame, []⟩ = ⟨frame, []⟩ := chainCursor_of_outermost rfl
          rw [noteChain_of_outermost style rfl, alone, noteHere]
          split <;> exact alone _
      | cons padding below =>
          have atChain := noteChain_frames style top ⟨padding, below⟩
          have outermost := chainCursor_frames top ⟨padding, below⟩
          cases around : callAround? ⟨padding, below⟩ with
          | none =>
              obtain ⟨noted, atNoted, -⟩ := noteHere_frames style top ⟨padding, below⟩
              have outermostNoted := chainCursor_frames noted ⟨padding, below⟩
              rw [around, Option.map_none, Option.getD_none] at atChain outermost outermostNoted
              change noteChain style ⟨top, padding :: below⟩ = _ at atChain
              change chainCursor ⟨top, padding :: below⟩ = _ at outermost
              rw [atChain, outermost, atNoted, outermostNoted]
          | some call =>
              obtain ⟨frames, isReceiver⟩ := frames_callAround? around
              have below : below = call.frames := (List.cons.inj frames).2
              have inner : callAround? ⟨padding, (noteChain style call).frames⟩ = some (noteChain style call) :=
                callAround?_of_values isReceiver (values_noteChain style call)
              have outermostNoted := chainCursor_frames top ⟨padding, (noteChain style call).frames⟩
              rw [around, Option.map_some, Option.getD_some] at atChain outermost
              rw [inner, Option.map_some, Option.getD_some] at outermostNoted
              change noteChain style ⟨top, padding :: _⟩ = _ at atChain
              change chainCursor ⟨top, padding :: _⟩ = _ at outermost
              rw [atChain, outermost]
              refine outermostNoted.trans ?_
              refine ih call.below.length ?_ call.top call.below rfl
              rw [← size, below, Cursor.frames, List.length_cons, List.length_cons]
              omega

/-- The column of a chain is the same once it is noted. -/
theorem chainColumn_noteChain (cursor : TreeCursor) :
    chainColumn style (noteChain style cursor) = chainColumn style cursor := by
  unfold chainColumn
  rw [chainCursor_noteChain, noteHere]
  split
  · rfl
  · next missing =>
      rw [Bool.not_eq_true, Option.isSome_eq_false_iff, Option.isNone_iff_eq_none] at missing
      rw [missing]
      rfl

theorem isSome_noteChain (cursor : TreeCursor) :
    ((chainCursor (noteChain style cursor)).message? Message.column? chainedIndentKey).isSome = true := by
  rw [chainCursor_noteChain, noteHere]
  split
  · next found => exact found
  · rfl

/-- The column of a chain is noted once. -/
theorem noteChain_noteChain (cursor : TreeCursor) :
    noteChain style (noteChain style cursor) = noteChain style cursor := by
  have noted := isSome_noteChain style cursor
  unfold noteChain at noted ⊢
  rw [if_pos noted]

/-- The column of a chain makes no difference for what is read under other keys. -/
theorem nearestMessage?_noteChain
    {α : Type}
    {select : Message -> Option α}
    {key : Text}
    (differ : chainedIndentKey ≠ key)
    (cursor : TreeCursor) :
    (noteChain style cursor).nearestMessage? select key = cursor.nearestMessage? select key := by
  unfold noteChain
  split
  · rfl
  · exact Cursor.nearestMessage?_putMessageBelow differ ..

/-! ## What is around and inside a node -/

/-- The frames around a node once the column of the chain that the node is a receiver in is noted. -/
def noteAround (cursor : TreeCursor) : TreeCursor :=
  ((callAround? cursor).map fun call => ⟨cursor.top, (noteChain style call).frames⟩).getD cursor

/-- What a visit of a node leaves of the frames around it. -/
def Left (before after : TreeCursor) : Prop :=
  after = before ∨ after = noteAround style before

theorem values_noteAround (cursor : TreeCursor) : (noteAround style cursor).values = cursor.values := by
  unfold noteAround
  cases around : callAround? cursor with
  | none => rfl
  | some call =>
      obtain ⟨frames, -⟩ := frames_callAround? around
      change cursor.top.value :: (noteChain style call).values = _
      rw [values_noteChain, Cursor.values, Cursor.values, frames]
      rfl

theorem callAround?_noteAround (cursor : TreeCursor) :
    callAround? (noteAround style cursor) = (callAround? cursor).map (noteChain style) := by
  unfold noteAround
  cases around : callAround? cursor with
  | none => exact around
  | some call =>
      obtain ⟨-, isReceiver⟩ := frames_callAround? around
      exact callAround?_of_values isReceiver (values_noteChain style call)

variable {style} {before after : TreeCursor}

theorem Left.refl : Left style before before := .inl rfl

theorem Left.values (left : Left style before after) : after.values = before.values := by
  rcases left with rfl | rfl
  · rfl
  · exact values_noteAround style before

/-- Away from receivers, nothing is left behind. -/
theorem Left.eq_of_none
    (left : Left style before after)
    (alone : callAround? before = none) :
    after = before := by
  rcases left with same | noted
  · exact same
  · rw [noted, noteAround, alone]
    rfl

/-- After the visit of a receiver, the frames of the call are as they were, or the column of its chain is noted. -/
theorem Left.call
    {call : TreeCursor}
    (left : Left style before after)
    (around : callAround? before = some call) :
    after = ⟨before.top, call.frames⟩ ∨ after = ⟨before.top, (noteChain style call).frames⟩ := by
  rcases left with same | noted
  · left
    rw [same]
    exact Cursor.frames_injective (frames_callAround? around).1
  · right
    rw [noted, noteAround, around]
    rfl

/-- Noting the column of a chain inside a node notes it around the node, or on the frame of the node. -/
theorem Left.noteChain
    (left : Left style before after)
    (top : Frame TreeFrame) :
    exists noted last, noteChain style ⟨top, after.frames⟩ = ⟨noted, last.frames⟩ ∧ noted.value = top.value ∧
      Left style before last := by
  have atChain := noteChain_frames style top after
  cases around : callAround? before with
  | none =>
      obtain rfl := left.eq_of_none around
      obtain ⟨noted, atNoted, same⟩ := noteHere_frames style top after
      rw [around, Option.map_none, Option.getD_none, atNoted] at atChain
      exact ⟨noted, after, atChain, same, .refl⟩
  | some call =>
      refine ⟨top, noteAround style before, ?_, rfl, .inr rfl⟩
      have noted : noteAround style before = ⟨before.top, (Indents.noteChain style call).frames⟩ := by
        rw [noteAround, around]
        rfl
      rw [noted, atChain]
      rcases left with rfl | rfl
      · rw [around]
        rfl
      · rw [callAround?_noteAround, around, noted, Option.map_some, Option.map_some, Option.getD_some,
          noteChain_noteChain]
        rfl

/-! ## Readings -/

/-- The column that the list around gives to a node. -/
def givenColumn? (cursor : TreeCursor) : Option Nat :=
  match cursor.top.value.padding?.bind PaddingFrame.element? with
  | some element =>
      if element.isContainerElement then cursor.message? Message.column? elementIndentKey else none
  | none => none

/-- A block among these frames is the body of the node around it, and not a statement. -/
def ownsBlock (frames : List TreeFrame) : Bool :=
  match ((nodesAmong frames).head?.bind FrameValue.tree?).map Tree.form with
  | some (.block ..) | some (.compilationUnit ..) => false
  | _ => true

variable (style)

/-- From the frames around a node the indentation reads what its surroundings tell. -/
structure Reads
    (cursor : TreeCursor)
    (around : Surroundings) : Prop where
  line : lastIndent cursor = around.line
  nesting : nearestNesting cursor = around.nesting
  element : givenColumn? cursor = around.element
  chain : (callAround? cursor).map (chainColumn style) = around.chain
  isBody : ownsBlock cursor.values = around.isBody

/-- From the frames inside a node the indentation reads what its interior tells. -/
structure ReadsInside
    (cursor : TreeCursor)
    (inside : Interior) : Prop where
  line : lastIndent cursor = inside.line
  nesting : nearestNesting cursor = inside.nesting
  chain : chainColumn style cursor = inside.chain

/-- The frames inside a node, in front of one of its parts. -/
structure Inside
    (around : TreeCursor)
    (tree : Tree)
    (cursor : TreeCursor)
    (inside : Interior) : Prop where
  frames : exists top last, cursor = ⟨top, last.frames⟩ ∧ top.value = .tree tree ∧ Left style around last
  reads : ReadsInside style cursor inside

/-! ## Entering a node -/

section Entering

variable {styles : Styles} {cursor : TreeCursor} {around : Surroundings} {tree : Tree}

theorem isBlockOwner_eq
    {frames : List TreeFrame}
    (values : cursor.values = .tree tree :: frames) :
    isBlockOwner cursor = ownsBlock frames := by
  have same := parentTree?_eq values
  unfold isBlockOwner ownsBlock
  generalize cursor.parentTree?.bind Cursor.tree? = node at same ⊢
  subst same
  rfl

theorem leadingPlace_isTreePrefix (form : Form Tree) :
    form.leadingPlace.isTreePrefix = true ∧ form.leadingPlace ≠ .methodSelectSuffix := by
  cases form <;> exact ⟨rfl, nofun⟩

theorem columnAt_leading
    {top : Frame TreeFrame}
    (reads : Reads styles.indents cursor around)
    (isNode : top.value = .tree tree)
    (line : lastIndent ⟨top, cursor.frames⟩ = lastIndent cursor) :
    columnAt styles.indents tree.form.leadingPlace ⟨top, cursor.frames⟩ = (around.slot styles tree.form).column := by
  obtain ⟨isPrefix, noSegment⟩ := leadingPlace_isTreePrefix tree.form
  have given : elementIndent? ⟨top, cursor.frames⟩ tree.form.leadingPlace = givenColumn? cursor := by
    rw [elementIndent?, if_pos isPrefix]
    rfl
  have isBody : isBlockOwner ⟨top, cursor.frames⟩ = around.isBody := by
    rw [← reads.isBody]
    exact isBlockOwner_eq (congrArg (· :: cursor.values) isNode)
  have forced : isForcedAligned ⟨top, cursor.frames⟩ tree.form.leadingPlace = around.isForced tree.form := by
    cases tree.form <;> first | rfl | exact isBody
  have outer : ((Cursor.mk top cursor.frames).parent?.map nearestNesting).getD .aligned = around.nesting := reads.nesting
  rw [columnAt, if_neg noSegment, given, line, nestingFor, forced, if_pos isPrefix, outer, reads.element, reads.line]
  rfl

theorem chainColumn_frames
    (style : IndentStyle)
    (top : Frame TreeFrame)
    (cursor : TreeCursor) :
    chainColumn style ⟨top, cursor.frames⟩ = ((callAround? cursor).map (chainColumn style)).getD
      ((top.messages.read? Message.column? chainedIndentKey).getD
        (lastIndent ⟨top, cursor.frames⟩ + style.continuationIndent)) := by
  have outermost := chainCursor_frames top cursor
  unfold chainColumn
  rw [outermost]
  cases callAround? cursor <;> rfl

/-- The frames inside a node, once it is told from the messages on the frame of the node what is read there. -/
theorem readsInside_of_messages
    {messages : Messages}
    (reads : Reads styles.indents cursor around)
    {inside : Interior}
    (line : (messages.read? Message.column? lastIndentKey).getD around.line = inside.line)
    (nesting : messages.read? Message.nesting? nestingKey = some inside.nesting)
    (unchained : messages.read? Message.column? chainedIndentKey = none)
    (chain : around.chain.getD (inside.line + styles.indents.continuationIndent) = inside.chain) :
    Inside styles.indents cursor tree ⟨⟨.tree tree, messages⟩, cursor.frames⟩ inside := by
  have atLine : lastIndent ⟨⟨.tree tree, messages⟩, cursor.frames⟩ = inside.line := by
    rw [← line, ← reads.line, lastIndent, Cursor.nearestMessage?_frames, lastIndent]
    cases messages.read? Message.column? lastIndentKey <;> rfl
  refine ⟨⟨_, cursor, rfl, rfl, .refl⟩, atLine, ?_, ?_⟩
  · rw [nearestNesting, Cursor.nearestMessage?_frames, nesting]
    rfl
  · rw [chainColumn_frames, unchained, reads.chain, atLine]
    exact chain

theorem indentTo_of_inLine
    {space : Space}
    (style : IndentStyle)
    (column : Nat)
    (inLine : space.containsNewline = false) :
    Exact.indentTo style column space = space := by
  rw [Exact.indentTo, inLine]
  rfl

theorem containsNewline_of_isEmpty
    {space : Space}
    (isEmpty : space.isEmpty = true) :
    space.containsNewline = false := by
  rw [Space.isEmpty, Bool.and_eq_true, List.isEmpty_iff, List.isEmpty_iff] at isEmpty
  rw [Space.containsNewline, isEmpty.1, isEmpty.2]
  rfl

theorem isSource_eq (tree : Tree) : tree.isSource = tree.form.isUnit := by
  obtain ⟨head, form⟩ := tree
  cases form <;> rfl

/-- The keys under which the indentation passes columns on differ. -/
theorem keys_differ :
    nestingKey ≠ lastIndentKey ∧ nestingKey ≠ chainedIndentKey ∧ lastIndentKey ≠ nestingKey ∧
      lastIndentKey ≠ chainedIndentKey ∧ lineStartKey ≠ lastIndentKey ∧ lineStartKey ≠ nestingKey ∧
      lineStartKey ≠ chainedIndentKey ∧ chainedIndentKey ≠ lastIndentKey ∧ chainedIndentKey ≠ nestingKey := by
  decide

theorem leadingPlace_of_isUnit
    {form : Form Tree}
    (isUnit : form.isUnit = true) :
    form.leadingPlace = .compilationUnitPrefix := by
  cases form <;> first | rfl | cases isUnit

/-- The frame of a node that is no unit starts with the nesting of its parts. -/
theorem enteredCursor_of_isInner
    (isInner : tree.form.isUnit = false) :
    enteredCursor styles.indents tree (cursor.push (.tree tree)) =
      ⟨⟨.tree tree, Messages.empty.put nestingKey (.nesting (nestingOf styles.indents tree.form))⟩, cursor.frames⟩ := by
  rw [enteredCursor, isSource_eq, isInner]
  rfl

/-- The frame of a unit starts with the first column for its line, too. -/
theorem enteredCursor_of_isUnit
    (isUnit : tree.form.isUnit = true) :
    enteredCursor styles.indents tree (cursor.push (.tree tree)) =
      ⟨⟨.tree tree, ((Messages.empty.put lastIndentKey (.column 0)).put lineStartKey (.column 0)).put
        nestingKey (.nesting (nestingOf styles.indents tree.form))⟩, cursor.frames⟩ := by
  rw [enteredCursor, isSource_eq, isUnit]
  rfl

theorem columnAt_entered
    (reads : Reads styles.indents cursor around)
    (isInner : tree.form.isUnit = false) :
    columnAt styles.indents tree.form.leadingPlace (enteredCursor styles.indents tree (cursor.push (.tree tree))) =
      (around.slot styles tree.form).column := by
  rw [enteredCursor_of_isInner isInner]
  refine columnAt_leading reads rfl ?_
  rw [lastIndent, Cursor.nearestMessage?_frames, Messages.read?_put, if_neg keys_differ.1]
  rfl

/-- From the surroundings of a node that is no unit follows what becomes of the space before it, and what is read inside. -/
theorem inside_entered
    (reads : Reads styles.indents cursor around)
    (isInner : tree.form.isUnit = false) :
    let entered := enteredCursor styles.indents tree (cursor.push (.tree tree))
    indentedSpace styles.indents tree.form.leadingPlace tree.leading entered =
        Exact.indentTo styles.indents (around.slot styles tree.form).column tree.leading ∧
      Inside styles.indents cursor tree (spaceCursor styles.indents tree.form.leadingPlace tree.leading entered)
        (around.interior styles tree.leading tree.form) := by
  intro entered
  obtain ⟨isPrefix, noSegment⟩ := leadingPlace_isTreePrefix tree.form
  have noUnit := (leadingPlace_isInner isInner).1
  have atEntered : entered = _ := enteredCursor_of_isInner isInner
  have column : columnAt styles.indents tree.form.leadingPlace entered = _ := columnAt_entered reads isInner
  unfold indentedSpace spaceCursor Surroundings.interior
  rw [if_neg noUnit, column]
  cases breaks : tree.leading.containsNewline with
  | false =>
      rw [if_neg (by simp), if_neg (by simp), indentTo_of_inLine _ _ breaks, atEntered]
      refine ⟨rfl, readsInside_of_messages reads ?_ ?_ ?_ rfl⟩
      · simp [Messages.read?_put, keys_differ]
      · simp [Messages.read?_put, Message.nesting?]
      · simp [Messages.read?_put, keys_differ]
  | true =>
      rw [if_pos rfl, if_pos ⟨noUnit, rfl⟩, wrappedCursor, column, notedFor, if_neg noSegment, if_pos isPrefix, atEntered]
      refine ⟨rfl, ?_⟩
      dsimp only
      split
      all_goals
        refine readsInside_of_messages reads ?_ ?_ ?_ rfl
        · simp [Cursor.putMessage, Messages.read?_put, keys_differ, Message.column?]
        · simp [Cursor.putMessage, Messages.read?_put, keys_differ, Message.nesting?]
        · simp [Cursor.putMessage, Messages.read?_put, keys_differ]

end Entering

/-! ## The parts of a node -/

section Parts

variable {styles : Styles} {cursor : TreeCursor} {inside : Interior} {tree : Tree}

theorem lastIndent_push
    (cursor : TreeCursor)
    (value : TreeFrame) :
    lastIndent (cursor.push value) = lastIndent cursor := by
  rw [lastIndent, Cursor.push, Cursor.nearestMessage?_frames]
  rfl

theorem nearestNesting_push
    (cursor : TreeCursor)
    (value : TreeFrame) :
    nearestNesting (cursor.push value) = nearestNesting cursor := by
  rw [nearestNesting, Cursor.push, Cursor.nearestMessage?_frames]
  rfl

theorem callAround?_push
    (cursor : TreeCursor)
    (value : TreeFrame)
    (alone : value.padding?.bind PaddingFrame.element? ≠ some .methodSelect) :
    callAround? (cursor.push value) = none := by
  have noReceiver : isReceiverOf (cursor.push value).top cursor.top = false := by
    rw [isReceiverOf, Bool.and_eq_false_iff]
    exact .inl (decide_eq_false alone)
  change (if isReceiverOf (cursor.push value).top cursor.top = true then _ else _) = none
  rw [noReceiver]
  rfl

theorem callAround?_of_isNode
    (isNode : cursor.top.value = .tree tree) :
    callAround? cursor = none := by
  obtain ⟨top, below⟩ := cursor
  cases below with
  | nil => rfl
  | cons owner below =>
      have same : callAround? ⟨top, owner :: below⟩ = callAround? (Cursor.push ⟨owner, below⟩ top.value) := rfl
      rw [same]
      refine callAround?_push _ _ ?_
      rw [show top.value = _ from isNode]
      exact nofun

variable {isBody : Bool}

/-- A part that stands right inside a node. -/
theorem ReadsInside.part
    (reads : ReadsInside styles.indents cursor inside)
    (isNode : cursor.top.value = .tree tree)
    (owns : ownsBlock [.tree tree] = isBody) :
    Reads styles.indents cursor { inside.part with isBody := isBody } where
  line := reads.line
  nesting := reads.nesting
  element := by
    rw [givenColumn?, isNode]
    rfl
  chain := by
    rw [callAround?_of_isNode isNode]
    rfl
  isBody := by
    rw [← owns, Cursor.values, Cursor.frames, List.map_cons, isNode]
    rfl

/-- A part that stands in the frame of a padding that is no receiver and no element of a list. -/
theorem ReadsInside.padded
    (reads : ReadsInside styles.indents cursor inside)
    (isNode : cursor.top.value = .tree tree)
    (owns : ownsBlock [.tree tree] = isBody)
    (padding : PaddingFrame)
    (noReceiver : padding.element? ≠ some .methodSelect)
    (noElement : forall place, padding.element? = some place -> place.isContainerElement = false) :
    Reads styles.indents (cursor.push (.padding padding)) { inside.part with isBody := isBody } where
  line := (lastIndent_push cursor _).trans reads.line
  nesting := (nearestNesting_push cursor _).trans reads.nesting
  element := by
    have given : givenColumn? (cursor.push (.padding padding)) = none := by
      cases padding with
      | element place =>
          have isPlain : place.isContainerElement = false := noElement place rfl
          exact if_neg (by rw [isPlain]; exact Bool.false_ne_true)
      | operand => rfl
      | container => rfl
    exact given
  chain := by
    have alone : callAround? (cursor.push (.padding padding)) = none :=
      callAround?_push cursor _ noReceiver
    rw [alone]
    rfl
  isBody := (reads.part isNode owns).isBody

theorem callAround?_receiver
    (isNode : cursor.top.value = .tree tree)
    (calls : isCall tree = true) :
    callAround? (cursor.push (.padding (.element .methodSelect))) = some cursor := by
  have isReceiver : isReceiverOf ⟨.padding (.element .methodSelect), .empty⟩ cursor.top = true := by
    rw [isReceiverOf, isNode, Bool.and_eq_true]
    exact ⟨rfl, calls⟩
  exact if_pos isReceiver

/-- The receiver of a call. -/
theorem ReadsInside.receiver
    (reads : ReadsInside styles.indents cursor inside)
    (isNode : cursor.top.value = .tree tree)
    (calls : isCall tree = true) :
    Reads styles.indents (cursor.push (.padding (.element .methodSelect))) inside.receiver where
  line := (lastIndent_push cursor _).trans reads.line
  nesting := (nearestNesting_push cursor _).trans reads.nesting
  element := rfl
  chain := by
    rw [callAround?_receiver isNode calls]
    exact congrArg some reads.chain
  isBody := by
    have owns : ownsBlock [.tree tree] = true := by
      obtain ⟨head, form⟩ := tree
      cases form <;> first | rfl | cases calls
    exact (reads.part isNode owns).isBody

/-- An element of a list inside a node, to which the list gives a column. -/
theorem ReadsInside.element
    (reads : ReadsInside styles.indents cursor inside)
    (isNode : cursor.top.value = .tree tree)
    (owns : ownsBlock [.tree tree] = true)
    (place : ContainerPlace)
    (column : Nat)
    (blank : Bool) :
    Reads styles.indents
      (((cursor.push (.padding (.container place))).push (.padding (.element place.element))).putMessage
        elementIndentKey (.column column)) (inside.element column blank) where
  line := by
    have noted : elementIndentKey ≠ lastIndentKey := by decide
    rw [lastIndent, ← Cursor.putMessageBelow, Cursor.nearestMessage?_putMessageBelow noted]
    exact (lastIndent_push _ _).trans ((lastIndent_push cursor _).trans reads.line)
  nesting := by
    have noted : elementIndentKey ≠ nestingKey := by decide
    rw [nearestNesting, ← Cursor.putMessageBelow, Cursor.nearestMessage?_putMessageBelow noted]
    exact (nearestNesting_push _ _).trans ((nearestNesting_push cursor _).trans reads.nesting)
  element := by
    cases place <;> rfl
  chain := by
    have alone : callAround? (((cursor.push (.padding (.container place))).push (.padding (.element place.element))).putMessage
        elementIndentKey (.column column)) = none := by
      refine (callAround?_push (cursor.push (.padding (.container place))) (.padding (.element place.element)) ?_ :)
      cases place <;> exact nofun
    rw [alone]
    rfl
  isBody := (reads.part isNode owns).isBody

/-! ## Spaces between the parts -/

/-- A space that neither starts a node nor a segment is moved to a column, and leaves the frames alone. -/
theorem indentedSpace_between
    {place : SpacePlace}
    (style : IndentStyle)
    (isBetween : place.isTreePrefix = false)
    (noSegment : place ≠ .methodSelectSuffix)
    (space : Space)
    (cursor : TreeCursor) :
    indentedSpace style place space cursor =
        Exact.indentTo style (Exact.columnFor style (lastIndent cursor)
          (if isForcedAligned cursor place then .aligned else nearestNesting cursor)) space ∧
      spaceCursor style place space cursor = cursor := by
  have noUnit : place ≠ .compilationUnitPrefix := by
    rintro rfl
    cases isBetween
  have isBetween : ¬place.isTreePrefix = true := by simp [isBetween]
  have column : columnAt style place cursor = Exact.columnFor style (lastIndent cursor)
      (if isForcedAligned cursor place then .aligned else nearestNesting cursor) := by
    rw [columnAt, if_neg noSegment, elementIndent?, if_neg isBetween, nestingFor, if_neg isBetween]
    rfl
  unfold indentedSpace spaceCursor
  rw [if_neg noUnit, ← column]
  cases breaks : space.containsNewline with
  | false => exact ⟨by rw [if_neg (by simp), indentTo_of_inLine _ _ breaks], if_neg (by simp)⟩
  | true =>
      refine ⟨if_pos rfl, ?_⟩
      rw [if_pos ⟨noUnit, rfl⟩, wrappedCursor, notedFor, if_neg noSegment, if_neg isBetween, if_neg noSegment]

/-- A space that goes to the column of the line. -/
theorem ReadsInside.edge
    (reads : ReadsInside styles.indents cursor inside)
    {place : SpacePlace}
    (isBetween : place.isTreePrefix = false)
    (forced : isForcedAligned cursor place = true)
    (space : Space) :
    indentedSpace styles.indents place space cursor = Exact.indentTo styles.indents (inside.edge place).column space ∧
      spaceCursor styles.indents place space cursor = cursor := by
  have noSegment : place ≠ .methodSelectSuffix := by
    rintro rfl
    cases forced
  have moved := indentedSpace_between styles.indents isBetween noSegment space cursor
  rw [if_pos forced, reads.line] at moved
  exact moved

/-- A space before an operand or a list, in the frame of its padding. -/
theorem ReadsInside.gap
    (reads : ReadsInside styles.indents cursor inside)
    (padding : PaddingFrame)
    {place : SpacePlace}
    (isBetween : place.isTreePrefix = false)
    (noSegment : place ≠ .methodSelectSuffix)
    (free : isForcedAligned (cursor.push (.padding padding)) place = false)
    (blank : Option Bool)
    (space : Space) :
    indentedSpace styles.indents place space (cursor.push (.padding padding)) =
        Exact.indentTo styles.indents (inside.gap styles place blank).column space ∧
      spaceCursor styles.indents place space (cursor.push (.padding padding)) = cursor.push (.padding padding) := by
  have moved := indentedSpace_between styles.indents isBetween noSegment space (cursor.push (.padding padding))
  rw [free, if_neg (by simp), lastIndent_push, nearestNesting_push, reads.line, reads.nesting] at moved
  exact moved

end Parts

/-! ## Chains of calls -/

section Chains

variable {style : IndentStyle} {around cursor : TreeCursor} {inside : Interior} {tree : Tree}

theorem Inside.isNode (within : Inside style around tree cursor inside) : cursor.top.value = .tree tree := by
  obtain ⟨⟨top, last, rfl, isNode, -⟩, -⟩ := within
  exact isNode

/-- Noting the column of a chain makes no difference inside a node. -/
theorem Inside.noteChain (within : Inside style around tree cursor inside) :
    Inside style around tree (noteChain style cursor) inside := by
  obtain ⟨⟨top, last, rfl, isNode, left⟩, reads⟩ := within
  obtain ⟨noted, lastNoted, atNoted, same, leftNoted⟩ := left.noteChain top
  refine ⟨⟨noted, lastNoted, atNoted, same.trans isNode, leftNoted⟩, ?_, ?_, ?_⟩
  · rw [← reads.line, lastIndent, nearestMessage?_noteChain style keys_differ.2.2.2.2.2.2.2.1]
    rfl
  · rw [← reads.nesting, nearestNesting, nearestMessage?_noteChain style keys_differ.2.2.2.2.2.2.2.2]
    rfl
  · rw [chainColumn_noteChain, reads.chain]

/-- Once the column of a chain is noted, it does not depend on the line of the outermost call any more. -/
theorem chainColumn_putMessage
    {top : Frame TreeFrame}
    {last : TreeCursor}
    (noted : ((chainCursor ⟨top, last.frames⟩).message? Message.column? chainedIndentKey).isSome = true)
    (message : Message) :
    chainColumn style ((Cursor.mk top last.frames).putMessage lastIndentKey message) =
      chainColumn style ⟨top, last.frames⟩ := by
  have outermost := chainCursor_frames top last
  rw [Cursor.putMessage, chainColumn_frames, chainColumn_frames]
  cases around : callAround? last with
  | some call => rfl
  | none =>
      rw [around, Option.map_none, Option.getD_none] at outermost
      rw [outermost] at noted
      obtain ⟨column, found⟩ := Option.isSome_iff_exists.1 noted
      have found : top.messages.read? Message.column? chainedIndentKey = some column := found
      rw [Option.map_none, Option.getD_none, Option.getD_none, Messages.read?_put, if_neg keys_differ.2.2.2.1, found]
      rfl

/-- The space before the dot of a segment goes to the column of the chain, and starts a line in it. -/
theorem Inside.afterReceiver
    (within : Inside style around tree cursor inside)
    (after : Space) :
    indentedSpace style .methodSelectSuffix after cursor = Exact.indentTo style inside.chain after ∧
      Inside style around tree (spaceCursor style .methodSelectSuffix after cursor) (inside.afterReceiver after) := by
  have column : columnAt style .methodSelectSuffix cursor = inside.chain := within.reads.chain
  unfold indentedSpace spaceCursor Interior.afterReceiver
  rw [if_neg nofun, column]
  cases breaks : after.containsNewline with
  | false =>
      rw [if_neg (by simp), if_neg (by simp), if_neg (by simp), indentTo_of_inLine _ _ breaks]
      exact ⟨rfl, within⟩
  | true =>
      rw [if_pos rfl, if_pos ⟨nofun, rfl⟩, if_pos rfl]
      refine ⟨rfl, ?_⟩
      have noted := isSome_noteChain style cursor
      obtain ⟨⟨top, last, atTop, isNode, left⟩, line, nesting, chain⟩ := within.noteChain
      have atCursor : wrappedCursor style .methodSelectSuffix after cursor =
          (Cursor.mk top last.frames).putMessage lastIndentKey (.column inside.chain) := by
        rw [← atTop, ← column]
        rfl
      rw [atTop] at noted nesting chain
      rw [atCursor]
      refine ⟨⟨_, last, rfl, isNode, left⟩, ?_, ?_, ?_⟩
      · rw [lastIndent, Cursor.putMessage, Cursor.nearestMessage?_frames, Messages.read?_put, if_pos rfl]
        rfl
      · rw [← nesting, nearestNesting, ← Cursor.putMessageBelow,
          Cursor.nearestMessage?_putMessageBelow keys_differ.2.2.1]
        rfl
      · rw [chainColumn_putMessage noted, chain]

end Chains

end Indents
end Format
end Lossless
