import Lossless.Cursor.Forest
import Lossless.Format.Auto
import Lossless.Proofs.Visit.Balance
import Mathlib.Data.List.Basic

/-!
# Forks keep messages apart

The links of a forest point to earlier places, so every place has a stack, and that stack depends on nothing but the
frames at its places. A fork adds new places and leaves the table before them alone: the copy answers like the original
in every frame, and since the two have no place in common, neither sees what is put or removed on the other.

The indentation puts messages on frames above the tree: the column of a chain of calls goes to the outermost call,
wherever that is. Since every pass has a fork of its own, these messages are on frames that were not there before. The
run has the result that it has below a copy of the stack, and the table of shared frames only grows.
-/

namespace Lossless

variable {ν α : Type}

/-! ## Lookups and changes -/

/-- What can be asked of a cursor. -/
inductive Lookup (α : Type)
  /-- The message of one type under a key of the innermost frame. -/
  | own (select : Message -> Option α) (key : Text)
  /-- The message of one type under a key of the innermost frame that has one. -/
  | nearest (select : Message -> Option α) (key : Text)

/-- The answer of a stack. -/
def Lookup.ask
    (cursor : Cursor ν) : Lookup α -> Option α
  | own select key => cursor.message? select key
  | nearest select key => cursor.nearestMessage? select key

/-- A change of the messages of one frame. -/
inductive MessageChange
  | put (key : Text) (message : Message)
  | remove (key : Text)

def MessageChange.apply (messages : Messages) : MessageChange -> Messages
  | put key message => messages.put key message
  | remove key => messages.remove key

namespace Forest

/-- The answer of the cursor that ends in a place. -/
def answer?
    (forest : Forest ν)
    (lookup : Lookup α)
    (place : Nat) : Option α :=
  (forest.stack? place).bind lookup.ask

/-- Change messages at some places, one after the other. -/
def change
    (forest : Forest ν)
    (changes : List (Nat × MessageChange)) : Forest ν :=
  changes.foldl
    (fun forest change => forest.modifyMessages change.1 fun messages => change.2.apply messages) forest

/-- Links point to earlier places. -/
def PointsBack (links : List (Option Nat)) : Prop :=
  forall place below : Nat, links[place]? = some (some below) -> below < place

/-- Every link of the table points to an earlier place. -/
abbrev IsLinked (forest : Forest ν) : Prop :=
  PointsBack forest.links

theorem empty_isLinked : (empty : Forest ν).IsLinked := nofun

/-- The frame at a place. -/
def frame?
    (forest : Forest ν)
    (place : Nat) : Option (Frame ν) :=
  forest.shared[place]?.map fun shared => shared.frame

/-- The frames of the stack that ends in a place. -/
def frames
    (forest : Forest ν)
    (place : Nat) : List (Frame ν) :=
  (forest.places place).filterMap forest.frame?

/-! ## Stacks -/

theorem length_links (forest : Forest ν) : forest.links.length = forest.shared.length :=
  List.length_map _

theorem framesWithin_eq
    (forest : Forest ν)
    (count place : Nat) :
    forest.framesWithin count place = (placesWithin forest.links count place).filterMap forest.frame? := by
  induction count generalizing place with
  | zero => rfl
  | succ count ih =>
      rw [framesWithin, placesWithin, links, List.getElem?_map]
      rcases found : forest.shared[place]? with _ | ⟨frame, _ | below⟩
      · rfl
      · simp [frame?, found]
      · simp [frame?, found, ih below, links]

theorem framesWithin_length
    (forest : Forest ν)
    (place : Nat) :
    forest.framesWithin forest.shared.length place = forest.frames place := by
  rw [framesWithin_eq, <- length_links]
  rfl

theorem stack?_eq_some_iff
    {forest : Forest ν}
    {place : Nat}
    {cursor : Cursor ν} :
    forest.stack? place = some cursor <-> forest.frames place = cursor.frames := by
  rw [stack?, framesWithin_length]
  obtain ⟨top, below⟩ := cursor
  cases forest.frames place <;> simp [Cursor.frames]

/-- The stack depends on nothing but the frames. -/
theorem stack?_congr
    {forest other : Forest ν}
    {place otherPlace : Nat}
    (same : other.frames otherPlace = forest.frames place) :
    other.stack? otherPlace = forest.stack? place := by
  rw [stack?, stack?, framesWithin_length, framesWithin_length, same]

theorem placesWithin_of_none
    {links : List (Option Nat)}
    {place : Nat}
    (missing : links[place]? = none)
    (count : Nat) :
    placesWithin links count place = [] := by
  cases count with
  | zero => rfl
  | succ count => rw [placesWithin, missing]

/-- Links that point to earlier places end after so many steps. -/
theorem placesWithin_of_lt
    {links : List (Option Nat)}
    (isLinked : PointsBack links)
    {count other place : Nat}
    (enough : place < count)
    (alsoEnough : place < other) :
    placesWithin links count place = placesWithin links other place := by
  induction place using Nat.strongRecOn generalizing count other with
  | ind place ih =>
      obtain ⟨count, rfl⟩ := Nat.exists_eq_add_one_of_ne_zero (Nat.ne_zero_of_lt enough)
      obtain ⟨other, rfl⟩ := Nat.exists_eq_add_one_of_ne_zero (Nat.ne_zero_of_lt alsoEnough)
      rw [placesWithin, placesWithin]
      rcases found : links[place]? with _ | _ | below
      · rfl
      · rfl
      · have earlier := isLinked _ _ found
        exact congrArg (place :: ·) (ih below earlier (by omega) (by omega))

theorem placesWithin_append
    {links : List (Option Nat)}
    (isLinked : PointsBack links)
    (more : List (Option Nat))
    (count : Nat)
    {place : Nat}
    (isPlace : place < links.length) :
    placesWithin (links ++ more) count place = placesWithin links count place := by
  induction count generalizing place with
  | zero => rfl
  | succ count ih =>
      rw [placesWithin, placesWithin, List.getElem?_append_left isPlace]
      rcases found : links[place]? with _ | _ | below
      · rfl
      · rfl
      · exact congrArg (place :: ·) (ih (Nat.lt_trans (isLinked _ _ found) isPlace))

section Linked

variable {forest : Forest ν} (isLinked : forest.IsLinked)

include isLinked

/-- The places of a stack, by the link of the innermost one. -/
theorem places_eq (place : Nat) :
    forest.places place =
      match forest.links[place]? with
      | none => []
      | some none => [place]
      | some (some below) => place :: forest.places below := by
  rcases found : forest.links[place]? with _ | link
  · exact placesWithin_of_none found _
  · have isPlace : place < forest.links.length := (List.getElem?_eq_some_iff.mp found).1
    have enough : forest.places place = placesWithin forest.links (forest.links.length + 1) place :=
      placesWithin_of_lt isLinked isPlace (Nat.lt_succ_of_lt isPlace)
    rw [enough, placesWithin, found]
    cases link <;> rfl

theorem lt_of_mem_places
    {place other : Nat}
    (member : other ∈ forest.places place) :
    other ≤ place ∧ other < forest.shared.length := by
  induction place using Nat.strongRecOn with
  | ind place ih =>
      rw [places_eq isLinked] at member
      rcases found : forest.links[place]? with _ | _ | below <;> rw [found] at member
      · cases member
      · have isPlace := (List.getElem?_eq_some_iff.mp found).1
        rw [length_links] at isPlace
        rw [List.mem_singleton.mp member]
        exact ⟨Nat.le_refl _, isPlace⟩
      · have isPlace := (List.getElem?_eq_some_iff.mp found).1
        rw [length_links] at isPlace
        have earlier := isLinked _ _ found
        rcases List.mem_cons.mp member with rfl | deeper
        · exact ⟨Nat.le_refl _, isPlace⟩
        · exact ⟨by have := (ih below earlier deeper).1; omega, (ih below earlier deeper).2⟩

/-- The stacks below a place are parts of its stack. -/
theorem places_subset
    {place other : Nat}
    (member : other ∈ forest.places place) :
    forest.places other ⊆ forest.places place := by
  induction place using Nat.strongRecOn with
  | ind place ih =>
      have places := places_eq isLinked place
      rw [places] at member
      rcases found : forest.links[place]? with _ | _ | below <;> rw [found] at member places
      · cases member
      · rw [List.mem_singleton.mp member]
        exact List.Subset.refl _
      · rcases List.mem_cons.mp member with rfl | deeper
        · exact List.Subset.refl _
        · rw [places]
          exact List.subset_cons_of_subset _ (ih below (isLinked _ _ found) deeper)

theorem mem_places_self
    {place : Nat}
    (isPlace : place < forest.shared.length) :
    place ∈ forest.places place := by
  rw [<- length_links] at isPlace
  rw [places_eq isLinked, List.getElem?_eq_getElem isPlace]
  cases forest.links[place] <;> simp

/-- The frames of a stack, by the link of the innermost one. -/
theorem frames_eq (place : Nat) :
    forest.frames place =
      match forest.shared[place]? with
      | none => []
      | some ⟨frame, none⟩ => [frame]
      | some ⟨frame, some below⟩ => frame :: forest.frames below := by
  rw [frames, places_eq isLinked, links, List.getElem?_map]
  rcases found : forest.shared[place]? with _ | ⟨frame, _ | below⟩ <;> simp [frame?, found, frames]

theorem lt_of_stack?
    {place : Nat}
    {cursor : Cursor ν}
    (found : forest.stack? place = some cursor) :
    place < forest.shared.length := by
  by_contra outside
  have noFrames := frames_eq isLinked place
  rw [List.getElem?_eq_none (Nat.le_of_not_lt outside), stack?_eq_some_iff.mp found] at noFrames
  cases noFrames

theorem exists_stack
    {place : Nat}
    (isPlace : place < forest.shared.length) :
    exists cursor, forest.stack? place = some cursor := by
  have frames := frames_eq isLinked place
  rw [List.getElem?_eq_getElem isPlace] at frames
  rcases found : forest.shared[place] with ⟨frame, _ | below⟩ <;> rw [found] at frames
  · exact ⟨⟨frame, []⟩, stack?_eq_some_iff.mpr frames⟩
  · exact ⟨⟨frame, forest.frames below⟩, stack?_eq_some_iff.mpr frames⟩

/-- The places of a stack have the stacks that end in its frames. -/
theorem stack?_places
    {place : Nat}
    {cursor : Cursor ν}
    (stack : forest.stack? place = some cursor) :
    (forest.places place).map forest.stack? = cursor.ancestors.map some := by
  induction place using Nat.strongRecOn generalizing cursor with
  | ind place ih =>
      have frames := stack?_eq_some_iff.mp stack
      rw [frames_eq isLinked] at frames
      rw [places_eq isLinked, links, List.getElem?_map]
      obtain ⟨top, below⟩ := cursor
      rcases found : forest.shared[place]? with _ | ⟨frame, _ | link⟩ <;> rw [found] at frames
      · cases frames
      · cases frames
        simp [stack, Cursor.ancestors, Cursor.ancestors.cursorsFrom]
      · have isPlace := (List.getElem?_eq_some_iff.mp found).1
        have earlier : link < place := isLinked _ _ (by rw [links, List.getElem?_map, found]; rfl)
        obtain ⟨⟨next, rest⟩, around⟩ := exists_stack isLinked (Nat.lt_trans earlier isPlace)
        have above := ih link earlier around
        have below := stack?_eq_some_iff.mp around
        dsimp only at frames
        rw [below] at frames
        cases frames
        simp only [Option.map_some, List.map_cons, stack, above]
        rfl

end Linked

/-! ## Frames on top -/

section Prefix

variable {forest other : Forest ν}

theorem IsLinked.of_links
    (isLinked : forest.IsLinked)
    (same : other.links = forest.links) :
    other.IsLinked := by
  intro place below found
  exact isLinked _ _ (same ▸ found)

theorem links_grow (grows : forest.shared <+: other.shared) : forest.links <+: other.links :=
  grows.map _

variable (isLinked : forest.IsLinked) (grows : forest.shared <+: other.shared)
variable {place : Nat} (isPlace : place < forest.shared.length)

include isLinked grows isPlace

/-- A table that grows keeps the places of its stacks. -/
theorem places_of_grows : other.places place = forest.places place := by
  obtain ⟨more, links⟩ := links_grow grows
  rw [<- length_links] at isPlace
  have inRange : place < other.links.length := by
    rw [<- links, List.length_append]
    omega
  calc other.places place
      = placesWithin (forest.links ++ more) other.links.length place := by rw [places, links]
    _ = placesWithin forest.links other.links.length place := placesWithin_append isLinked more _ isPlace
    _ = forest.places place := placesWithin_of_lt isLinked inRange isPlace

/-- A table that grows keeps its stacks. -/
theorem frames_of_grows : other.frames place = forest.frames place := by
  rw [frames, places_of_grows isLinked grows isPlace]
  apply List.filterMap_congr
  intro deeper member
  obtain ⟨more, shared⟩ := grows
  rw [frame?, frame?, <- shared, List.getElem?_append_left (lt_of_mem_places isLinked member).2]

theorem stack?_of_grows : other.stack? place = forest.stack? place :=
  stack?_congr (frames_of_grows isLinked grows isPlace)

end Prefix

/-- The places of the stack above which something is added, if there is one. -/
def placesFrom
    (forest : Forest ν)
    (below : Option Nat) : List Nat :=
  below.elim [] forest.places

/-- The frames of the stack above which something is added, if there is one. -/
def framesFrom
    (forest : Forest ν)
    (below : Option Nat) : List (Frame ν) :=
  below.elim [] forest.frames

/-- Frames, given from the bottom up, stand in new places above a stack. -/
structure Adds
    (forest : Forest ν)
    (below : Option Nat)
    (added : List (Frame ν))
    (other : Forest ν)
    (top : Option Nat) : Prop where
  isLinked : other.IsLinked
  grows : forest.shared <+: other.shared
  isPlace : forall place, top = some place -> place < other.shared.length
  frames : other.framesFrom top = added.reverse ++ forest.framesFrom below
  fresh : forall place, place ∈ other.placesFrom top ->
    place ∈ forest.placesFrom below ∨ forest.shared.length ≤ place

section Add

variable {forest : Forest ν} (isLinked : forest.IsLinked)

include isLinked

theorem add_isLinked
    (frame : Frame ν)
    {below : Option Nat}
    (inRange : forall place, below = some place -> place < forest.shared.length) :
    (forest.add frame below).1.IsLinked := by
  intro place other found
  rw [add, links, List.map_append, List.getElem?_append] at found
  split at found
  · exact isLinked _ _ found
  · next outside =>
      rw [List.length_map] at outside found
      obtain ⟨isLast, rfl⟩ : place - forest.shared.length = 0 ∧ below = some other := by
        rcases rest : place - forest.shared.length with _ | _ <;> simp_all
      have := inRange other rfl
      omega

theorem add_adds
    (frame : Frame ν)
    {below : Option Nat}
    (inRange : forall place, below = some place -> place < forest.shared.length) :
    Adds forest below [frame] (forest.add frame below).1 (some (forest.add frame below).2) := by
  have linked := add_isLinked isLinked frame inRange
  have grows : forest.shared <+: (forest.add frame below).1.shared := List.prefix_append _ _
  have last : (forest.add frame below).1.shared[forest.shared.length]? = some ⟨frame, below⟩ := by
    simp [add]
  have lastLink : (forest.add frame below).1.links[forest.shared.length]? = some below := by
    simp [add, links]
  refine ⟨linked, grows, ?_, ?_, ?_⟩
  · rintro _ ⟨⟩
    simp [add]
  · change (forest.add frame below).1.frames forest.shared.length = _
    rw [frames_eq linked, last]
    cases below with
    | none => rfl
    | some below => exact congrArg (frame :: ·) (frames_of_grows isLinked grows (inRange _ rfl))
  · intro place member
    change place ∈ (forest.add frame below).1.places forest.shared.length at member
    rw [places_eq linked, lastLink] at member
    cases below with
    | none => exact .inr (List.mem_singleton.mp member ▸ Nat.le_refl _)
    | some below =>
        rcases List.mem_cons.mp member with rfl | deeper
        · exact .inr (Nat.le_refl _)
        · rw [places_of_grows isLinked grows (inRange _ rfl)] at deeper
          exact .inl deeper

/-- A stack is added frame by frame. -/
theorem addStack_adds
    {below : Option Nat}
    (inRange : forall place, below = some place -> place < forest.shared.length)
    (added : List (Frame ν)) :
    Adds forest below added (forest.addStack below added).1 (forest.addStack below added).2 := by
  induction added generalizing forest below with
  | nil => exact ⟨isLinked, List.prefix_rfl, inRange, rfl, fun _ member => .inl member⟩
  | cons frame above ih =>
      have first := add_adds isLinked frame inRange
      have others := ih first.isLinked first.isPlace
      refine ⟨others.isLinked, first.grows.trans others.grows, others.isPlace, ?_, ?_⟩
      · rw [List.reverse_cons, List.append_assoc, <- List.reverse_singleton, <- first.frames]
        exact others.frames
      · intro place member
        rcases others.fresh place member with old | new
        · exact first.fresh place old
        · exact .inr (Nat.le_trans first.grows.length_le new)

/-- A whole stack that is added is found where it ends. -/
theorem exists_addStack (cursor : Cursor ν) :
    exists other top, forest.addStack none cursor.frames.reverse = (other, some top) ∧
      Adds forest none cursor.frames.reverse other (some top) ∧ other.stack? top = some cursor := by
  have adds : Adds forest none cursor.frames.reverse _ _ := addStack_adds isLinked (by nofun) _
  have frames := adds.frames
  rw [List.reverse_reverse] at frames
  rcases added : forest.addStack none cursor.frames.reverse with ⟨other, _ | top⟩ <;>
    rw [added] at adds frames
  · cases frames
  · exact ⟨other, top, rfl, adds, stack?_eq_some_iff.mpr (frames.trans (List.append_nil _))⟩

end Add

/-- Every stack ends in a place of some table. -/
theorem exists_forest (cursor : Cursor ν) :
    exists (forest : Forest ν) (place : Nat), forest.IsLinked ∧ forest.stack? place = some cursor := by
  obtain ⟨forest, place, -, adds, found⟩ := exists_addStack empty_isLinked cursor
  exact ⟨forest, place, adds.isLinked, found⟩

/-! ## Changes elsewhere -/

theorem links_modifyMessages
    (forest : Forest ν)
    (place : Nat)
    (change : Messages -> Messages) :
    (forest.modifyMessages place change).links = forest.links := by
  apply List.ext_getElem?
  intro other
  simp only [links, modifyMessages, List.getElem?_map, List.getElem?_modify]
  split <;> cases forest.shared[other]? <;> rfl

theorem frame?_modifyMessages
    (forest : Forest ν)
    (place : Nat)
    (change : Messages -> Messages)
    (other : Nat) :
    (forest.modifyMessages place change).frame? other =
      if place = other then
        (forest.frame? other).map fun frame => { frame with messages := change frame.messages }
      else forest.frame? other := by
  simp only [frame?, modifyMessages, List.getElem?_modify]
  split <;> cases forest.shared[other]? <;> rfl

theorem links_change
    (forest : Forest ν)
    (changes : List (Nat × MessageChange)) :
    (forest.change changes).links = forest.links := by
  induction changes generalizing forest with
  | nil => rfl
  | cons first rest ih => exact (ih _).trans (links_modifyMessages _ _ _)

/-- Changes of messages leave the links alone. -/
theorem IsLinked.change
    {forest : Forest ν}
    (isLinked : forest.IsLinked)
    (changes : List (Nat × MessageChange)) :
    (forest.change changes).IsLinked :=
  isLinked.of_links (links_change forest changes)

/-- The changes made at a place are all that happens to its frame. -/
theorem frame?_change
    (forest : Forest ν)
    (changes : List (Nat × MessageChange))
    (place : Nat) :
    (forest.change changes).frame? place =
      (forest.frame? place).map fun frame =>
        { frame with
          messages := (changes.filter fun change => change.1 = place).foldl
            (fun messages change => change.2.apply messages) frame.messages } := by
  induction changes generalizing forest with
  | nil => cases found : forest.frame? place <;> simp [change, found]
  | cons first rest ih =>
      rw [show forest.change (first :: rest) = (forest.modifyMessages first.1 fun messages =>
        first.2.apply messages).change rest from rfl, ih, frame?_modifyMessages]
      by_cases here : first.1 = place <;> cases forest.frame? place <;> simp [here]

/-- Changes at other places are not seen. -/
theorem stack?_change_filter
    (forest : Forest ν)
    (changes : List (Nat × MessageChange))
    (place : Nat)
    (keeps : Nat -> Bool)
    (seen : forall other, other ∈ forest.places place -> keeps other) :
    (forest.change changes).stack? place =
      (forest.change (changes.filter fun change => keeps change.1)).stack? place := by
  apply stack?_congr
  rw [frames, frames, places, places, links_change, links_change]
  apply List.filterMap_congr
  intro other member
  have kept := seen other member
  rw [frame?_change, frame?_change, List.filter_filter]
  congr 2
  funext frame
  congr 3
  funext change
  by_cases here : change.1 = other <;> simp [here, kept]

/-- Messages that are left at places behind the end of a table do not change it. -/
theorem carry_of_grows
    {forest other : Forest ν}
    (grows : forest.shared <+: other.shared)
    {places : List Nat}
    (fresh : forall place, place ∈ places -> forest.shared.length ≤ place)
    (frames : List (Frame ν)) :
    forest.shared <+: (other.carry places frames).shared := by
  induction places generalizing other frames with
  | nil => exact grows
  | cons place places ih =>
      obtain _ | ⟨frame, frames⟩ := frames
      · exact grows
      · refine ih ?_ (fun other member => fresh other (List.mem_cons_of_mem _ member)) frames
        rw [List.prefix_iff_getElem?] at grows ⊢
        intro other inRange
        have isElsewhere : place ≠ other := by
          have := fresh place List.mem_cons_self
          omega
        rw [modifyMessages, List.getElem?_modify_ne _ _ isElsewhere]
        exact grows other inRange

theorem links_carry
    (forest : Forest ν)
    (places : List Nat)
    (frames : List (Frame ν)) :
    (forest.carry places frames).links = forest.links := by
  induction places generalizing forest frames with
  | nil => rfl
  | cons place places ih =>
      obtain _ | ⟨frame, frames⟩ := frames
      · rfl
      · exact (ih _ frames).trans (links_modifyMessages _ _ _)

theorem frame?_carry_of_notMem
    (forest : Forest ν)
    {places : List Nat}
    {place : Nat}
    (elsewhere : place ∉ places)
    (frames : List (Frame ν)) :
    (forest.carry places frames).frame? place = forest.frame? place := by
  induction places generalizing forest frames with
  | nil => rfl
  | cons first places ih =>
      obtain _ | ⟨frame, frames⟩ := frames
      · rfl
      · rw [List.mem_cons, not_or] at elsewhere
        rw [carry, ih _ elsewhere.2, frame?_modifyMessages, if_neg (Ne.symm elsewhere.1)]

/-- Messages that are left at different places are found there. -/
theorem filterMap_carry
    (forest : Forest ν)
    {places : List Nat}
    (nodup : places.Nodup)
    {frames : List (Frame ν)}
    (inRange : forall place, place ∈ places -> place < forest.shared.length)
    (same : frames.map Frame.value = (places.filterMap forest.frame?).map Frame.value) :
    places.filterMap (forest.carry places frames).frame? = frames := by
  induction places generalizing forest frames with
  | nil => exact (List.map_eq_nil_iff.mp same).symm
  | cons place places ih =>
      have isPlace := inRange place List.mem_cons_self
      rw [List.nodup_cons] at nodup
      obtain ⟨old, found⟩ : exists old, forest.frame? place = some old :=
        ⟨_, by rw [frame?, List.getElem?_eq_getElem isPlace]; rfl⟩
      rw [List.filterMap_cons_some found] at same
      obtain _ | ⟨frame, frames⟩ := frames
      · cases same
      · obtain ⟨value, others⟩ := List.cons_eq_cons.mp same
        let changed := forest.modifyMessages place fun _ => frame.messages
        have below : places.filterMap (changed.carry places frames).frame? = frames := by
          refine ih changed nodup.2 ?_ ?_
          · intro other member
            rw [<- length_links, links_modifyMessages, length_links]
            exact inRange other (List.mem_cons_of_mem _ member)
          · rw [others]
            congr 1
            apply List.filterMap_congr
            intro other member
            rw [frame?_modifyMessages, if_neg (by rintro rfl; exact nodup.1 member)]
        have atPlace : (changed.carry places frames).frame? place = some frame := by
          rw [frame?_carry_of_notMem _ nodup.1, frame?_modifyMessages, if_pos rfl, found]
          obtain ⟨frameValue, messages⟩ := frame
          obtain rfl : frameValue = old.value := value
          rfl
        rw [carry, List.filterMap_cons_some atPlace, below]

theorem nodup_places
    {forest : Forest ν}
    (isLinked : forest.IsLinked)
    (place : Nat) :
    (forest.places place).Nodup := by
  induction place using Nat.strongRecOn with
  | ind place ih =>
      rw [places_eq isLinked]
      rcases found : forest.links[place]? with _ | _ | below
      · exact List.nodup_nil
      · exact List.nodup_cons.mpr ⟨List.not_mem_nil, List.nodup_nil⟩
      · have earlier := isLinked _ _ found
        refine List.nodup_cons.mpr ⟨fun member => ?_, ih below earlier⟩
        have := (lt_of_mem_places isLinked member).1
        omega

/-- A stack whose messages are left at its place is found there. -/
theorem stack?_carry
    {forest : Forest ν}
    (isLinked : forest.IsLinked)
    {place : Nat}
    {stack cursor : Cursor ν}
    (found : forest.stack? place = some stack)
    (same : cursor.values = stack.values) :
    (forest.carry (forest.places place) cursor.frames).stack? place = some cursor := by
  have places : (forest.carry (forest.places place) cursor.frames).places place = forest.places place := by
    rw [places, links_carry, <- places]
  rw [stack?_eq_some_iff, Forest.frames, places]
  refine filterMap_carry forest (nodup_places isLinked place)
    (fun _ member => (lt_of_mem_places isLinked member).2) ?_
  rw [<- frames, stack?_eq_some_iff.mp found]
  exact same

/-! ## Isolation -/

/-- What is changed on the one stack, at whatever times, makes no difference to lookups on the other. -/
def IsBlindTo
    (forest : Forest ν)
    (observer other : Nat) : Prop :=
  forall (α : Type) (lookup : Lookup α) changes place, place ∈ forest.places observer ->
    (forest.change changes).answer? lookup place =
      (forest.change (changes.filter fun change => change.1 ∉ forest.places other)).answer? lookup place

/-- Two stacks that give the same answers in every frame, until one of them changes. -/
structure IsIsolated
    (forest : Forest ν)
    (first second : Nat) : Prop where
  alike : forall (α : Type) (lookup : Lookup α),
    (forest.places second).map (forest.answer? lookup) = (forest.places first).map (forest.answer? lookup)
  firstIsBlind : forest.IsBlindTo first second
  secondIsBlind : forest.IsBlindTo second first

theorem isBlindTo_of_disjoint
    {forest : Forest ν}
    (isLinked : forest.IsLinked)
    {observer other : Nat}
    (disjoint : forall place, place ∈ forest.places observer -> place ∉ forest.places other) :
    forest.IsBlindTo observer other := by
  intro α lookup changes place member
  rw [answer?, answer?, forest.stack?_change_filter changes place fun place => place ∉ forest.places other]
  intro deeper below
  exact decide_eq_true (disjoint deeper (places_subset isLinked member below))

/-- A copy of a stack in new places. -/
structure IsFork
    (forest : Forest ν)
    (place : Nat)
    (forked : Forest ν)
    (copy : Nat) : Prop where
  isLinked : forked.IsLinked
  grows : forest.shared <+: forked.shared
  isPlace : copy < forked.shared.length
  stack : forked.stack? copy = forest.stack? place
  fresh : forall place, place ∈ forked.places copy -> forest.shared.length ≤ place

section Fork

variable {forest : Forest ν} (isLinked : forest.IsLinked)
variable {place : Nat} (isPlace : place < forest.shared.length)

include isLinked isPlace

theorem exists_fork :
    exists forked copy, forest.fork place = (forked, some copy) ∧ IsFork forest place forked copy := by
  obtain ⟨stack, found⟩ := exists_stack isLinked isPlace
  obtain ⟨forked, copy, added, adds, ends⟩ := exists_addStack isLinked stack
  refine ⟨forked, copy, ?_, adds.isLinked, adds.grows, adds.isPlace copy rfl, ends.trans found.symm, ?_⟩
  · rw [fork, found]
    exact added
  · intro other member
    exact (adds.fresh other member).resolve_left List.not_mem_nil

/-- A copy answers like its original, and neither sees the changes of the other. -/
theorem IsFork.isIsolated
    {forked : Forest ν}
    {copy : Nat}
    (isFork : IsFork forest place forked copy) :
    forked.IsIsolated place copy := by
  have places := places_of_grows isLinked isFork.grows isPlace
  have disjoint : forall other, other ∈ forked.places place -> other ∉ forked.places copy := by
    intro other old new
    rw [places] at old
    have := (lt_of_mem_places isLinked old).2
    have := isFork.fresh other new
    omega
  refine ⟨fun α lookup => ?_, isBlindTo_of_disjoint isFork.isLinked disjoint,
    isBlindTo_of_disjoint isFork.isLinked fun other new old => disjoint other old new⟩
  obtain ⟨stack, found⟩ := exists_stack isFork.isLinked isFork.isPlace
  have original := isFork.stack
  rw [<- stack?_of_grows isLinked isFork.grows isPlace, found] at original
  have same : (forked.places copy).map forked.stack? = (forked.places place).map forked.stack? :=
    (stack?_places isFork.isLinked found).trans (stack?_places isFork.isLinked original.symm).symm
  have answers := congrArg (List.map fun stack => stack.bind lookup.ask) same
  rwa [List.map_map, List.map_map] at answers

end Fork
end Forest

/-! ## Passes below a fork -/

namespace Format

open Java Forest

/-! ## One pass -/

/-- A pass has the result that it has below the stack of its place. -/
theorem Pass.runAt_outcome
    (pass : Pass)
    (stopAfter : Option Stamp)
    {forest : Forest TreeFrame}
    {place : Nat}
    {parent : TreeCursor}
    (found : forest.stack? place = some parent)
    (tree : Tree) :
    (pass.runAt stopAfter forest place tree).1 = pass.run stopAfter parent tree := by
  rw [runAt, found]
  rfl

/-- A pass changes messages of its own frames alone. -/
theorem Pass.runAt_grows
    (pass : Pass)
    (stopAfter : Option Stamp)
    {forest forked : Forest TreeFrame}
    (grows : forest.shared <+: forked.shared)
    {place : Nat}
    (fresh : forall other, other ∈ forked.places place -> forest.shared.length ≤ other)
    (tree : Tree) :
    forest.shared <+: (pass.runAt stopAfter forked place tree).2.shared := by
  unfold runAt
  split
  · exact grows
  · exact carry_of_grows grows fresh _

theorem Pass.runAt_links
    (pass : Pass)
    (stopAfter : Option Stamp)
    (forest : Forest TreeFrame)
    (place : Nat)
    (tree : Tree) :
    (pass.runAt stopAfter forest place tree).2.links = forest.links := by
  unfold runAt
  split
  · rfl
  · exact links_carry _ _ _

/-- What a pass has put on the frames around it is seen at its place. -/
theorem Pass.runAt_stack?
    (pass : Pass)
    (stopAfter : Option Stamp)
    {forest : Forest TreeFrame}
    (isLinked : forest.IsLinked)
    {place : Nat}
    {parent : TreeCursor}
    (found : forest.stack? place = some parent)
    (keeps : Visitor.Keeps pass VisitState.SameDepth)
    (tree : Tree) :
    (pass.runAt stopAfter forest place tree).2.stack? place =
      some (Visitor.run pass tree (.start parent (.ofTarget stopAfter) () ())).2.cursor := by
  have restored := (visits_isBalanced.1 pass keeps).visitRestores tree
    (.start parent (.ofTarget stopAfter) () ())
  rw [runAt, found]
  exact stack?_carry isLinked found restored.frames

/-! ## Passes on forks -/

theorem runPassesAt_cons
    {stopAfter : Option Stamp}
    {forest forked : Forest TreeFrame}
    {place copy : Nat}
    (copied : forest.fork place = (forked, some copy))
    (pass : Pass)
    (rest : List Pass)
    (tree : Tree) :
    runPassesAt stopAfter place (pass :: rest) tree forest =
      match pass.runAt stopAfter forked copy tree with
      | (.error error, left) => (.error error, left)
      | (.ok visited, left) => runPassesAt stopAfter place rest (visited.getD tree) left := by
  rcases ran : pass.runAt stopAfter forked copy tree with ⟨error | visited, left⟩ <;>
    simp only [runPassesAt, copied, ran]

/-- Passes that run on forks of a stack give what they give below that stack, and the table only grows. -/
theorem runPassesAt_isolates
    (stopAfter : Option Stamp)
    {forest : Forest TreeFrame}
    (isLinked : forest.IsLinked)
    {place : Nat}
    {parent : TreeCursor}
    (found : forest.stack? place = some parent)
    (passes : List Pass)
    (tree : Tree)
    {current : Forest TreeFrame}
    (currentIsLinked : current.IsLinked)
    (grows : forest.shared <+: current.shared) :
    (runPassesAt stopAfter place passes tree current).1 = runPasses stopAfter parent passes tree ∧
      forest.shared <+: (runPassesAt stopAfter place passes tree current).2.shared := by
  have isPlace := lt_of_stack? isLinked found
  induction passes generalizing tree current with
  | nil => exact ⟨rfl, grows⟩
  | cons pass rest ih =>
      obtain ⟨forked, copy, copied, isFork⟩ :=
        exists_fork currentIsLinked (Nat.lt_of_lt_of_le isPlace grows.length_le)
      have parentOfCopy : forked.stack? copy = some parent := by
        rw [isFork.stack, stack?_of_grows isLinked grows isPlace, found]
      have outcome := pass.runAt_outcome stopAfter parentOfCopy tree
      have kept : forest.shared <+: (pass.runAt stopAfter forked copy tree).2.shared :=
        grows.trans (pass.runAt_grows stopAfter isFork.grows isFork.fresh tree)
      have linked := isFork.isLinked.of_links (pass.runAt_links stopAfter forked copy tree)
      rw [runPassesAt_cons copied, runPasses, <- outcome]
      rcases ran : pass.runAt stopAfter forked copy tree with ⟨error | visited, left⟩ <;>
        rw [ran] at kept linked
      · exact ⟨rfl, kept⟩
      · exact ih (visited.getD tree) linked kept

/-! ## Formatting -/

/-- What a formatting run does below a place. -/
theorem autoFormatAt_isolates
    (configure : Styles -> Styles)
    (stopAfter : Option Stamp)
    {forest : Forest TreeFrame}
    (isLinked : forest.IsLinked)
    {place : Nat}
    {parent : TreeCursor}
    (found : forest.stack? place = some parent)
    (tree : Tree) :
    (autoFormatAt configure stopAfter forest place tree).1 = autoFormat configure stopAfter parent tree ∧
      forest.shared <+: (autoFormatAt configure stopAfter forest place tree).2.shared := by
  rw [autoFormatAt, found]
  exact runPassesAt_isolates stopAfter isLinked found _ tree isLinked List.prefix_rfl

end Format

open Forest Format

/--
A fork answers every lookup like its original, in every frame, and from then on neither of the two sees what is put or
removed on the other, whatever is done on both in whatever order. A formatting run below any place gives what it gives
below the stack there, and all frames of that stack answer as before.
-/
theorem forks_isolateMessages :
    (forall (ν : Type) (forest : Forest ν) (place : Nat),
      forest.IsLinked -> place < forest.shared.length ->
        exists forked copy, forest.fork place = (forked, some copy) ∧
          forked.IsLinked ∧ forest.shared <+: forked.shared ∧
          place ∈ forked.places place ∧ copy ∈ forked.places copy ∧
          forked.IsIsolated place copy) ∧
    forall (configure : Styles -> Styles) (stopAfter : Option Stamp) (forest : Forest Java.TreeFrame)
        (place : Nat) (tree : Java.Tree),
      forest.IsLinked -> place < forest.shared.length ->
        let run := autoFormatAt configure stopAfter forest place tree
        (exists parent, forest.stack? place = some parent ∧
          run.1 = autoFormat configure stopAfter parent tree) ∧
        forest.shared <+: run.2.shared ∧ run.2.places place = forest.places place ∧
        forall (α : Type) (lookup : Lookup α) (around : Nat), around ∈ forest.places place ->
          run.2.answer? lookup around = forest.answer? lookup around := by
  constructor
  · intro ν forest place isLinked isPlace
    obtain ⟨forked, copy, copied, isFork⟩ := exists_fork isLinked isPlace
    exact ⟨forked, copy, copied, isFork.isLinked, isFork.grows,
      mem_places_self isFork.isLinked (Nat.lt_of_lt_of_le isPlace isFork.grows.length_le),
      mem_places_self isFork.isLinked isFork.isPlace, isFork.isIsolated isLinked isPlace⟩
  · intro configure stopAfter forest place tree isLinked isPlace run
    obtain ⟨parent, found⟩ := exists_stack isLinked isPlace
    obtain ⟨outcome, grows⟩ := autoFormatAt_isolates configure stopAfter isLinked found tree
    refine ⟨⟨parent, found, outcome⟩, grows, places_of_grows isLinked grows isPlace, ?_⟩
    intro α lookup around member
    rw [answer?, answer?, stack?_of_grows isLinked grows (lt_of_mem_places isLinked member).2]

/-- The frames around the receiver of an outer call, with nothing put on them. -/
def Java.aroundReceiver : Forest Java.TreeFrame :=
  let inner := Java.Tree.build (.identifier ['x'] none)
  let outer := Java.Tree.build
    (.call (some ⟨inner, .empty, .empty⟩) (.build (.identifier ['c'] none)) ⟨.empty, [], .empty⟩ none)
  let frames := [.root, .tree outer, .padding (.element .methodSelect)].map fun value => ⟨value, .empty⟩
  (Forest.empty.addStack none frames).1

/-- A wrapped call, to stand as the receiver of another one. -/
def Java.wrappedReceiver : Java.Tree :=
  .build (.call
    (some ⟨.build (.identifier ['a'] none), .build ['\n'] [], .empty⟩)
    (.build (.identifier ['b'] none)) ⟨.empty, [], .empty⟩ none)

/--
Below the frames themselves the indentation leaves the column of the chain on the outer call. Below a fork it does not,
and neither does a formatting run; a column that is put on a fork is seen there alone.
-/
theorem forks_isolateMessages_ofReceiver :
    let column := Lookup.nearest Message.column? Indents.chainedIndentKey
    let forest := Java.aroundReceiver
    let forked := (forest.fork 2).1.change [(5, .put Indents.chainedIndentKey (.column 8))]
    ((tabsAndIndents {}).runAt none forest 2 Java.wrappedReceiver).2.answer? column 1 = some 8 ∧
    (autoFormatAt id none forest 2 Java.wrappedReceiver).2.answer? column 1 = none ∧
    forked.answer? column 5 = some 8 ∧ forked.answer? column 2 = none := by
  intro column forest forked
  have adds : Adds .empty none _ forest _ := addStack_adds empty_isLinked (by nofun) _
  have isLinked := adds.isLinked
  obtain ⟨_, copy, copied, -, -, here, there, isolated⟩ :=
    forks_isolateMessages.1 _ forest 2 isLinked (by decide)
  obtain ⟨-, -, -, kept⟩ :=
    forks_isolateMessages.2 id none forest 2 Java.wrappedReceiver isLinked (by decide)
  refine ⟨by decide +kernel, (kept _ column 1 (by decide)).trans (by decide), by decide +kernel, ?_⟩
  · cases copied.symm.trans (rfl : _ = ((forest.fork 2).1, some 5))
    have unseen := isolated.firstIsBlind _ column
      [(5, .put Indents.chainedIndentKey (.column 8))] 2 here
    rw [List.filter_cons_of_neg (by simpa using there)] at unseen
    exact unseen

end Lossless
