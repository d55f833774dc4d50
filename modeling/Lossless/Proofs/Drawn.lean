import Lossless.Padding
import Lossless.Proofs.Parser.Outcome
import Mathlib.Algebra.Order.Sub.Basic
import Mathlib.Order.Interval.Finset.Nat
import Mathlib.Order.Interval.Multiset
import Mathlib.Tactic.Abel

/-!
# Drawn identifiers

Identifiers are numbers that are drawn in order, by a numbering of a finished tree or by a parser as it goes.
-/

namespace Lossless

/-!
## Drawing numbers

Numbers are drawn in order, so that the stamps with drawn numbers are distinct. `Numbering.Draws` says that a step gives
no stamp more often than it was known or drawn on the way; steps that follow one another draw from ranges that follow
one another.
-/

section Numbers

variable {α β : Type}

namespace Stamp

/-- The stamps with the numbers of a range, each once. -/
def drawn (low high : Nat) : Multiset Stamp := (Multiset.Ico low high).map settled

theorem drawn_self (number : Nat) : drawn number number = 0 := by
  simp [drawn]

theorem drawn_add
    {low middle high : Nat}
    (first : low ≤ middle)
    (second : middle ≤ high) :
    drawn low middle + drawn middle high = drawn low high := by
  rw [drawn, drawn, drawn, <- Multiset.map_add, Multiset.Ico_add_Ico_eq_Ico first second]

theorem drawn_succ (number : Nat) : drawn number (number + 1) = {settled number} := by
  have single : Multiset.Ico number (number + 1) = {number} := congrArg Finset.val (Nat.Ico_succ_singleton number)
  rw [drawn, single, Multiset.map_singleton]

/-- The stamps of all elements of a list, each as often as it is there. -/
def ofAll
    (stamps : α -> Multiset Stamp)
    (list : List α) : Multiset Stamp :=
  (list.map stamps).sum

variable {stamps : α -> Multiset Stamp}

@[simp] theorem ofAll_nil : ofAll stamps [] = 0 := rfl

@[simp] theorem ofAll_cons
    (first : α)
    (rest : List α) :
    ofAll stamps (first :: rest) = stamps first + ofAll stamps rest := List.sum_cons

@[simp] theorem ofAll_append
    (first second : List α) :
    ofAll stamps (first ++ second) = ofAll stamps first + ofAll stamps second := by
  rw [ofAll, List.map_append, List.sum_append]
  rfl

theorem coe_flatMap
    (ids : α -> List Stamp)
    (list : List α) :
    ((list.flatMap ids : List Stamp) : Multiset Stamp) = ofAll (fun element => (ids element : Multiset Stamp)) list := by
  induction list with
  | nil => rfl
  | cons first rest ih => rw [List.flatMap_cons, <- Multiset.coe_add, ih, ofAll_cons]

theorem nodup_drawn (low high : Nat) : (drawn low high).Nodup :=
  (Multiset.nodup_map_iff_of_injective fun _ _ same => settled.inj same).2 (Multiset.nodup_Ico ..)

/-- What is drawn from two ranges in a row is drawn from both. -/
theorem le_add_drawn
    {known used kept first last : Multiset Stamp}
    {low middle high : Nat}
    (early : first ≤ used + drawn low middle)
    (late : last ≤ first + kept + drawn middle high)
    (isKnown : used + kept ≤ known)
    (climbs : low ≤ middle)
    (climbsOn : middle ≤ high) :
    last ≤ known + drawn low high := by
  calc last
    _ ≤ first + kept + drawn middle high := late
    _ ≤ used + drawn low middle + kept + drawn middle high := by gcongr
    _ = used + kept + (drawn low middle + drawn middle high) := by abel
    _ ≤ known + drawn low high := by
      rw [drawn_add climbs climbsOn]
      gcongr

/-- What changes in the one element that holds a stamp changes in all of a list. -/
theorem ofAll_exchange
    {ids : α -> List Stamp}
    {change : α -> α}
    {list : List α}
    {target : Stamp}
    {taken put : Multiset Stamp}
    (distinct : (list.flatMap ids).Nodup)
    (inside : target ∈ list.flatMap ids)
    (stays : forall element, element ∈ list -> target ∉ ids element -> change element = element)
    (changes : forall element, element ∈ list -> target ∈ ids element ->
      stamps (change element) + taken = stamps element + put) :
    ofAll stamps (list.map change) + taken = ofAll stamps list + put := by
  induction list with
  | nil => exact absurd inside List.not_mem_nil
  | cons first rest ih =>
      obtain ⟨staysHere, staysLater⟩ := List.forall_mem_cons.1 stays
      obtain ⟨changesHere, changesLater⟩ := List.forall_mem_cons.1 changes
      obtain ⟨-, restDistinct, disjoint⟩ := List.nodup_append.1 (List.flatMap_cons .. ▸ distinct)
      rw [List.map_cons, ofAll_cons, ofAll_cons]
      by_cases here : target ∈ ids first
      · have same : rest.map change = rest := by
          refine (List.map_congr_left fun element member => ?_).trans (List.map_id' rest)
          exact staysLater element member fun later =>
            disjoint target here target (List.mem_flatMap.2 ⟨element, member, later⟩) rfl
        rw [same, add_right_comm, changesHere here, add_right_comm]
      · have below := (List.mem_append.1 (List.flatMap_cons .. ▸ inside)).resolve_left here
        rw [staysHere here, add_assoc, ih restDistinct below staysLater changesLater, add_assoc]

/-- The stamps that numbering leaves as they are. -/
def given (stamps : Multiset Stamp) : Multiset Stamp := stamps.filter (· ≠ .pending)

theorem given_add (first second : Multiset Stamp) : given (first + second) = given first + given second :=
  Multiset.filter_add ..

theorem given_ofAll
    (stamps : α -> Multiset Stamp)
    (list : List α) :
    given (ofAll stamps list) = ofAll (fun element => given (stamps element)) list := by
  induction list with
  | nil => rfl
  | cons first rest ih => rw [ofAll_cons, given_add, ih, ofAll_cons]

end Stamp

/-- The step leaves the next number where it was, or higher. -/
def Numbering.Climbs (step : Numbering α) : Prop :=
  forall next, next ≤ (step.run next).2

/-- The step gives no stamp more often than it was known or drawn on the way. -/
def Numbering.Draws
    (known : Multiset Stamp)
    (step : Numbering α)
    (ids : α -> Multiset Stamp) : Prop :=
  forall next, next ≤ (step.run next).2 ∧
    ids (step.run next).1 ≤ known + Stamp.drawn next (step.run next).2

namespace Numbering

theorem Climbs.pure (value : α) : Climbs (pure value) :=
  fun _ => Nat.le_refl _

theorem Climbs.bind
    {step : Numbering α}
    {next : α -> Numbering β}
    (first : step.Climbs)
    (others : forall value, (next value).Climbs) :
    Climbs (step >>= next) :=
  fun number => Nat.le_trans (first number) (others _ _)

theorem Climbs.mapM
    {step : α -> Numbering β}
    (each : forall value, (step value).Climbs)
    (list : List α) :
    Climbs (list.mapM step) := by
  induction list with
  | nil => exact .pure _
  | cons first rest ih =>
      rw [List.mapM_cons]
      exact .bind (each first) fun _ => .bind ih fun _ => .pure _

theorem climbs_stamp (stamp : Stamp) : Climbs stamp.settle := by
  intro next
  cases stamp with
  | pending => exact Nat.le_succ next
  | canonical => exact Nat.le_refl next
  | settled number => exact Nat.le_refl next

theorem climbs_markers
    {σ : Type}
    {settleSuffix : σ -> Numbering σ}
    (suffixes : forall suffix, (settleSuffix suffix).Climbs)
    (markers : Markers σ) :
    Climbs (markers.settle settleSuffix) := by
  refine .bind (climbs_stamp _) fun _ => .bind (climbs_stamp _) fun _ =>
    .bind (.mapM (fun marker => ?_) _) fun _ => .pure _
  refine .bind (climbs_stamp _) fun _ => .bind (climbs_stamp _) fun _ => ?_
  split
  · exact .bind (suffixes _) fun _ => .pure _
  · exact .pure _

theorem climbs_space (space : Space) : Climbs space.settle :=
  .bind (climbs_stamp _) fun _ =>
    .bind (.mapM (fun _ => .bind (climbs_markers .pure _) fun _ => .pure _) _) fun _ => .pure _

namespace Draws

variable {known used kept : Multiset Stamp} {ids : α -> Multiset Stamp} {others : β -> Multiset Stamp}

theorem pure
    {value : α}
    (isKnown : ids value ≤ known) :
    Draws known (pure value) ids := by
  intro next
  refine ⟨Nat.le_refl next, ?_⟩
  change ids value ≤ known + Stamp.drawn next next
  rwa [Stamp.drawn_self, add_zero]

/-- What is known goes to the first step and to the others; these need not give again what the first one gave. -/
theorem bind
    {step : Numbering α}
    {next : α -> Numbering β}
    (first : Draws used step ids)
    (later : forall value, Draws kept (next value) fun result => others result - ids value)
    (isKnown : used + kept ≤ known) :
    Draws known (step >>= next) others := by
  intro number
  obtain ⟨climbs, isDrawn⟩ := first number
  obtain ⟨climbsOn, isDrawnOn⟩ := later (step.run number).1 (step.run number).2
  have late := tsub_le_iff_left.1 isDrawnOn
  rw [<- add_assoc] at late
  exact ⟨climbs.trans climbsOn, Stamp.le_add_drawn isDrawn late isKnown climbs climbsOn⟩

/-- A step that draws numbers for something else. -/
theorem skip
    {step : Numbering α}
    {next : α -> Numbering β}
    (climbs : step.Climbs)
    (later : forall value, Draws known (next value) others) :
    Draws known (step >>= next) others := by
  have nothing : Draws 0 step fun _ => 0 := fun number => ⟨climbs number, Multiset.zero_le _⟩
  have others' (value : α) : Draws known (next value) fun result => others result - 0 := by
    simp only [tsub_zero]
    exact later value
  exact nothing.bind others' (zero_add known).le

/-- A stamp that was given stays, and any other is drawn. -/
theorem stamp (stamp : Stamp) : Draws (Stamp.given {stamp}) stamp.settle fun stamp => {stamp} := by
  intro next
  cases stamp with
  | pending =>
      refine ⟨Nat.le_succ next, ?_⟩
      change {Stamp.settled next} ≤ _ + Stamp.drawn next (next + 1)
      rw [Stamp.drawn_succ]
      exact Multiset.le_add_left _ _
  | canonical => exact ⟨Nat.le_refl next, Multiset.le_add_right _ _⟩
  | settled number => exact ⟨Nat.le_refl next, Multiset.le_add_right _ _⟩

end Draws

theorem draws_head (head : Head) : Draws (Stamp.given {head.id}) head.settle fun head => {head.id} :=
  .skip (climbs_stamp _) fun _ => .bind (.stamp head.id)
    (fun _ => .skip (climbs_space _) fun _ => .skip (climbs_markers climbs_space _) fun _ => .pure (by simp))
    (add_zero _).le

section Padding

variable {settleChild : α -> Numbering β} {ids : β -> Multiset Stamp}

theorem draws_padded
    {known : Multiset Stamp}
    {padded : RightPadded α}
    (child : Draws known (settleChild padded.element) ids) :
    Draws known (padded.settle settleChild) fun padded => ids padded.element :=
  .bind child
    (fun _ => .skip (climbs_space _) fun _ => .skip (climbs_markers climbs_space _) fun _ => .pure (by simp))
    (add_zero _).le

theorem draws_list
    {known : α -> Multiset Stamp}
    {list : List (RightPadded α)}
    (children : forall child, child ∈ RightPadded.elements list -> Draws (known child) (settleChild child) ids) :
    Draws (Stamp.ofAll known (RightPadded.elements list)) (list.mapM (RightPadded.settle settleChild)) fun list =>
      Stamp.ofAll ids (RightPadded.elements list) := by
  induction list with
  | nil => exact .pure le_rfl
  | cons first rest ih =>
      obtain ⟨atFirst, atRest⟩ := List.forall_mem_cons.1 children
      rw [List.mapM_cons]
      refine .bind (draws_padded atFirst) (fun padded => .bind (ih atRest) (fun others => .pure ?_) (add_zero _).le) le_rfl
      simp [RightPadded.elements]

end Padding

end Numbering

end Numbers

/-!
## Parsers that draw identifiers

A drawing parser takes the identifiers of the nodes it builds from a counter, one for each node. `Draws` compares it
with a parser that leaves identifiers open: it reads the same, and no identifier in what it gives stands there more
often than it was handed in or drawn on the way. So a node that is moved keeps its identifier to itself, and no node is
there twice.
-/

variable {α β δ ε : Type}

/-- A parser that takes the identifiers of the nodes it builds from a counter. -/
abbrev Drawing (α : Type) := StateT Nat Parser α

namespace Drawing

/-- The next identifier. -/
def draw : Drawing Stamp := fun next => pure (.settled next, next + 1)

theorem bind_eq_ok
    {first : Drawing α}
    {next : α -> Drawing β}
    {number last : Nat}
    {text rest : Text}
    {result : β} :
    (first >>= next) number text = .ok ((result, last), rest) ↔
      exists value middle left, first number text = .ok ((value, middle), left) ∧
        next value middle left = .ok ((result, last), rest) := by
  change (first number >>= fun step => next step.1 step.2) text = _ ↔ _
  rw [Parser.bind_eq_ok]
  simp only [Prod.exists]

/--
The drawing parser reads what the parser reads, gives the same but for identifiers, and has each identifier in what
it gives from what was known or from its own drawing.
-/
structure Draws
    (known : Multiset Stamp)
    (drawing : Drawing α)
    (parser : Parser β)
    (forget : α -> β)
    (ids : α -> Multiset Stamp) : Prop where
  reads : forall next text,
    (drawing next text).map (fun outcome => (forget outcome.1.1, outcome.2)) = parser text
  draws : forall next text value later rest, drawing next text = .ok ((value, later), rest) ->
    next ≤ later ∧ ids value ≤ known + Stamp.drawn next later

namespace Draws

variable {known used kept : Multiset Stamp} {drawing : Drawing α} {parser : Parser β} {forget : α -> β}
variable {ids : α -> Multiset Stamp} {others : δ -> Multiset Stamp} {forgetOther : δ -> ε}

theorem mono
    (draws : Draws used drawing parser forget ids)
    (isKnown : used ≤ known) :
    Draws known drawing parser forget ids where
  reads := draws.reads
  draws next text value later rest read :=
    ⟨(draws.draws next text value later rest read).1,
      (draws.draws next text value later rest read).2.trans (add_le_add_left isKnown _)⟩

theorem pure
    {value : α}
    {result : β}
    (same : forget value = result)
    (isKnown : ids value ≤ known) :
    Draws known (pure value) (Pure.pure result) forget ids where
  reads next text := by
    rw [<- same]
    rfl
  draws next text value later rest read := by
    cases read
    refine ⟨Nat.le_refl next, ?_⟩
    rwa [Stamp.drawn_self, add_zero]

theorem bind
    {next : α -> Drawing δ}
    {nextParser : β -> Parser ε}
    (first : Draws used drawing parser forget ids)
    (later : forall value, Draws (ids value + kept) (next value) (nextParser (forget value)) forgetOther others)
    (isKnown : used + kept ≤ known) :
    Draws known (drawing >>= next) (parser >>= nextParser) forgetOther others where
  reads number text := by
    have sameFirst := first.reads number text
    change ((drawing number >>= fun step => next step.1 step.2) text).map _ =
      (parser text >>= fun step => nextParser step.1 step.2)
    rw [<- sameFirst]
    change (drawing number text >>= fun step => next step.1.1 step.1.2 step.2).map _ = _
    cases drawing number text with
    | error fault => rfl
    | ok outcome =>
        obtain ⟨⟨value, middle⟩, left⟩ := outcome
        exact (later value).reads middle left
  draws number text result last rest read := by
    obtain ⟨value, middle, left, readFirst, readOn⟩ := bind_eq_ok.1 read
    obtain ⟨climbs, isDrawn⟩ := first.draws number text value middle left readFirst
    obtain ⟨climbsOn, isDrawnOn⟩ := (later value).draws middle left result last rest readOn
    exact ⟨climbs.trans climbsOn, Stamp.le_add_drawn isDrawn isDrawnOn isKnown climbs climbsOn⟩

/-- A step that is handed nothing adds what it draws. -/
theorem andThen
    {next : α -> Drawing δ}
    {nextParser : β -> Parser ε}
    (first : Draws 0 drawing parser forget ids)
    (later : forall value, Draws (ids value + known) (next value) (nextParser (forget value)) forgetOther others) :
    Draws known (drawing >>= next) (parser >>= nextParser) forgetOther others :=
  first.bind later (zero_add known).le

theorem map
    {change : α -> δ}
    {changePlain : β -> ε}
    (draws : Draws 0 drawing parser forget ids)
    (same : forall value, forgetOther (change value) = changePlain (forget value))
    (isKnown : forall value, others (change value) ≤ ids value) :
    Draws 0 (change <$> drawing) (changePlain <$> parser) forgetOther others := by
  rw [map_eq_pure_bind, map_eq_pure_bind]
  exact draws.andThen fun value => .pure (same value) ((isKnown value).trans (add_zero _).ge)

/-- A step that gives nothing with an identifier is the step of the parser. -/
theorem plain
    {step : Parser α}
    {forget : α -> α}
    (hasNone : forall text value rest, step text = .ok (value, rest) -> forget value = value ∧ ids value = 0) :
    Draws 0 (liftM step : Drawing α) step forget ids where
  reads number text := by
    change ((step text).bind _).map _ = _
    cases outcome : step text with
    | error fault => rfl
    | ok pair =>
        obtain ⟨value, rest⟩ := pair
        change Except.ok (forget value, rest) = _
        rw [(hasNone text value rest outcome).1]
  draws number text value later rest read := by
    change (step text).bind _ = _ at read
    cases outcome : step text with
    | error fault =>
        rw [outcome] at read
        cases read
    | ok pair =>
        rw [outcome] at read
        cases read
        exact ⟨Nat.le_refl number, by rw [(hasNone text _ _ outcome).2]; exact Multiset.zero_le _⟩

/-- A step that builds no nodes is the step of the parser. -/
theorem lift
    {step : Parser α}
    {next : α -> Drawing δ}
    {nextParser : α -> Parser ε}
    (later : forall value, Draws known (next value) (nextParser value) forgetOther others) :
    Draws known (liftM step >>= next) (step >>= nextParser) forgetOther others := by
  have same : Draws 0 (liftM step : Drawing α) step id fun _ => 0 := plain fun _ _ _ _ => ⟨rfl, rfl⟩
  exact same.andThen fun value => (later value).mono (zero_add known).ge

/-- A step that fails gives nothing. -/
theorem fail (complaint : Complaint) :
    Draws known (liftM (Parser.fail complaint : Parser α) : Drawing α) (Parser.fail complaint : Parser β) forget ids where
  reads _ _ := rfl
  draws _ _ _ _ _ read := nomatch read

theorem draw : Draws 0 draw (Pure.pure Stamp.pending) (fun _ => .pending) fun stamp => {stamp} where
  reads _ _ := rfl
  draws number text value later rest read := by
    cases read
    exact ⟨Nat.le_succ number, by rw [Stamp.drawn_succ, zero_add]⟩

end Draws
end Drawing

end Lossless
