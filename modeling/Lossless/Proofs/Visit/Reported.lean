import Lossless.Proofs.Piece
import Lossless.Proofs.Visit.Answers

/-!
# What a visit reports

A visitor can write down what it comes by: the nodes that it enters, dispatches on and leaves, and the spaces
that it is handed. The reports of a visit of some nodes are a tour when every node is entered, dispatched on
and left once, in order, and all that is reported of its children stands between its dispatch and its leaving.
-/

namespace Lossless

variable {τ ω σ π γ α β : Type}

/-- What a visitor comes by. -/
inductive Report (τ π : Type)
  /-- The hook before a node runs. -/
  | enters (tree : τ)
  | dispatches (tree : τ)
  /-- The hook for spaces gets the space at a place. -/
  | reads (place : π) (space : Space)
  /-- The hook after a node runs. -/
  | leaves (tree : τ)

namespace Report

/-- The spaces that are read, with their places. -/
def spaces (log : List (Report τ π)) : List (π × Space) :=
  log.filterMap fun
    | reads place space => some (place, space)
    | _ => none

/-- The nodes that are dispatched on. -/
def dispatched (log : List (Report τ π)) : List τ :=
  log.filterMap fun
    | dispatches tree => some tree
    | _ => none

@[simp] theorem spaces_nil : spaces ([] : List (Report τ π)) = [] := rfl

@[simp] theorem spaces_append (log more : List (Report τ π)) :
    spaces (log ++ more) = spaces log ++ spaces more := by
  simp [spaces]

@[simp] theorem dispatched_nil : dispatched ([] : List (Report τ π)) = [] := rfl

@[simp] theorem dispatched_append (log more : List (Report τ π)) :
    dispatched (log ++ more) = dispatched log ++ dispatched more := by
  simp [dispatched]

end Report

/-- The reports of a visit of some nodes one after the other, with spaces around them. -/
inductive IsTour (children : τ -> List τ) : List τ -> List (Report τ π) -> Prop
  | done : IsTour children [] []
  | reads {trees log} (place : π) (space : Space) :
      IsTour children trees log -> IsTour children trees (.reads place space :: log)
  | tree {trees log} (tree : τ) {inside} :
      IsTour children (children tree) inside -> IsTour children trees log ->
        IsTour children (tree :: trees) (.enters tree :: .dispatches tree :: (inside ++ .leaves tree :: log))

variable {children : τ -> List τ}

theorem IsTour.append
    {trees others : List τ}
    {log more : List (Report τ π)}
    (tour : IsTour children trees log)
    (another : IsTour children others more) :
    IsTour children (trees ++ others) (log ++ more) := by
  induction tour with
  | done => exact another
  | reads place space _ ih => exact .reads place space ih
  | tree node inside _ _ ih =>
      simp only [List.cons_append, List.append_assoc]
      exact .tree node inside ih

/-- A tour dispatches on its nodes and on all below them, each before what is below it and in order. -/
theorem IsTour.dispatched
    {nodes : τ -> List τ}
    (nodes_eq : forall tree, nodes tree = tree :: (children tree).flatMap nodes)
    {trees : List τ}
    {log : List (Report τ π)}
    (tour : IsTour children trees log) :
    Report.dispatched log = trees.flatMap nodes := by
  induction tour with
  | done => rfl
  | reads place space _ ih => exact ih
  | @tree _ log node inside _ _ below after =>
      have parts : Report.dispatched (.enters node :: .dispatches node :: (inside ++ .leaves node :: log)) =
          node :: (Report.dispatched inside ++ Report.dispatched log) := by
        simp [Report.dispatched]
      rw [parts, below, after, List.flatMap_cons, nodes_eq node, List.cons_append]

/-- Write a report down. -/
def VisitM.report (entry : Report τ π) : VisitM τ ω (List (Report τ π)) γ Unit :=
  modify fun state => { state with own := state.own ++ [entry] }

namespace VisitM

/-- The step gives an answer and writes some reports down. -/
def Logs
    (log : List (Report τ π))
    (step : VisitM τ ω (List (Report τ π)) γ α)
    (value : α) : Prop :=
  forall own, Moves own (own ++ log) step value

section Logs

variable {step : VisitM τ ω (List (Report τ π)) γ α} {log more : List (Report τ π)} {value : α}

theorem Answers.logs (answers : step.Answers value) : Logs [] step value := by
  intro own
  rw [List.append_nil]
  exact answers.moves own

theorem Logs.bind
    {next : α -> VisitM τ ω (List (Report τ π)) γ β}
    {last : β}
    (logs : Logs log step value)
    (others : Logs more (next value) last) :
    Logs (log ++ more) (step >>= next) last := by
  intro own
  rw [← List.append_assoc]
  exact (logs own).bind (others (own ++ log))

theorem report_logs (entry : Report τ π) :
    Logs [entry] (report entry : VisitM τ ω (List (Report τ π)) γ Unit) () := by
  rintro own state _ rfl
  rfl

end Logs

/--
The step gives an answer, its reports are a tour of some nodes, and the spaces in them are the given ones.
-/
def Tours
    (children : τ -> List τ)
    (trees : List τ)
    (spaces : List (π × Space))
    (step : VisitM τ ω (List (Report τ π)) γ α)
    (value : α) : Prop :=
  exists log, Logs log step value ∧ IsTour children trees log ∧ Report.spaces log = spaces

section Tours

variable {step : VisitM τ ω (List (Report τ π)) γ α} {value : α}
variable {trees others : List τ} {spaces more : List (π × Space)}

theorem Answers.tours (answers : step.Answers value) : Tours children [] [] step value :=
  ⟨[], answers.logs, .done, rfl⟩

theorem Tours.pure (value : α) :
    Tours children [] [] (pure value : VisitM τ ω (List (Report τ π)) γ α) value :=
  (Answers.pure value).tours

theorem Tours.bind
    {next : α -> VisitM τ ω (List (Report τ π)) γ β}
    {last : β}
    (tours : Tours children trees spaces step value)
    (rest : Tours children others more (next value) last) :
    Tours children (trees ++ others) (spaces ++ more) (step >>= next) last := by
  obtain ⟨log, logs, tour, rfl⟩ := tours
  obtain ⟨later, logsLater, tourLater, rfl⟩ := rest
  exact ⟨log ++ later, logs.bind logsLater, tour.append tourLater, Report.spaces_append _ _⟩

/-- A tour of one node goes on with a tour of others. -/
theorem Tours.bindTree
    {tree : τ}
    {next : α -> VisitM τ ω (List (Report τ π)) γ β}
    {last : β}
    (tours : Tours children [tree] spaces step value)
    (rest : Tours children others more (next value) last) :
    Tours children (tree :: others) (spaces ++ more) (step >>= next) last :=
  tours.bind rest

/-- A space is read before a tour. -/
theorem Tours.bindSpace
    {slot : π × Space}
    {next : α -> VisitM τ ω (List (Report τ π)) γ β}
    {last : β}
    (tours : Tours children [] [slot] step value)
    (rest : Tours children others more (next value) last) :
    Tours children others (slot :: more) (step >>= next) last :=
  tours.bind rest

/-- Spaces are read after a tour. -/
theorem Tours.bindSpaces
    {next : α -> VisitM τ ω (List (Report τ π)) γ β}
    {last : β}
    (tours : Tours children trees spaces step value)
    (rest : Tours children [] more (next value) last) :
    Tours children trees (spaces ++ more) (step >>= next) last := by
  simpa using tours.bind rest

/-- What reports nothing adds nothing to a tour. -/
theorem Tours.bindAnswers
    {next : α -> VisitM τ ω (List (Report τ π)) γ β}
    {last : β}
    (tours : Tours children trees spaces step value)
    (rest : (next value).Answers last) :
    Tours children trees spaces (step >>= next) last := by
  simpa using tours.bind rest.tours

theorem Tours.within
    (tours : Tours children trees spaces step value)
    (place : FrameValue τ ω) :
    Tours children trees spaces (within place step) value := by
  obtain ⟨log, logs, tour, rfl⟩ := tours
  exact ⟨log, fun own => (logs own).within place, tour, rfl⟩

theorem Tours.attempt
    (tours : Tours children trees spaces step value) :
    Tours children trees spaces (attempt step) (.ok value) := by
  obtain ⟨log, logs, tour, rfl⟩ := tours
  exact ⟨log, fun own => Moves.attempt (logs own), tour, rfl⟩

theorem reads_tours
    (place : π)
    (space : Space) :
    Tours children [] [(place, space)]
      (do report (.reads place space); return space : VisitM τ ω (List (Report τ π)) γ Space) space :=
  ⟨[.reads place space], (report_logs _).bind (Answers.pure _).logs, .reads place space .done, rfl⟩

end Tours

end VisitM

open VisitM

/-- Only what the hooks report, and the dispatch, do anything. -/
structure Traversal.IsReporting (traversal : Traversal τ ω (List (Report τ π)) γ) : Prop where
  accepts : forall tree, (traversal.accepts tree).Answers true
  acceptsSource : forall tree, (traversal.acceptsSource tree).Answers true
  before : forall tree, Logs [.enters tree] (traversal.before tree) (some tree)
  after : forall tree, Logs [.leaves tree] (traversal.after tree) (some tree)

namespace Traversal

variable [VisitNode τ] [Named ω]
variable {traversal : Traversal τ ω (List (Report τ π)) γ}

/-- A dispatch that reports itself and then tours the children makes the visit of its node a tour of it. -/
theorem IsReporting.enter_tours
    (reporting : traversal.IsReporting)
    {drain : List (QueuedVisitor (List (Report τ π))) -> τ -> VisitM τ ω (List (Report τ π)) γ (Option τ)}
    (drains : forall tree, (drain [] tree).Answers (some tree))
    {visitChild : τ -> VisitM τ ω (List (Report τ π)) γ (Option τ)}
    {tree : τ}
    {inside : List (Report τ π)}
    (dispatches : Logs (.dispatches tree :: inside) (traversal.dispatch visitChild tree) (some tree))
    (tour : IsTour children (children tree) inside) :
    Tours children [tree] (Report.spaces inside) (traversal.enter drain visitChild tree) (some tree) := by
  have wanted := wants_answers reporting.accepts reporting.acceptsSource tree
  refine ⟨.enters tree :: .dispatches tree :: (inside ++ [.leaves tree]), fun own => ?_,
    .tree tree tour .done, ?_⟩
  · have whole : own ++ .enters tree :: .dispatches tree :: (inside ++ [.leaves tree]) =
        own ++ [.enters tree] ++ .dispatches tree :: inside ++ [.leaves tree] := by
      simp
    rw [whole]
    exact enter_moves_of drains wanted (reporting.before tree own) (dispatches _) (reporting.after tree _)
  · simp [Report.spaces]

/-- When every dispatch reports itself and then tours the children, the visit is a tour of its node. -/
theorem IsReporting.visit_tours
    (reporting : traversal.IsReporting)
    (spacesOf : τ -> List (π × Space))
    (height : τ -> Nat)
    (lower : forall tree child, child ∈ children tree -> height child < height tree)
    (bound : forall own tree, traversal.depthBound own tree = height tree)
    (queues : forall own, traversal.generations own = 0)
    (dispatches : forall visitChild tree,
      (forall child, child ∈ children tree ->
        Tours children [child] (spacesOf child) (visitChild child) (some child)) ->
      exists inside, Logs (.dispatches tree :: inside) (traversal.dispatch visitChild tree) (some tree) ∧
        IsTour children (children tree) inside ∧ Report.spaces inside = spacesOf tree)
    (tree : τ) :
    Tours children [tree] (spacesOf tree) (traversal.visit tree) (some tree) := by
  suffices within : forall depth tree, height tree < depth ->
      Tours children [tree] (spacesOf tree)
        (traversal.visitWithin (traversal.drainWithin 0) depth tree) (some tree) by
    obtain ⟨log, logs, tour, spaces⟩ := within (height tree + 1) tree (Nat.lt_succ_self _)
    refine ⟨log, fun own state isQuiet atOwn => ?_, tour, spaces⟩
    rw [visit, visitBounded, bound, queues]
    exact logs own state isQuiet atOwn
  intro depth
  induction depth with
  | zero => exact fun _ low => absurd low (Nat.not_lt_zero _)
  | succ depth ih =>
      intro tree low
      obtain ⟨inside, logs, tour, spaces⟩ := dispatches _ tree fun child member =>
        ih child (Nat.lt_of_lt_of_le (lower tree child member) (Nat.le_of_lt_succ low))
      rw [← spaces]
      exact reporting.enter_tours (drainWithin_answers 0) logs tour

end Traversal

end Lossless
