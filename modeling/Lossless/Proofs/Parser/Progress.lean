import Lossless.Proofs.Gap.Closed
import Lossless.Proofs.Parser.Outcome

/-!
# Parsers that go forward

A parser goes forward when it leaves an end of the text that it is given, where it succeeds as well as where it
complains, and never complains that a bound was too small. `Advances` compares two runs at once, which may differ in the
bounds of the steps inside them: they have the same outcome, and it is forward. So one lemma for each step of a grammar
says both that the step goes forward and that its outcome does not depend on bounds that are large enough.

A loop repeats its turn. A turn that goes on has passed some character, so a loop that may take more turns than there
are characters ends by itself.

A parser that goes forward keeps to the positions of its source: it starts and ends between two characters, no further
than the end of the source, and what it reads lies between.
-/

namespace Lossless

variable {α β σ : Type} {text middle rest : Text}

/-! ## What remains of a text -/

namespace Text

/-- The rest is what remains of the text behind at least so many of its characters. -/
def Passes
    (text : Text)
    (least : Nat)
    (rest : Text) : Prop :=
  ∃ read : Text, text = read ++ rest ∧ least ≤ read.length

namespace Passes

theorem refl (text : Text) : text.Passes 0 text := ⟨[], rfl, Nat.zero_le _⟩

theorem trans
    {first second : Nat}
    (front : text.Passes first middle)
    (back : middle.Passes second rest) :
    text.Passes (first + second) rest := by
  obtain ⟨read, rfl, enough⟩ := front
  obtain ⟨more, rfl, enoughMore⟩ := back
  refine ⟨read ++ more, (List.append_assoc ..).symm, ?_⟩
  rw [List.length_append]
  omega

theorem mono
    {least less : Nat}
    (passes : text.Passes least rest)
    (fewer : less ≤ least) :
    text.Passes less rest := by
  obtain ⟨read, whole, enough⟩ := passes
  exact ⟨read, whole, Nat.le_trans fewer enough⟩

theorem length_le
    {least : Nat}
    (passes : text.Passes least rest) :
    rest.length + least ≤ text.length := by
  obtain ⟨read, rfl, enough⟩ := passes
  rw [List.length_append]
  omega

end Passes

theorem passes_append (read rest : Text) : (read ++ rest).Passes read.length rest := ⟨read, rfl, Nat.le_refl _⟩

theorem passes_dropWhile
    (test : Char -> Bool)
    (text : Text) :
    text.Passes 0 (text.dropWhile test) :=
  ⟨text.takeWhile test, List.takeWhile_append_dropWhile.symm, Nat.zero_le _⟩

end Text

/-! ## Runs that go forward -/

namespace Parser

/--
Two runs on a text have the same outcome: a value, with what remains behind as many characters as the value calls for,
or a complaint at an end of the text that no bound has caused.
-/
inductive Advances
    (least : α -> Nat)
    (text : Text) :
    Except Fault (α × Text) -> Except Fault (α × Text) -> Prop
  | ok {value : α} {rest : Text} :
      text.Passes (least value) rest -> Advances least text (.ok (value, rest)) (.ok (value, rest))
  | error {fault : Fault} :
      text.Passes 0 fault.rest -> fault.complaint ≠ .exhausted -> Advances least text (.error fault) (.error fault)

/-- Every run of the parser goes forward. -/
def Forward
    (least : α -> Nat)
    (parser : Parser α) : Prop :=
  forall text, Advances least text (parser text) (parser text)

/-- Two parsers go forward alike on texts with fewer characters than the bound. -/
def AgreeBelow
    (bound : Nat)
    (least : α -> Nat)
    (first second : Parser α) : Prop :=
  forall text, text.length < bound -> Advances least text (first text) (second text)

theorem Forward.passes
    {least : α -> Nat}
    {parser : Parser α}
    {value : α}
    (forward : parser.Forward least)
    (read : parser text = .ok (value, rest)) :
    text.Passes (least value) rest := by
  have advances := forward text
  rw [read] at advances
  cases advances with
  | ok passes => exact passes

theorem Forward.agreeBelow
    {least : α -> Nat}
    {parser : Parser α}
    (forward : parser.Forward least)
    (bound : Nat) :
    AgreeBelow bound least parser parser :=
  fun text _ => forward text

theorem AgreeBelow.mono
    {bound smaller : Nat}
    {least : α -> Nat}
    {first second : Parser α}
    (agree : AgreeBelow bound least first second)
    (fewer : smaller ≤ bound) :
    AgreeBelow smaller least first second :=
  fun text short => agree text (Nat.lt_of_lt_of_le short fewer)

/-- A parser over another one goes forward when its runs on every text agree with themselves. -/
theorem Forward.ofAgree
    {least : α -> Nat}
    {parser : Parser α}
    (agree : forall limit, AgreeBelow (limit + 1) least parser parser) :
    parser.Forward least :=
  fun text => agree text.length text (Nat.lt_succ_self _)

/-- Two parsers of what stands behind a space pass some character, alike on texts that are shorter than the bound. -/
def AgreeOnTrees
    (bound : Nat)
    (first second : Space -> Parser α) : Prop :=
  forall leading, AgreeBelow bound (fun _ => 1) (first leading) (second leading)

theorem AgreeOnTrees.ofForward
    {parser : Space -> Parser α}
    (forward : forall leading, (parser leading).Forward fun _ => 1)
    (bound : Nat) :
    AgreeOnTrees bound parser parser :=
  fun leading => (forward leading).agreeBelow bound

theorem AgreeOnTrees.mono
    {bound smaller : Nat}
    {first second : Space -> Parser α}
    (agree : AgreeOnTrees bound first second)
    (fewer : smaller ≤ bound) :
    AgreeOnTrees smaller first second :=
  fun leading => (agree leading).mono fewer

namespace Advances

variable {least : α -> Nat} {start : Text} {done : Nat}

/-- The two outcomes are the same. -/
theorem eq
    {first second : Except Fault (α × Text)}
    (advances : Advances least text first second) :
    first = second := by
  cases advances <;> rfl

/-- What goes forward from a rest goes forward from where the rest was reached. -/
theorem after
    {known : α -> Nat}
    {first second : Except Fault (α × Text)}
    (here : start.Passes done text)
    (advances : Advances known text first second)
    (enough : forall value, least value ≤ done + known value) :
    Advances least start first second := by
  cases advances with
  | ok passes => exact .ok ((here.trans passes).mono (enough _))
  | error inside unbounded => exact .error ((here.trans inside).mono (Nat.zero_le _)) unbounded

/-- A step, and what follows it from wherever the step has ended. -/
theorem bind
    {known : β -> Nat}
    {first second : Parser β}
    {next other : β -> Parser α}
    (here : start.Passes done text)
    (steps : Advances known text (first text) (second text))
    (follow : forall value middle, start.Passes (done + known value) middle ->
      Advances least start (next value middle) (other value middle)) :
    Advances least start ((first >>= next) text) ((second >>= other) text) := by
  change Advances least start (first text >>= fun step => next step.1 step.2)
    (second text >>= fun step => other step.1 step.2)
  generalize first text = one at steps ⊢
  generalize second text = two at steps ⊢
  cases steps with
  | ok passes => exact follow _ _ (here.trans passes)
  | error inside unbounded => exact .error ((here.trans inside).mono (Nat.zero_le _)) unbounded

theorem pure
    {value : α}
    (here : start.Passes (least value) text) :
    Advances least start ((Pure.pure value : Parser α) text) ((Pure.pure value : Parser α) text) :=
  .ok here

theorem fail
    {complaint : Complaint}
    (here : start.Passes done text)
    (unbounded : complaint ≠ .exhausted) :
    Advances least start ((Parser.fail complaint : Parser α) text) ((Parser.fail complaint : Parser α) text) :=
  .error (here.mono (Nat.zero_le _)) unbounded

/-- What is made of the value of a step leaves open what the step has passed. -/
theorem map
    {passed : Nat}
    {first second : Parser β}
    (change : β -> α)
    (advances : Advances (fun _ => passed) text (first text) (second text)) :
    Advances (fun _ => passed) text ((change <$> first) text) ((change <$> second) text) := by
  rw [map_eq_pure_bind, map_eq_pure_bind]
  exact .bind (.refl text) advances fun value middle here => .pure (here.mono (Nat.le_add_left ..))

/-- Where the parser stands is looked up. -/
theorem get
    {next other : Text -> Parser α}
    (follow : Advances least start (next text text) (other text text)) :
    Advances least start ((MonadState.get >>= next) text) ((MonadState.get >>= other) text) :=
  follow

/-- The parser goes back to a place, or on to one. -/
theorem set
    {state : Text}
    {next other : PUnit -> Parser α}
    (follow : Advances least start (next ⟨⟩ state) (other ⟨⟩ state)) :
    Advances least start ((MonadStateOf.set state >>= next) text) ((MonadStateOf.set state >>= other) text) :=
  follow

theorem ite
    {condition : Prop}
    [Decidable condition]
    {yes no yes' no' : Parser α}
    (holds : condition -> Advances least start (yes text) (yes' text))
    (fails : ¬condition -> Advances least start (no text) (no' text)) :
    Advances least start ((if condition then yes else no) text) ((if condition then yes' else no') text) := by
  split
  · next isTrue => exact holds isTrue
  · next isFalse => exact fails isFalse

end Advances

/-! ## Steps of every grammar -/

/-- A parser that gives a value and reads nothing. -/
theorem Forward.ofLook
    {parser : Parser α}
    {value : Text -> α}
    (looks : forall text, parser text = .ok (value text, text)) :
    parser.Forward fun _ => 0 := by
  intro text
  rw [looks]
  exact .ok (.refl text)

/-- Reading a fixed text, or nothing. -/
def acceptedLength (pattern : Text) : Bool -> Nat
  | true => pattern.length
  | false => 0

theorem forward_accept (pattern : Text) : (accept pattern).Forward (acceptedLength pattern) := by
  intro text
  rw [accept_eq]
  split
  · next found =>
      rw [Text.eq_append_of_dropStart? found]
      exact .ok (Text.passes_append ..)
  · exact .ok (.refl text)

theorem forward_expect (pattern : Text) : (expect pattern).Forward fun _ => pattern.length := by
  intro text
  refine .bind (.refl text) (forward_accept pattern text) fun found middle here => ?_
  cases found with
  | true => exact .pure (here.mono (Nat.le_add_left ..))
  | false => exact .fail here nofun

theorem forward_isNext (pattern : Text) : (isNext pattern).Forward fun _ => 0 :=
  .ofLook (isNext_eq pattern)

theorem forward_takeWhile (test : Char -> Bool) : (takeWhile test).Forward fun _ => 0 :=
  fun text => .ok (Text.passes_dropWhile test text)

/-- Where the parser goes back to is where it stands. -/
theorem eq_of_set
    {saved : Text}
    {value result : α}
    (read : (do set saved; return value : Parser α) text = .ok (result, rest)) :
    rest = saved := by
  obtain ⟨_, _, back, given⟩ := bind_eq_ok.1 read
  exact ((set_eq_ok.1 back).trans (pure_eq_ok.1 given).2).symm

/-- What is read from where the parser goes back to. -/
theorem eq_ok_of_set
    {saved : Text}
    {first : Parser α}
    {make : α -> β}
    {result : β}
    (read : (do set saved; return make (<- first) : Parser β) text = .ok (result, rest)) :
    ∃ value, first saved = .ok (value, rest) ∧ make value = result := by
  obtain ⟨_, _, back, read⟩ := bind_eq_ok.1 read
  obtain rfl := set_eq_ok.1 back
  obtain ⟨value, _, readFirst, given⟩ := bind_eq_ok.1 read
  obtain ⟨rfl, rfl⟩ := pure_eq_ok.1 given
  exact ⟨value, readFirst, rfl⟩

/-! ## Gaps -/

section Gaps

variable {first : Char} {opened start : Text}

/-- Characters before the run of a scan leave open what the scan leaves open. -/
theorem mapRun_eq_error
    (scan : Except Text (Text × Text))
    (change : Text -> Text) :
    (do
      let (run, after) <- scan
      return (change run, after)) = .error opened ↔ scan = .error opened := by
  cases scan <;> simp [Bind.bind, Except.bind, Pure.pure, Except.pure]

theorem scanGap_blank_eq_error (blank : Text.isBlank first = true) :
    scanGap (first :: rest) = .error opened ↔ scanGap rest = .error opened := by
  have plain := Text.startsComment_of_isBlank blank rest
  conv => lhs; unfold scanGap
  split
  · simp [Text.startsComment] at plain
  · simp [Text.startsComment] at plain
  · rw [if_pos blank]
    exact mapRun_eq_error (scanGap rest) (first :: ·)

theorem scanLine_eq_error (other : first ≠ '\n') :
    scanLine (first :: rest) = .error opened ↔ scanLine rest = .error opened := by
  rw [scanLine, if_neg other]
  exact mapRun_eq_error (scanLine rest) (first :: ·)

theorem scanBlock_eq_error (inside : Text.startsClosing (first :: rest) = false) :
    scanBlock start (first :: rest) = .error opened ↔ scanBlock start rest = .error opened := by
  conv => lhs; unfold scanBlock
  split
  · simp [Text.startsClosing] at inside
  · exact mapRun_eq_error (scanBlock start rest) (first :: ·)

/-- The comment that is left open where a scan fails was opened in the text, or before it. -/
theorem passes_of_scan_error :
    (forall text, forall opened, scanGap text = .error opened -> text.Passes 0 opened) ∧
      (forall text, forall opened, scanLine text = .error opened -> text.Passes 0 opened) ∧
        forall text, forall start opened, scanBlock start text = .error opened ->
          opened = start ∨ text.Passes 0 opened := by
  have behind {text rest opened : Text} (front : Text) (whole : text = front ++ rest) (inside : rest.Passes 0 opened) :
      text.Passes 0 opened :=
    whole ▸ ((Text.passes_append front rest).trans inside).mono (Nat.zero_le _)
  apply gap_induction
  case atEnd => exact nofun
  case lineOpens =>
    intro body ih opened scanned
    exact behind ['/', '/'] rfl (ih opened ((mapRun_eq_error (scanLine body) (['/', '/'] ++ ·)).1 scanned))
  case blockOpens =>
    intro body ih opened scanned
    have scannedBody := (mapRun_eq_error (scanBlock ('/' :: '*' :: body) body) (['/', '*'] ++ ·)).1 scanned
    rcases ih _ opened scannedBody with rfl | inside
    · exact .refl _
    · exact behind ['/', '*'] rfl inside
  case step =>
    intro first rest plain ih opened scanned
    cases blank : Text.isBlank first with
    | true => exact behind [first] rfl (ih blank opened ((scanGap_blank_eq_error blank).1 scanned))
    | false =>
        rw [scanGap_of_solid plain blank] at scanned
        cases scanned
  case lineAtEnd => exact nofun
  case lineBreaks =>
    intro rest ih opened scanned
    exact behind ['\n'] rfl (ih opened ((mapRun_eq_error (scanGap rest) _).1 scanned))
  case lineStep =>
    intro first rest other ih opened scanned
    exact behind [first] rfl (ih opened ((scanLine_eq_error other).1 scanned))
  case blockAtEnd =>
    intro start opened scanned
    exact .inl (Except.error.inj scanned).symm
  case blockCloses =>
    intro rest ih start opened scanned
    exact .inr (behind ['*', '/'] rfl (ih opened ((mapRun_eq_error (scanGap rest) (['*', '/'] ++ ·)).1 scanned)))
  case blockStep =>
    intro first rest inside ih start opened scanned
    exact (ih start opened ((scanBlock_eq_error inside).1 scanned)).imp_right (behind [first] rfl)

theorem forward_gapText : gapText.Forward fun _ => 0 := by
  intro text
  unfold gapText
  cases scanned : scanGap text with
  | ok parts =>
      obtain ⟨run, after⟩ := parts
      rw [eq_append_of_scanGap scanned]
      exact .ok ((Text.passes_append run after).mono (Nat.zero_le _))
  | error opened => exact .error (passes_of_scan_error.1 text opened scanned) nofun

theorem forward_gap : gap.Forward fun _ => 0 := by
  intro text
  exact .bind (.refl text) (forward_gapText text) fun run middle here => .pure here

theorem forward_isNextAfterGap (pattern : Text) : (isNextAfterGap pattern).Forward fun _ => 0 := by
  intro text
  refine .get <| .bind (.refl text) (forward_gapText text) fun run after atRun => ?_
  refine .bind atRun (forward_isNext pattern after) fun found _ _ => ?_
  exact .set <| .pure (.refl text)

end Gaps

/-! ## Loops -/

/-- What a turn of a loop comes to. -/
inductive LoopTurn (σ α : Type)
  /-- The loop goes on, with something to go on from or to keep. -/
  | again (state : σ)
  | done (result : α)

/-- A turn after which the loop goes on has passed some character. -/
def LoopTurn.least : LoopTurn σ α -> Nat
  | again _ => 1
  | done _ => 0

/-- Take turns, and keep what they go on with. -/
def collect (turn : Parser (LoopTurn σ α)) : Nat -> Parser (List σ × α)
  | 0 => fail .exhausted
  | bound + 1 => do
      match <- turn with
      | .again first =>
          let (others, result) <- collect turn bound
          return (first :: others, result)
      | .done result => return ([], result)

/-- Take turns, each from what the one before it goes on with. -/
def iterate (turn : σ -> Parser (LoopTurn σ α)) : Nat -> σ -> Parser α
  | 0, _ => fail .exhausted
  | bound + 1, state => do
      match <- turn state with
      | .again next => iterate turn bound next
      | .done result => return result

section Loops

variable {limit bound otherBound : Nat}

/-- A loop that succeeds has ended with a turn. -/
theorem exists_turn_of_iterate
    {turn : σ -> Parser (LoopTurn σ α)}
    {state : σ}
    {result : α}
    (read : iterate turn bound state text = .ok (result, rest)) :
    ∃ last middle, turn last middle = .ok (.done result, rest) := by
  induction bound generalizing state text with
  | zero => cases read
  | succ bound ih =>
      obtain ⟨next, middle, took, read⟩ := bind_eq_ok.1 read
      cases next with
      | again next => exact ih read
      | done last =>
          obtain ⟨rfl, rfl⟩ := pure_eq_ok.1 read
          exact ⟨state, text, took⟩

/-- A loop goes forward, and more turns than there are characters do not change what it comes to. -/
theorem collect_advances
    {turn other : Parser (LoopTurn σ α)}
    (turns : AgreeBelow limit LoopTurn.least turn other)
    (short : text.length < limit)
    (enough : text.length < bound)
    (otherEnough : text.length < otherBound) :
    Advances (fun _ => 0) text (collect turn bound text) (collect other otherBound text) := by
  induction bound generalizing text otherBound with
  | zero => cases enough
  | succ bound ih =>
      cases otherBound with
      | zero => cases otherEnough
      | succ otherBound =>
          refine .bind (.refl text) (turns text short) fun turn middle here => ?_
          cases turn with
          | done result => exact .pure here
          | again first =>
              have shorter : middle.length + (0 + 1) ≤ text.length := here.length_le
              refine .bind here (ih (by omega) (by omega) (by omega)) fun collected rest atRest => ?_
              exact .pure (atRest.mono (Nat.zero_le _))

theorem iterate_advances
    {turn other : σ -> Parser (LoopTurn σ α)}
    (turns : forall state, AgreeBelow limit LoopTurn.least (turn state) (other state))
    (state : σ)
    (short : text.length < limit)
    (enough : text.length < bound)
    (otherEnough : text.length < otherBound) :
    Advances (fun _ => 0) text (iterate turn bound state text) (iterate other otherBound state text) := by
  induction bound generalizing text otherBound state with
  | zero => cases enough
  | succ bound ih =>
      cases otherBound with
      | zero => cases otherEnough
      | succ otherBound =>
          refine .bind (.refl text) (turns state text short) fun turn middle here => ?_
          cases turn with
          | done result => exact .pure (here.mono (Nat.zero_le _))
          | again next =>
              have shorter : middle.length + (0 + 1) ≤ text.length := here.length_le
              exact .after here (ih next (by omega) (by omega) (by omega)) fun _ => Nat.zero_le _

end Loops

end Parser

/-! ## Positions -/

section Positions

variable {source : Text} {offset : Nat}

namespace Text

/-- A position of a source: so many bytes are those of the first characters, and the others remain behind them. -/
structure IsPosition
    (source : Text)
    (offset : Nat)
    (rest : Text) : Prop where
  inside : offset ≤ source.byteLength
  isBoundary : ∃ before, source = before ++ rest ∧ byteLength before = offset

theorem length_le_byteLength (text : Text) : text.length ≤ byteLength text := by
  induction text with
  | nil => exact Nat.le_refl _
  | cons first others ih =>
      have := first.utf8Size_pos
      rw [byteLength_cons, List.length_cons]
      omega

theorem isPosition_append (before rest : Text) : (before ++ rest).IsPosition (byteLength before) rest where
  inside := by rw [byteLength_append]; omega
  isBoundary := ⟨before, rfl, rfl⟩

theorem isPosition_start (source : Text) : source.IsPosition 0 source := isPosition_append [] source

/-- What is read at a position leads to another one. -/
theorem IsPosition.read
    {read : Text}
    (here : source.IsPosition offset (read ++ rest)) :
    source.IsPosition (offset + byteLength read) rest := by
  obtain ⟨before, rfl, rfl⟩ := here.isBoundary
  rw [<- byteLength_append, <- List.append_assoc]
  exact isPosition_append (before ++ read) rest

end Text

namespace Parser

/--
From each position of the source the parser goes on to a position that is not before it, and that is as many bytes
further on as its value calls for; a complaint is about such a position too, and no bound has caused it.
-/
structure StaysIn
    (source : Text)
    (least : α -> Nat)
    (parser : Parser α) : Prop where
  ok : forall {offset start value rest}, source.IsPosition offset start -> parser start = .ok (value, rest) ->
    ∃ read, start = read ++ rest ∧ least value ≤ read.byteLength ∧ source.IsPosition (offset + read.byteLength) rest
  error : forall {offset start fault}, source.IsPosition offset start -> parser start = .error fault ->
    fault.complaint ≠ .exhausted ∧
      ∃ read, start = read ++ fault.rest ∧ source.IsPosition (offset + read.byteLength) fault.rest

theorem Forward.staysIn
    {least : α -> Nat}
    {parser : Parser α}
    (forward : parser.Forward least)
    (source : Text) :
    StaysIn source least parser where
  ok {offset start value rest} here read := by
    obtain ⟨text, rfl, enough⟩ := forward.passes read
    exact ⟨text, rfl, Nat.le_trans enough text.length_le_byteLength, here.read⟩
  error {offset start fault} here failed := by
    have advances := forward start
    rw [failed] at advances
    cases advances with
    | error inside unbounded =>
        obtain ⟨text, whole, -⟩ := inside
        rw [whole] at here
        exact ⟨unbounded, text, whole, here.read⟩

/-- Where the value says that the parser has found nothing, the parser stands where it began. -/
def Restores
    (foundNothing : α -> Prop)
    (parser : Parser α) : Prop :=
  forall {text value rest}, parser text = .ok (value, rest) -> foundNothing value -> rest = text

/-- The loop ends with this turn. -/
def LoopTurn.IsDone : LoopTurn σ α -> Prop
  | again _ => False
  | done _ => True

/--
The loop takes turns and puts together what they go on with. A turn after which it goes on has passed some byte, so it
takes no more turns than there are characters, and every bound above that gives the same outcome.
-/
structure Loops
    (source : Text)
    (turn : Parser (LoopTurn σ α))
    (finish : List σ × α -> β)
    (loop : Nat -> Parser β) : Prop where
  takesTurns : forall bound, loop bound = finish <$> collect turn bound
  passes : StaysIn source LoopTurn.least turn
  ends : forall {text bound}, text.length < bound -> loop bound text = loop (text.length + 1) text

/-- The same of a loop each of whose turns goes on from what the one before it has come to. -/
structure LoopsFrom
    (source : Text)
    (turn : σ -> Parser (LoopTurn σ α))
    (loop : Nat -> σ -> Parser α) : Prop where
  takesTurns : forall bound state, loop bound state = iterate turn bound state
  passes : forall state, StaysIn source LoopTurn.least (turn state)
  ends : forall {state text bound}, text.length < bound -> loop bound state text = loop (text.length + 1) state text

theorem Loops.ofForward
    {turn : Parser (LoopTurn σ α)}
    {finish : List σ × α -> β}
    {loop : Nat -> Parser β}
    (source : Text)
    (forward : turn.Forward LoopTurn.least)
    (takesTurns : forall bound, loop bound = finish <$> collect turn bound) :
    Loops source turn finish loop where
  takesTurns := takesTurns
  passes := forward.staysIn source
  ends {text bound} enough := by
    have same := collect_advances (forward.agreeBelow _) (Nat.lt_succ_self _) enough (Nat.lt_succ_self _)
    rw [takesTurns, takesTurns]
    exact congrArg (fun outcome => outcome >>= fun step => pure (finish step.1, step.2)) same.eq

theorem LoopsFrom.ofForward
    {turn : σ -> Parser (LoopTurn σ α)}
    {loop : Nat -> σ -> Parser α}
    (source : Text)
    (forward : forall state, (turn state).Forward LoopTurn.least)
    (takesTurns : forall bound state, loop bound state = iterate turn bound state) :
    LoopsFrom source turn loop where
  takesTurns := takesTurns
  passes state := (forward state).staysIn source
  ends {state text bound} enough := by
    rw [takesTurns, takesTurns]
    exact (iterate_advances (fun state => (forward state).agreeBelow _) state (Nat.lt_succ_self _) enough
      (Nat.lt_succ_self _)).eq

/-- A parse of a source comes to a value, or to an error at the line and column of a position of the source. -/
def EndsIn
    (source : Text)
    (parser : Parser α) : Prop :=
  (∃ value rest, parser source = .ok (value, rest)) ∨
    ∃ fault before, parser source = .error fault ∧ fault.complaint ≠ .exhausted ∧ source = before ++ fault.rest ∧
      fault.toError source = .ofCause (.parse fault.message (Text.lineOf before) (Text.columnOf before + 1))

theorem StaysIn.endsIn
    {least : α -> Nat}
    {parser : Parser α}
    (stays : StaysIn source least parser) :
    parser.EndsIn source := by
  cases outcome : parser source with
  | ok step => exact .inl ⟨step.1, step.2, outcome⟩
  | error fault =>
      obtain ⟨unbounded, before, whole, -⟩ := stays.error (Text.isPosition_start source) outcome
      have taken : source.take (source.length - fault.rest.length) = before := by
        conv => lhs; rw [whole]
        simp
      exact .inr ⟨fault, before, outcome, unbounded, whole, by rw [Fault.toError, taken]⟩

end Parser
end Positions
end Lossless
