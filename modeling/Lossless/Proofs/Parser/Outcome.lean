import Lossless.Parse

/-!
# Outcomes of parsers

A parser that succeeds gives a value and the text that is left. The lemmas here say when a step succeeds with
given outcomes, one for each way of composing parsers, so that a parser can be taken apart from the outside
in.
-/

namespace Lossless
namespace Parser

variable {text rest : Text}

theorem bind_eq_ok
    {first : Parser α}
    {next : α -> Parser β}
    {result : β} :
    (first >>= next) text = .ok (result, rest) ↔
      ∃ value middle, first text = .ok (value, middle) ∧ next value middle = .ok (result, rest) := by
  change (first text >>= fun step => next step.1 step.2) = _ ↔ _
  cases first text with
  | error fault => simp [bind, Except.bind]
  | ok step =>
      obtain ⟨value, middle⟩ := step
      constructor
      · intro read
        exact ⟨value, middle, rfl, read⟩
      · rintro ⟨_, _, ⟨⟩, read⟩
        exact read

/-- A parser goes on from where its first step has ended. -/
theorem bind_of_ok
    {first : Parser α}
    {next : α -> Parser β}
    {value : α}
    (read : first text = .ok (value, rest)) :
    (first >>= next) text = next value rest := by
  change (first text >>= fun step => next step.1 step.2) = _
  rw [read]
  rfl

/-- A parser fails where its first step does. -/
theorem bind_of_error
    {first : Parser α}
    {next : α -> Parser β}
    {fault : Fault}
    (failed : first text = .error fault) :
    (first >>= next) text = .error fault := by
  change (first text >>= fun step => next step.1 step.2) = _
  rw [failed]
  rfl

theorem bind_get (next : Text -> Parser β) : (get >>= next) text = next text text := rfl

theorem bind_set
    (state : Text)
    (next : PUnit -> Parser β) :
    (set state >>= next) text = next ⟨⟩ state := rfl

theorem run_pure (value : α) : (pure value : Parser α) text = .ok (value, text) := rfl

@[simp] theorem pure_eq_ok
    {value result : α} :
    (pure value : Parser α) text = .ok (result, rest) ↔ value = result ∧ text = rest := by
  change Except.ok (value, text) = _ ↔ _
  simp

@[simp] theorem get_eq_ok
    {result : Text} :
    (get : Parser Text) text = .ok (result, rest) ↔ text = result ∧ text = rest := by
  change Except.ok (text, text) = _ ↔ _
  simp

@[simp] theorem set_eq_ok
    {state : Text}
    {result : Unit} :
    (set state : Parser Unit) text = .ok (result, rest) ↔ state = rest := by
  change Except.ok ((), state) = _ ↔ _
  simp

@[simp] theorem fail_eq_ok
    {complaint : Complaint}
    {result : α} :
    (fail complaint : Parser α) text = .ok (result, rest) ↔ False := by
  change Except.error _ = _ ↔ _
  simp

theorem map_eq_ok
    {step : Parser α}
    {change : α -> β}
    {result : β} :
    (change <$> step) text = .ok (result, rest) ↔
      ∃ value, step text = .ok (value, rest) ∧ change value = result := by
  rw [← bind_pure_comp, bind_eq_ok]
  simp only [pure_eq_ok]
  constructor
  · rintro ⟨value, middle, read, equal, rfl⟩
    exact ⟨value, read, equal⟩
  · rintro ⟨value, read, equal⟩
    exact ⟨value, rest, read, equal, rfl⟩

theorem accept_eq
    (pattern text : Text) :
    accept pattern text =
      match Text.dropStart? pattern text with
      | some rest => .ok (true, rest)
      | none => .ok (false, text) := by
  change (match Text.dropStart? pattern text with
    | some rest => do set rest; return true
    | none => return false : Parser Bool) text = _
  cases Text.dropStart? pattern text <;> rfl

/-- A fixed text is read off the front, or nothing is. -/
theorem accept_eq_ok
    {pattern : Text}
    {found : Bool} :
    accept pattern text = .ok (found, rest) ↔
      (found = true ∧ text = pattern ++ rest) ∨
        (found = false ∧ Text.dropStart? pattern text = none ∧ text = rest) := by
  rw [accept_eq]
  cases start : Text.dropStart? pattern text with
  | none =>
      have other : text ≠ pattern ++ rest := by
        rintro rfl
        simp at start
      simp [other, eq_comm]
  | some left =>
      have whole := Text.eq_append_of_dropStart? start
      subst whole
      simp [eq_comm]

/-- A fixed text that has to come next is read off the front. -/
theorem expect_eq_ok
    {pattern : Text}
    {result : Unit} :
    expect pattern text = .ok (result, rest) ↔ text = pattern ++ rest := by
  unfold expect
  rw [bind_eq_ok]
  constructor
  · rintro ⟨found, middle, accepted, left⟩
    rcases accept_eq_ok.1 accepted with ⟨rfl, rfl⟩ | ⟨rfl, -, rfl⟩
    · simp at left
      rw [left]
    · simp at left
  · rintro rfl
    exact ⟨true, rest, accept_eq_ok.2 (.inl ⟨rfl, rfl⟩), by simp⟩

/-- A sign that comes next is read. -/
theorem accept_cons
    (sign : Char)
    (rest : Text) :
    accept [sign] (sign :: rest) = .ok (true, rest) :=
  accept_eq_ok.2 (.inl ⟨rfl, rfl⟩)

theorem expect_cons
    (sign : Char)
    (rest : Text) :
    expect [sign] (sign :: rest) = .ok ((), rest) :=
  expect_eq_ok.2 rfl

/-- A text that does not come next is not read. -/
theorem accept_of_none
    {pattern : Text}
    (other : Text.dropStart? pattern text = none) :
    accept pattern text = .ok (false, text) :=
  accept_eq_ok.2 (.inr ⟨rfl, other, rfl⟩)

/-- Looking at what comes next reads nothing. -/
theorem isNext_eq_ok
    {pattern : Text}
    {found : Bool} :
    isNext pattern text = .ok (found, rest) ↔
      (Text.dropStart? pattern text).isSome = found ∧ text = rest := by
  unfold isNext
  rw [bind_eq_ok]
  constructor
  · rintro ⟨saved, middle, looked, read⟩
    obtain ⟨rfl, rfl⟩ := get_eq_ok.1 looked
    exact pure_eq_ok.1 read
  · intro read
    exact ⟨text, text, get_eq_ok.2 ⟨rfl, rfl⟩, pure_eq_ok.2 read⟩

theorem isNext_eq
    (pattern text : Text) :
    isNext pattern text = .ok ((Text.dropStart? pattern text).isSome, text) :=
  isNext_eq_ok.2 ⟨rfl, rfl⟩

/-- The longest run of characters of a class is read. -/
theorem takeWhile_eq_ok
    {test : Char -> Bool}
    {run : Text} :
    takeWhile test text = .ok (run, rest) ↔ text.takeWhile test = run ∧ text.dropWhile test = rest := by
  change Except.ok (text.takeWhile test, text.dropWhile test) = _ ↔ _
  simp

/-! ## Gaps -/

theorem gapText_eq_ok
    {run : Text} :
    gapText text = .ok (run, rest) ↔ scanGap text = .ok (run, rest) := by
  unfold gapText
  cases scanGap text <;> simp

/-- A gap is read by scanning a run and splitting it. -/
theorem gap_eq_ok
    {space : Space} :
    gap text = .ok (space, rest) ↔
      ∃ run, scanGap text = .ok (run, rest) ∧ Space.format run = space := by
  unfold gap
  rw [bind_eq_ok]
  constructor
  · rintro ⟨run, middle, scanned, read⟩
    obtain ⟨rfl, rfl⟩ := pure_eq_ok.1 read
    exact ⟨run, gapText_eq_ok.1 scanned, rfl⟩
  · rintro ⟨run, scanned, rfl⟩
    exact ⟨run, rest, gapText_eq_ok.2 scanned, pure_eq_ok.2 ⟨rfl, rfl⟩⟩

/-- Looking behind the next gap reads nothing. -/
theorem isNextAfterGap_eq_ok
    {pattern : Text}
    {found : Bool} :
    isNextAfterGap pattern text = .ok (found, rest) ↔
      text = rest ∧ ∃ run after, scanGap text = .ok (run, after) ∧
        (Text.dropStart? pattern after).isSome = found := by
  unfold isNextAfterGap
  simp only [bind_eq_ok, get_eq_ok, set_eq_ok, pure_eq_ok, gapText_eq_ok, isNext_eq_ok]
  constructor
  · rintro ⟨saved, _, ⟨rfl, rfl⟩, run, after, scanned, looked, _, ⟨found, rfl⟩, _, _, rfl, rfl, rfl⟩
    exact ⟨rfl, run, after, scanned, found⟩
  · rintro ⟨rfl, run, after, scanned, looked⟩
    exact ⟨text, text, ⟨rfl, rfl⟩, run, after, scanned, found, after, ⟨looked, rfl⟩, (), text, rfl, rfl, rfl⟩

end Parser
end Lossless
