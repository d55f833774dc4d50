import Lossless.Java.Language
import Lossless.Proofs.Java.Complete.Statement
import Lossless.Proofs.Java.Sound.Statement

/-!
# Parsed sources print back

A unit that a source is parsed as prints as the source, and a source that is not in the language is kept
as a unit that prints as the source, too.

A source parses as a canonical unit without a space before it and without markers. Every such unit is read back
from what it prints as, the same tree as a new one.
-/

namespace Lossless
namespace Java

variable {source : Text} {path : Path} {tree : Tree}

/-- A compilation unit of the Java dialect prints as its form is written. -/
theorem Tree.printTrimmed_build_compilationUnit
    (info : SourceInfo)
    (statements : List (RightPadded Tree))
    (eof : Space) :
    (Tree.build (.compilationUnit .java info statements eof)).printTrimmed =
      (Form.compilationUnit .java info statements eof).written := by
  have whole := (Tree.build (.compilationUnit .java info statements eof)).written_eq
  rw [leading_build, form_build] at whole
  exact whole

/-- What a source parses as comes from the grammar of units. -/
theorem unit_of_parse (parsed : parse source path = .ok tree) :
    ∃ rest, Parser.unit path source = .ok (tree, rest) := by
  unfold parse at parsed
  split at parsed
  · cases parsed
  · split at parsed
    · next read =>
        cases parsed
        exact ⟨_, read⟩
    · cases parsed

/-- A source parses as a canonical unit that prints as the source. -/
theorem print_of_parse
    (paired : source.hasPairedReturns = true)
    (parsed : parse source path = .ok tree) :
    tree.printTrimmed = source := by
  obtain ⟨rest, read⟩ := unit_of_parse parsed
  obtain ⟨⟨statements, eof, rfl⟩, -, written⟩ := unit_sound paired read
  rw [Tree.printTrimmed_build_compilationUnit]
  exact written

/-- A unit that stands for a text that was not parsed prints as the text. -/
theorem print_unparsedUnit (error : Error) : (unparsedUnit source path error).printTrimmed = source := by
  have whole := Tree.printTrimmed_build_compilationUnit ⟨path, none, none⟩
    [.build (.build (.unknown source))] .empty
  calc
    (unparsedUnit source path error).printTrimmed
      = (Form.compilationUnit .java ⟨path, none, none⟩
          [.build (.build (.unknown source))] .empty).written := whole
    _ = source := by
      have statement : writtenStatement (.build (.build (.unknown source))) = source := by
        rw [writtenStatement, if_neg (fun sign => Bool.noConfusion sign)]
        simp [Tree.written_eq, RightPadded.build]
      simp [writtenStatements, statement]

/-- What a source parses as is a unit that is built for it, in the Java dialect. -/
theorem build_of_parse (parsed : parse source path = .ok tree) :
    ∃ statements eof, tree = .build (.compilationUnit .java ⟨path, none, none⟩ statements eof) := by
  obtain ⟨rest, read⟩ := unit_of_parse parsed
  unfold Parser.unit at read
  simp only [Parser.bind_eq_ok, Parser.pure_eq_ok] at read
  obtain ⟨_, _, -, ⟨statements, eof⟩, _, -, rfl, rfl⟩ := read
  exact ⟨statements, eof, rfl⟩

/-- The unit that is built for a parsed source has no markers. -/
theorem markers_of_parse (parsed : parse source path = .ok tree) : tree.markers = .empty := by
  obtain ⟨statements, eof, rfl⟩ := build_of_parse parsed
  rfl

/--
A source whose line breaks are paired prints back from the unit it parses as. The lenient parser always gives a
unit that prints as the source, and marks it with a failure exactly when the source does not parse.
-/
theorem parse_roundTrip
    (source : Text)
    (path : Path)
    (paired : source.hasPairedReturns = true) :
    (forall tree, parse source path = .ok tree -> tree.printTrimmed = source) ∧
      (parseLenient source path).printTrimmed = source ∧
      (((parseLenient source path).markers.findFirst? Fact.parseFailure?).isSome = true ↔
        ∃ error, parse source path = .error error) := by
  refine ⟨fun tree => print_of_parse paired, ?_⟩
  cases parsed : parse source path with
  | ok tree =>
      have lenient : parseLenient source path = tree := by rw [parseLenient, parsed]
      rw [lenient, markers_of_parse parsed]
      refine ⟨print_of_parse paired parsed, ?_⟩
      simp [Markers.findFirst?]
  | error error =>
      have lenient : parseLenient source path = unparsedUnit source path error := by
        rw [parseLenient, parsed]
      rw [lenient]
      refine ⟨print_unparsedUnit error, ?_⟩
      refine ⟨fun _ => ⟨error, rfl⟩, fun _ => ?_⟩
      rfl

/-- A statement that ends in a carriage return and a line feed, in a file of the Java dialect. -/
theorem parse_roundTrip_of_statement :
    Text.hasPairedReturns "a = b; // c\r\n".toList = true ∧
      (parseLenient "a = b; // c\r\n".toList ⟨"A.java".toList⟩).printTrimmed =
        "a = b; // c\r\n".toList :=
  ⟨by decide +kernel, (parse_roundTrip _ _ (by decide +kernel)).2.1⟩

/-! ## Units that can be read -/

/-- A unit in the form that a source under a path parses as. -/
structure Tree.IsUnitOf
    (path : Path)
    (tree : Tree) : Prop where
  isUnit : ∃ statements eof, tree.form = .compilationUnit .java ⟨path, none, none⟩ statements eof
  isEmpty : tree.leading.isEmpty = true
  unmarked : tree.markers.toList = []
  canonical : tree.IsCanonical

/-- There is nothing before a unit that can be read. -/
theorem Tree.IsUnitOf.isPart (unit : tree.IsUnitOf path) : tree.IsPart :=
  ⟨Space.isGapTo_of_isEmpty unit.isEmpty _, unit.unmarked, unit.canonical⟩

/-- A source parses as a unit that can be read, in the Java dialect. -/
theorem isUnitOf_of_parse
    (paired : source.hasPairedReturns = true)
    (parsed : parse source path = .ok tree) :
    tree.IsUnitOf path ∧ Dialect.ofPath path = .java := by
  obtain ⟨rest, read⟩ := unit_of_parse parsed
  obtain ⟨⟨statements, eof, rfl⟩, canonical, -⟩ := unit_sound paired read
  refine ⟨⟨⟨statements, eof, rfl⟩, rfl, rfl, canonical⟩, ?_⟩
  unfold parse at parsed
  split at parsed
  · cases parsed
  · next isJava => exact isJava

/-- A unit that can be read is read back from what it prints as. -/
theorem parse_printTrimmed
    (unit : tree.IsUnitOf path)
    (isJava : Dialect.ofPath path = .java) :
    parse tree.printTrimmed path = .ok tree.renewed := by
  obtain ⟨head, form⟩ := tree
  obtain ⟨⟨statements, eof, rfl⟩, isEmpty, unmarked, canonical⟩ := unit
  have noLeading : head.leading.render .slash = [] := (Space.render_eq_nil_iff head.leading).2 isEmpty
  have printed : (Tree.node head
      (.compilationUnit .java ⟨path, none, none⟩ statements eof)).printTrimmed =
        writtenStatements statements ++ eof.render .slash := by
    refine (Tree.written_eq _).trans ?_
    rw [Tree.leading_node, noLeading, Tree.form_node, Form.written_compilationUnit]
    rfl
  rw [parse, isJava, printed]
  dsimp only
  rw [unit_complete canonical, Tree.renewed_eq_placed_empty unmarked isEmpty]
  rfl

end Java
end Lossless
