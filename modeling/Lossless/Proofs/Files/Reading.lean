import Lossless.Command.Format
import Lossless.Files.Snapshot
import Lossless.Text.Utf8

/-!
# Files that are read

What is read of a file is a text that is written as the same bytes, and reading changes no file.
-/

namespace Lossless

/-!
## Reading and writing bytes

The encoding of a text that was read from bytes is those bytes: there is one form of every character, and the
reader takes no other.
-/

namespace Text

/-- The last bytes of a character: six bits in each one. -/
def continuation : Nat -> Nat -> List UInt8
  | 0, _ => []
  | owed + 1, value => .ofNat (value / Nat.pow 64 owed % 64 + 0x80) :: continuation owed value

/-- The bytes read so far begin the form of every character that an open character can become. -/
def Begins
    (read : List UInt8)
    (character : OpenCharacter) : Prop :=
  forall value, value.isValidChar -> value / Nat.pow 64 character.owed = character.bits -> character.least ≤ value ->
    String.utf8EncodeChar (.ofNat value) = read ++ continuation character.owed value

section Characters

variable {byte : UInt8} {read : List UInt8} {character next : OpenCharacter}

theorem toNat_val_ofNat
    {value : Nat}
    (isValid : value.isValidChar) :
    (Char.ofNat value).val.toNat = value := by
  have small : value < UInt32.size := by
    unfold Nat.isValidChar at isValid
    unfold UInt32.size
    omega
  rw [Char.ofNat, dif_pos isValid]
  exact UInt32.toNat_ofNatLT

/-- The first byte of a character says how many follow. -/
theorem begins_openCharacter (opened : openCharacter? byte = some character) : Begins [byte] character := by
  have isByte : UInt8.ofNat byte.toNat = byte := UInt8.ofNat_toNat
  intro value isValid bits least
  unfold String.utf8EncodeChar
  rw [toNat_val_ofNat isValid]
  unfold openCharacter? at opened
  dsimp only at opened
  split at opened
  · next small =>
      obtain rfl := Option.some.inj opened
      obtain rfl : value = byte.toNat := by simpa using bits
      rw [if_pos (by omega), isByte]
      rfl
  split at opened
  · cases opened
  split at opened
  · next small =>
      obtain rfl := Option.some.inj opened
      have lead : value / 64 = byte.toNat - 0xC0 := by simpa using bits
      dsimp only at least
      rw [if_neg (by omega), if_pos (by omega), show value / 64 % 0x20 + 0xC0 = byte.toNat by omega, isByte]
      simp [continuation]
  split at opened
  · next small =>
      obtain rfl := Option.some.inj opened
      have lead : value / 4096 = byte.toNat - 0xE0 := by simpa using bits
      dsimp only at least
      rw [if_neg (by omega), if_neg (by omega), if_pos (by omega),
        show value / 4096 % 0x10 + 0xE0 = byte.toNat by omega, isByte]
      simp [continuation]
  split at opened
  · next small =>
      obtain rfl := Option.some.inj opened
      have lead : value / 262144 = byte.toNat - 0xF0 := by simpa using bits
      dsimp only at least
      rw [if_neg (by omega), if_neg (by omega), if_neg (by omega),
        show value / 262144 % 0x08 + 0xF0 = byte.toNat by omega, isByte]
      simp [continuation]
  · cases opened

theorem begins_extend
    (owes : character.owed ≠ 0)
    (begins : Begins read character)
    (extended : character.extend? byte = some next) :
    Begins (read ++ [byte]) next := by
  unfold OpenCharacter.extend? at extended
  dsimp only at extended
  split at extended
  · next isContinuation =>
      obtain rfl := Option.some.inj extended
      obtain ⟨owed, counted⟩ := Nat.exists_eq_succ_of_ne_zero owes
      intro value isValid bits least
      simp only [counted, Nat.succ_eq_add_one, Nat.add_sub_cancel] at bits ⊢
      have higher : value / Nat.pow 64 character.owed = character.bits := by
        rw [counted, show Nat.pow 64 (owed + 1) = Nat.pow 64 owed * 64 from rfl, ← Nat.div_div_eq_div_mul, bits]
        omega
      have digit : value / Nat.pow 64 owed % 64 + 0x80 = byte.toNat := by
        rw [bits]
        omega
      rw [begins value isValid higher least, counted, List.append_assoc]
      refine congrArg (read ++ ·) ?_
      rw [Nat.succ_eq_add_one, continuation, digit, UInt8.ofNat_toNat]
      rfl
  · cases extended

theorem encode_close
    {char : Char}
    (complete : character.owed = 0)
    (begins : Begins read character)
    (closed : character.close? = some char) :
    String.utf8EncodeChar char = read := by
  unfold OpenCharacter.close? at closed
  split at closed
  · next isCharacter =>
      cases closed
      have whole := begins character.bits isCharacter.2 (by simp [complete]) isCharacter.1
      rwa [complete, continuation, List.append_nil] at whole
  · cases closed

end Characters

/-! ### Texts -/

/-- What is left to read after some bytes, and what the bytes of an open character begin. -/
def BeginsOpen
    (read : List UInt8) : Option OpenCharacter -> Prop
  | none => read = []
  | some character => character.owed ≠ 0 ∧ Begins read character

theorem encode_decodeFrom
    {state : Option OpenCharacter}
    {read bytes : List UInt8}
    {text : Text}
    (begins : BeginsOpen read state)
    (decoded : decodeFrom state bytes = some text) :
    encode text = read ++ bytes := by
  induction bytes generalizing state read text with
  | nil =>
      cases state with
      | none =>
          cases decoded
          rw [show read = [] from begins]
          rfl
      | some character => cases decoded
  | cons byte rest ih =>
      obtain ⟨next, beginsNext, decodedNext⟩ : exists next, Begins (read ++ [byte]) next ∧
          (if next.owed = 0 then do return (<- next.close?) :: (<- decodeFrom none rest)
            else decodeFrom (some next) rest) = some text := by
        cases state with
        | none =>
            rw [decodeFrom, Option.bind_eq_bind, Option.bind_eq_some_iff] at decoded
            obtain ⟨next, opened, decoded⟩ := decoded
            rw [show read = [] from begins]
            exact ⟨next, begins_openCharacter opened, decoded⟩
        | some character =>
            rw [decodeFrom, Option.bind_eq_bind, Option.bind_eq_some_iff] at decoded
            obtain ⟨next, extended, decoded⟩ := decoded
            exact ⟨next, begins_extend begins.1 begins.2 extended, decoded⟩
      split at decodedNext
      · next complete =>
          simp only [Option.bind_eq_bind, Option.bind_eq_some_iff, Option.pure_def, Option.some.injEq] at decodedNext
          obtain ⟨char, closed, tail, decodedTail, rfl⟩ := decodedNext
          rw [encode, List.flatMap_cons, encode_close complete beginsNext closed]
          change read ++ [byte] ++ encode tail = _
          rw [ih (show BeginsOpen [] none from rfl) decodedTail, List.nil_append, List.append_assoc]
          rfl
      · next owes =>
          rw [ih (show BeginsOpen (read ++ [byte]) (some next) from ⟨owes, beginsNext⟩) decodedNext,
            List.append_assoc]
          rfl

/-- Bytes that are a text are the encoding of the text. -/
theorem encode_decode?
    {bytes : List UInt8}
    {text : Text}
    (decoded : decode? bytes = some text) :
    encode text = bytes :=
  encode_decodeFrom (show BeginsOpen [] none from rfl) decoded

end Text

/-!
## Reading files

Looking for files and loading the configuration change no file. Whether an action only reads is asked of every
monad over files in memory in the same way, and kept by the ways in which actions are put together.
-/

namespace Files

variable {α β ε σ : Type}

/-- A monad over files in memory, with a property of its actions that says that no file is changed. -/
class Watched (m : Type -> Type) [Monad m] where
  OnlyReads : {α : Type} -> m α -> Prop
  pure : forall {α : Type} (value : α), OnlyReads (Pure.pure value)
  bind : forall {α β : Type} {action : m α} {next : α -> m β},
    OnlyReads action -> (forall value, OnlyReads (next value)) -> OnlyReads (action >>= next)

open Watched (OnlyReads)

instance : Watched (StateM Snapshot) where
  OnlyReads := fun action => forall snapshot, (action.run snapshot).2 = snapshot
  pure := fun _ _ => rfl
  bind := fun {_ _ action next} first others snapshot => by
    change (StateT.run (next (action.run snapshot).1) (action.run snapshot).2).2 = snapshot
    rw [others, first]

section Stacks

variable {m : Type -> Type} [Monad m] [Watched m]

instance : Watched (ExceptT ε m) where
  OnlyReads := fun action => OnlyReads action.run
  pure := fun value => Watched.pure (m := m) (Except.ok value)
  bind := fun first others => Watched.bind (m := m) first fun
    | .ok value => others value
    | .error error => Watched.pure (m := m) (Except.error error)

instance : Watched (StateT σ m) where
  OnlyReads := fun action => forall state, OnlyReads (action.run state)
  pure := fun value state => Watched.pure (m := m) (value, state)
  bind := fun first others state => Watched.bind (m := m) (first state) fun result => others result.1 result.2

theorem onlyReads_throw (error : ε) : OnlyReads (throw error : ExceptT ε m α) :=
  Watched.pure (m := m) (Except.error error)

theorem onlyReads_map
    [LawfulMonad m]
    {action : m α}
    (change : α -> β)
    (reads : OnlyReads action) :
    OnlyReads (change <$> action) := by
  rw [map_eq_pure_bind]
  exact Watched.bind reads fun value => Watched.pure (change value)

theorem onlyReads_liftExcept
    [LawfulMonad m]
    {action : m α}
    (reads : OnlyReads action) :
    OnlyReads (monadLift action : ExceptT ε m α) :=
  onlyReads_map Except.ok reads

theorem onlyReads_liftState
    {action : m α}
    (reads : OnlyReads action) :
    OnlyReads (monadLift action : StateT σ m α) :=
  fun state => Watched.bind reads fun value => Watched.pure (value, state)

theorem onlyReads_mapM
    [LawfulMonad m]
    {list : List α}
    {action : α -> m β}
    (each : forall item, item ∈ list -> OnlyReads (action item)) :
    OnlyReads (list.mapM action) := by
  induction list with
  | nil =>
      rw [List.mapM_nil]
      exact Watched.pure []
  | cons first rest ih =>
      obtain ⟨here, later⟩ := List.forall_mem_cons.1 each
      rw [List.mapM_cons]
      exact Watched.bind here fun value => Watched.bind (ih later) fun values => Watched.pure (value :: values)

theorem onlyReads_filterM
    [LawfulMonad m]
    {list : List α}
    {action : α -> m Bool}
    (each : forall item, OnlyReads (action item)) :
    OnlyReads (list.filterM action) := by
  rw [List.filterM]
  refine Watched.bind ?_ fun kept => Watched.pure kept.reverse
  generalize ([] : List α) = before
  induction list generalizing before with
  | nil => exact Watched.pure before
  | cons first rest ih => exact Watched.bind (each first) fun _ => ih _

end Stacks

/-! ### Single files -/

/-- An action on files in memory. -/
abbrev Stored := StateM Snapshot

/-- A search through files in memory, which may fail. -/
abbrev Search := ExceptT DiscoveryFailure Stored

variable {path start directory relative : Path} {filter : Filter}

theorem onlyReads_status (path : Path) : OnlyReads (Access.status path : Stored _) :=
  fun _ => rfl

theorem onlyReads_entries (path : Path) : OnlyReads (Access.entries path : Stored _) :=
  fun _ => rfl

theorem onlyReads_read (path : Path) : OnlyReads (Access.read path : Stored _) :=
  fun _ => rfl

theorem onlyReads_canonical (path : Path) : OnlyReads (Access.canonical path : Stored _) :=
  fun _ => rfl

theorem onlyReads_kind? (path : Path) : OnlyReads (kind? path : Stored _) := by
  refine Watched.bind (onlyReads_status path) fun status => ?_
  cases status <;> exact Watched.pure _

theorem onlyReads_doesExist (path : Path) : OnlyReads (doesExist path : Stored _) :=
  Watched.bind (onlyReads_kind? path) fun _ => Watched.pure _

theorem onlyReads_isFile (path : Path) : OnlyReads (isFile path : Stored _) :=
  Watched.bind (onlyReads_kind? path) fun _ => Watched.pure _

theorem onlyReads_isDirectory (path : Path) : OnlyReads (isDirectory path : Stored _) :=
  Watched.bind (onlyReads_kind? path) fun _ => Watched.pure _

theorem onlyReads_readText (path : Path) : OnlyReads (readText path : Stored _) := by
  refine Watched.bind (onlyReads_read path) fun bytes => ?_
  cases bytes <;> exact Watched.pure _

theorem onlyReads_readSource (path : Path) : OnlyReads (readSource path : Stored _) := by
  refine Watched.bind (onlyReads_readText path) fun text => ?_
  cases text <;> exact Watched.pure _

/-! ### Finding files -/

theorem onlyReads_filesBelow
    (start : Path)
    (depth : Nat)
    (directory relative : Path) :
    OnlyReads (filesBelow start depth directory relative : Search _) := by
  induction depth generalizing directory relative with
  | zero => exact Watched.pure _
  | succ depth ih =>
      rw [filesBelow]
      refine Watched.bind (onlyReads_liftExcept (onlyReads_entries directory)) fun listed => ?_
      cases listed with
      | error failure => exact onlyReads_throw _
      | ok entries =>
          refine Watched.bind (onlyReads_mapM fun entry _ => ?_) fun _ => Watched.pure _
          dsimp only
          split
          · exact Watched.pure _
          · exact ih _ _
          · exact Watched.pure _

theorem onlyReads_walk
    (filter : Filter)
    (directory : Path) :
    OnlyReads (walk filter directory : Search _) :=
  Watched.bind (onlyReads_filesBelow _ _ _ _) fun _ => Watched.pure _

theorem onlyReads_matchedAt (path : Path) : OnlyReads (matchedAt path : Stored _) :=
  Watched.bind (onlyReads_isDirectory path) fun _ => Watched.pure _

theorem onlyReads_matchedIn (directory : Path) : OnlyReads (matchedIn directory : Search _) := by
  refine Watched.bind (onlyReads_liftExcept (onlyReads_entries directory)) fun listed => ?_
  cases listed with
  | error failure => exact onlyReads_throw _
  | ok entries =>
      refine onlyReads_mapM fun entry _ => ?_
      dsimp only
      split
      · exact Watched.bind (onlyReads_liftExcept (onlyReads_isDirectory _)) fun _ => Watched.pure _
      · exact Watched.bind (Watched.pure _) fun _ => Watched.pure _

/-- One step down a pattern, with the steps below it. -/
theorem onlyReads_expandBelow
    {bound : Nat}
    (below : forall parts start, OnlyReads (expandBelow bound parts start : Search _))
    (inEntry : forall parts name entry, OnlyReads (expandEntry bound parts name entry : Search _))
    (parts : List PatternPart)
    (start : Matched) :
    OnlyReads (expandBelow (bound + 1) parts start : Search _) := by
  have matched (path : Path) : OnlyReads (monadLift (matchedAt path : Stored Matched) : Search Matched) :=
    onlyReads_liftExcept (onlyReads_matchedAt path)
  rcases parts with _ | ⟨name | pattern | _, rest⟩
  · rw [expandBelow]
    exact Watched.pure _
    simp
  · have onwards (isThere : Bool) :
        OnlyReads (do
          if isThere then
            expandBelow bound rest (<- (matchedAt (entryPath start.path name) : Stored Matched))
          else return [] : Search (List Matched)) := by
      split
      · exact Watched.bind (matched _) fun _ => below _ _
      · exact Watched.pure _
    rw [expandBelow]
    dsimp only
    split
    · exact Watched.bind (Watched.pure _) onwards
    · exact Watched.bind (onlyReads_liftExcept (onlyReads_doesExist _)) onwards
  all_goals
    rw [expandBelow]
    · split
      · refine Watched.bind (onlyReads_matchedIn _) fun entries => ?_
        refine Watched.bind (onlyReads_mapM fun entry _ => inEntry _ _ _) fun _ => ?_
        refine Watched.bind (onlyReads_mapM fun name _ => ?_) fun _ => Watched.pure _
        exact Watched.bind (matched _) fun _ => below _ _
      · exact Watched.pure _
    · simp

theorem onlyReads_expandEntry
    {bound : Nat}
    (below : forall parts start, OnlyReads (expandBelow bound parts start : Search _))
    (inEntry : forall parts name entry, OnlyReads (expandEntry bound parts name entry : Search _))
    (parts : List PatternPart)
    (name : Text)
    (entry : Matched) :
    OnlyReads (expandEntry (bound + 1) parts name entry : Search _) := by
  rcases parts with _ | ⟨wanted | pattern | _, rest⟩
  · rw [expandEntry]
    exact Watched.pure _
    simp
  · rw [expandEntry]
    split
    · exact below _ _
    · exact Watched.pure _
  · rw [expandEntry]
    split
    · exact below _ _
    · exact Watched.pure _
  · have here (last found : List Matched) :
        OnlyReads (do
          let here <- if rest.isEmpty then pure last else expandEntry bound rest name entry
          return found ++ here : Search (List Matched)) := by
      dsimp only
      split
      · exact Watched.bind (Watched.pure _) fun _ => Watched.pure _
      · exact Watched.bind (inEntry _ _ _) fun _ => Watched.pure _
    rw [expandEntry]
    dsimp only
    split
    · exact Watched.bind (below _ _) (here _)
    · exact Watched.bind (Watched.pure _) (here _)

theorem onlyReads_expansion (bound : Nat) :
    (forall parts start, OnlyReads (expandBelow bound parts start : Search _)) ∧
      forall parts name entry, OnlyReads (expandEntry bound parts name entry : Search _) := by
  induction bound with
  | zero =>
      refine ⟨fun parts start => ?_, fun parts name entry => ?_⟩
      · rw [expandBelow]
        exact Watched.pure _
      · rw [expandEntry]
        exact Watched.pure _
  | succ bound ih => exact ⟨onlyReads_expandBelow ih.1 ih.2, onlyReads_expandEntry ih.1 ih.2⟩

theorem onlyReads_expand (text : Text) : OnlyReads (expand text : Search _) := by
  unfold expand
  dsimp only
  split
  · refine Watched.bind (onlyReads_liftExcept (onlyReads_matchedAt _)) fun _ => ?_
    exact Watched.bind ((onlyReads_expansion _).1 _ _) fun _ => Watched.pure _
  · exact onlyReads_throw _

theorem onlyReads_filesOf
    (filter : Filter)
    (path : Path) :
    OnlyReads (filesOf filter path : Search _) := by
  refine Watched.bind (onlyReads_liftExcept (onlyReads_kind? path)) fun found => ?_
  split
  · exact Watched.pure _
  · exact onlyReads_walk filter path
  · split
    · refine Watched.bind (onlyReads_expand _) fun paths => ?_
      exact onlyReads_filterM fun _ => onlyReads_liftExcept (onlyReads_isFile _)
    · exact onlyReads_throw _

/-- Looking for files changes none. -/
theorem onlyReads_discover
    (filter : Filter)
    (extensions : List Text)
    (paths : List Path) :
    OnlyReads (discover filter extensions paths : Stored _) :=
  Watched.bind (m := Search) (onlyReads_mapM fun path _ => onlyReads_filesOf filter path) fun _ => Watched.pure _

end Files

/-! ### The configuration -/

namespace Config

open Files Files.Watched

theorem onlyReads_loadFile (path : Path) : OnlyReads (loadFile path : Stored _) :=
  Watched.bind (onlyReads_readSource path) fun _ => Watched.pure _

theorem onlyReads_firstFile (paths : List Path) : OnlyReads (firstFile paths : Stored _) := by
  induction paths with
  | nil => exact Watched.pure _
  | cons first rest ih =>
      refine Watched.bind (onlyReads_isFile first) fun isThere => ?_
      cases isThere with
      | true => exact Watched.pure _
      | false => exact ih

theorem onlyReads_findFile (start : Path) : OnlyReads (findFile start : Stored _) := by
  refine Watched.bind (onlyReads_canonical start) fun directory => ?_
  cases directory with
  | error failure => exact Watched.pure _
  | ok directory => exact Watched.bind (onlyReads_firstFile _) fun _ => Watched.pure _

theorem onlyReads_load
    (named : Option Path)
    (start : Path) :
    OnlyReads (load named start : Stored _) := by
  cases named with
  | some path =>
      refine Watched.bind (onlyReads_doesExist path) fun isThere => ?_
      cases isThere with
      | true => exact onlyReads_loadFile path
      | false => exact Watched.pure _
  | none =>
      refine Watched.bind (onlyReads_findFile start) fun found => ?_
      split
      · exact Watched.pure _
      · exact onlyReads_loadFile _
      · exact Watched.pure _

end Config

/-! ### Commands -/

namespace Command

open Files Files.Watched

theorem onlyReads_liftSession
    {α : Type}
    {action : Stored α}
    (reads : OnlyReads action) :
    OnlyReads (monadLift action : Session Stored α) :=
  onlyReads_liftExcept (onlyReads_liftState reads)

theorem onlyReads_orStop
    {α ε : Type}
    (messages : ε -> List Text)
    (result : Except ε α) :
    OnlyReads (Session.orStop messages result : Session Stored α) := by
  cases result with
  | ok value => exact Watched.pure value
  | error error => exact onlyReads_throw (Stop.failed (messages error))

theorem onlyReads_configurationStart (paths : List Path) : OnlyReads (configurationStart paths : Stored _) := by
  cases paths with
  | nil => exact Watched.pure _
  | cons first rest =>
      refine Watched.bind (onlyReads_kind? first) fun kind => ?_
      split <;> exact Watched.pure _

/-- Choosing the files of a command and loading its configuration change no file. -/
theorem onlyReads_selectFiles
    (named : Option Path)
    (selection : Selection)
    (extensions : List Text) :
    OnlyReads (selectFiles named selection extensions : Session Stored _) := by
  refine Watched.bind (onlyReads_liftSession (onlyReads_configurationStart _)) fun start => ?_
  refine Watched.bind (Watched.bind (onlyReads_liftSession (Config.onlyReads_load named start)) fun _ =>
    onlyReads_orStop _ _) fun configuration => ?_
  refine Watched.bind (onlyReads_orStop _ _) fun filter => ?_
  refine Watched.bind (onlyReads_liftSession (onlyReads_discover filter extensions _)) fun found => ?_
  exact Watched.bind (onlyReads_orStop _ _) fun _ => Watched.pure _

end Command

end Lossless
