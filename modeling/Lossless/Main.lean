import Lossless.Command.Run

/-!
# The program

Files are those of the system; what the run says is printed.
-/

namespace Lossless

open Files

/-- Why the system refused something, by its error number. -/
def Files.Failure.ofError : IO.Error -> Failure
  | .noFileOrDirectory _ code details => ofNumber code details
  | .inappropriateType _ code details => ofNumber code details
  | .permissionDenied _ code details => ofNumber code details
  | .invalidArgument _ code details => ofNumber code details
  | .resourceExhausted _ code details => ofNumber code details
  | .noSuchThing _ code details => ofNumber code details
  | .alreadyExists _ code details => ofNumber code details
  | .otherError code details => ofNumber code details
  | error => .other (toString error).toList
where
  ofNumber (code : UInt32) (details : String) : Failure :=
    match code.toNat with
    | 2 => .notFound
    | 20 => .notDirectory
    | 21 => .isDirectory
    | 36 => .nameTooLong
    | number => .other (details ++ " (os error " ++ toString number ++ ")").toList

/-- Do something with the system, and say why when it is refused. -/
def attempt (action : IO α) : IO (Except Failure α) := do
  match <- action.toBaseIO with
  | .ok value => return .ok value
  | .error error => return .error (.ofError error)

/-- A path for the system. -/
def systemText (path : Path) : String :=
  String.ofList path.text

/-- The kind of what the system has. -/
def kindOf : IO.FS.FileType -> Kind
  | .file => .file
  | .dir => .directory
  | .symlink => .link
  | .other => .other

instance : Access IO where
  status := fun path => attempt do
    let found <- (System.mkFilePath [systemText path]).metadata
    return ⟨kindOf found.type, 0o644, found.byteSize.toNat⟩
  entries := fun path => attempt do
    let found <- (System.mkFilePath [systemText path]).readDir
    found.toList.mapM fun entry => do
      let about <- entry.path.symlinkMetadata
      return ⟨entry.fileName.toList, kindOf about.type⟩
  read := fun path => attempt do
    return (<- IO.FS.readBinFile (systemText path)).toList
  write := fun path bytes => attempt (IO.FS.writeBinFile (systemText path) bytes.toByteArray)
  canonical := fun path => attempt do
    let _ <- (System.mkFilePath [systemText path]).metadata
    return ⟨(<- IO.FS.realPath (systemText path)).toString.toList⟩

end Lossless

open Lossless Lossless.Command in
/-- Run a command line. -/
def main (words : List String) : IO UInt32 := do
  let start <- IO.monoNanosNow
  let report : Report <- run (words.map String.toList)
  let output <- IO.getStdout
  output.putStr (String.ofList report.output)
  if report.isTimed then
    let time := describeDuration ((<- IO.monoNanosNow) - start)
    output.putStrLn ("Completed in " ++ String.ofList time)
  if let some failure := report.failure then
    (<- IO.getStderr).putStrLn ("error: " ++ String.ofList failure)
  return .ofNat report.code
