import ModelSearch.Command.Transcript

/-!
# The command

Reads the formula from a file or from standard input, searches for a model under
the clock, and prints the transcript of the run.
-/

namespace ModelSearch.Command

/-- More rounds than any search lives to see. -/
def ampleFuel : Nat := Nat.pow 2 62

/-- All bytes of a stream. -/
partial def readAll (stream : IO.FS.Stream) (bytes : ByteArray) : IO ByteArray := do
  let chunk ← stream.read 65536
  if chunk.isEmpty then return bytes else readAll stream (bytes ++ chunk)

/-- Reads a stream to its end, unless reading fails. -/
def readSource (stream : IO.FS.Stream) : IO Source := do
  try
    return .content (← readAll stream .empty).toList
  catch _ =>
    return .unreadable

/-- Why a file could not be opened. -/
def openingError : IO.Error → String
  | .noFileOrDirectory _ code details | .permissionDenied (some _) code details
  | .resourceExhausted (some _) code details | .inappropriateType (some _) code details
  | .invalidArgument (some _) code details =>
      details ++ " (os error " ++ toString code ++ ")"
  | error => toString error

def openFile (path : String) : IO Source := do
  try
    let handle ← IO.FS.Handle.mk path .read
    readSource (IO.FS.Stream.ofHandle handle)
  catch error =>
    return .closed (openingError error)

/-- Rounds of the search under the clock. -/
partial def searchTimed (start : Nat) (solver : Solver Empty) :
    IO (EStateM.Result Fault (Solver Empty) Report) := do
  let now ← IO.monoMsNow
  match (Solver.searchRound ampleFuel (now - start)).run solver with
  | .ok none solver => searchTimed start solver
  | .ok (some report) solver => return .ok report solver
  | .error fault solver => return .error fault solver

def runTimed (arguments : List String) : IO Transcript := do
  match (Request.ofArguments arguments).settle with
  | .error transcript => return transcript
  | .ok options =>
      let source ←
        match options.file with
        | some path => openFile path
        | none => readSource (← IO.getStdin)
      match loadSource options source with
      | .error transcript => return transcript
      | .ok solver =>
          let start ← IO.monoMsNow
          return concludeResult options (← searchTimed start solver)

end ModelSearch.Command

def main (arguments : List String) : IO UInt32 := do
  let transcript ← ModelSearch.Command.runTimed arguments
  IO.print transcript.text
  return UInt32.ofNat transcript.exitCode
