import Std.Time.DateTime.Timestamp
import WorkflowScheduler.CommandLine.Client
import WorkflowScheduler.Scenario.Launch

/-!
# The program

The command line of the program. There is no network here: a master carries out the client commands
that come in line by line, until the input ends, and an executor has nothing to do.
-/

open WorkflowScheduler CommandLine

/-- The reading of the wall clock. -/
def readClock : IO Instant := do
  let now ← Std.Time.Timestamp.now
  pure (Instant.ofMillis now.toMillisecondsSinceUnixEpoch.toInt)

/-- The content of a file, if it can be read. -/
def contentOf (path : String) : IO (Option ByteArray) := do
  try
    let bytes ← IO.FS.readBinFile path
    pure (some bytes)
  catch _ => pure none

/-- Tell on the error channel why nothing was done. -/
def complain (message : String) : IO Unit := do
  let stderr ← IO.getStderr
  stderr.putStrLn ("Error: " ++ message)

/-- Carry out one client command. -/
def carryOut (sc : Scenario) (words : List String) : IO Scenario := do
  match Command.ofWords words with
  | .error f =>
    IO.print f.output
    pure sc
  | .ok (.client o c) =>
    match c.request with
    | .error f =>
      complain f.message
      pure sc
    | .ok r =>
      let (reply, sc) := sc.serve r
      match reply.map (ClientCommand.showReply o.output r) with
      | some (.ok text) => IO.print text
      | some (.error f) => complain f.message
      | none => complain "the request broke off"
      pure sc
  | .ok _ =>
    complain "not a client command"
    pure sc

/-- Carry out client commands until the input ends. -/
partial def serve (input : IO.FS.Stream) (sc : Scenario) : IO Unit := do
  let line ← input.getLine
  if line.isEmpty then return ()
  let now ← readClock
  let words := (line.trimAscii.toString.splitOn " ").filter fun w => !w.isEmpty
  let sc ← carryOut { sc with now := now } words
  serve input sc

/-- The seed file that a command line names. -/
def seedPath? (args : List String) : Option String :=
  match Command.ofWords args with
  | .ok (.server o) => o.seed
  | _ => none

/-- Run the program. -/
def main (args : List String) : IO UInt32 := do
  let content ←
    match seedPath? args with
    | some path => contentOf path
    | none => pure none
  let now ← readClock
  match outcomeOf ⟨fun _ => content, [], now⟩ args with
  | .ends code output =>
    IO.print output
    pure (UInt32.ofNat code)
  | .serves _ sc =>
    let input ← IO.getStdin
    serve input sc
    pure 0
  | .executes _ => pure 0
