import RingMachine.Shell.Request

/-!
# The command

Collects what a command may ask for, the files that its arguments name and the
whole of standard input, and carries out its report.
-/

namespace RingMachine.CommandLine

def FileError.ofSystem : IO.Error → FileError
  | .noFileOrDirectory .. => .notFound
  | .inappropriateType _ code _ => if code = 21 then .isDirectory else .notDirectory
  | .permissionDenied .. => .permissionDenied
  | .invalidArgument _ _ _ => .nameTooLong
  | e => .other (toString e)

def findNode (path : String) : IO (Except FileError Node) := do
  try
    let bytes ← IO.FS.readBinFile path
    return .ok (.file bytes.toList)
  catch e =>
    match FileError.ofSystem e with
    | .isDirectory => return .ok .directory
    | error => return .error error

/-- The paths that a command may open. -/
def Request.paths : Request → List String
  | .version => []
  | .execute arguments =>
    arguments.program :: (arguments.data.toList ++ arguments.input.toList)

def Request.readsStandardInput : Request → Bool
  | .version => false
  | .execute arguments => arguments.input.isNone && !arguments.disassemble

partial def readAll (stream : IO.FS.Stream) (bytes : ByteArray) : IO ByteArray := do
  let chunk ← stream.read 65536
  if chunk.isEmpty then return bytes else readAll stream (bytes ++ chunk)

def Request.host (request : Request) : IO Host := do
  let nodes ← request.paths.mapM fun path => return (path, ← findNode path)
  let input ← if request.readsStandardInput then readAll (← IO.getStdin) .empty else pure .empty
  return {
    find := fun path => (nodes.lookup path).getD (.error .notFound)
    standardInput := input.toList }

/-- No run gets this far. -/
def patience : Nat := UInt64.size

end RingMachine.CommandLine

open RingMachine RingMachine.CommandLine in
def main (words : List String) : IO UInt32 := do
  match Request.ofWords words with
  | .error e =>
    IO.eprintln ("error: " ++ e.message)
    return 2
  | .ok request =>
    let setting ← IO.getEnv "RUST_LOG"
    match request.respond patience setting (← request.host) ({} : BufferedSink) with
    | none => return 1
    | some report =>
      let out ← IO.getStdout
      out.write ⟨report.sink.contents⟩
      out.flush
      for line in report.log do
        IO.eprintln line
      return report.exitCode.toUInt32
