import BuildScript.Command.Arguments
import BuildScript.Command.Run
/-!
# The command line

Reads the settings file and the script that the arguments name, does what the call asks for, prints
what there is to print and writes what is to be written. Everything else is decided by
`BuildScript.Command.answer`, for the host that comes with the library.
-/
namespace BuildScript.Command

def readFile (path : Path) : IO (Except FileFault (Option ByteArray)) := do
  try
    return .ok (some (← IO.FS.readBinFile (String.ofList path.text)))
  catch
    | .noFileOrDirectory .. => return .ok none
    | _ => return .error .isDirectory

def Failure.message : Failure → Text
  | .settings fault => fault.message
  | .file .undecodable => "A file is not encoded in UTF-8.".toList
  | .file .nullInPath => "A name has a null character in it.".toList
  | .file _ => "A file cannot be read or written.".toList

def misuseText : String := "The arguments do not fit a command, or there is no such script."

def perform (host : Host) (invocation : Invocation) : IO UInt32 := do
  let path := Path.ofText invocation.file
  let config ← readFile (.ofText invocation.config)
  let script := (← readFile path).bind fun content => content.mapM FileTree.decodeText
  let result := answer host config script path invocation.call
  if let some new := result.written then
    IO.FS.writeFile (String.ofList path.text) (String.ofList new)
  IO.print (String.ofList result.output)
  if let some failure := result.failure then
    IO.eprintln (String.ofList failure.message)
  if result = .misuse then IO.eprintln misuseText
  return result.exitCode.toUInt32

end BuildScript.Command

open BuildScript.Command in
/-- Runs the command that the arguments name. -/
def main (args : List String) : IO UInt32 :=
  match standardHost.arguments (args.map String.toList) with
  | .invocation invocation => perform standardHost invocation
  | .ended exitCode output => do
    IO.print (String.ofList output)
    if exitCode = Result.misuse.exitCode then IO.eprintln misuseText
    return exitCode.toUInt32
