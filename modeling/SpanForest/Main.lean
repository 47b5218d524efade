import SpanForest.Command.Run

/-!
The program: a command line on the files of the machine. It reads the one input, lets the library
produce the output, and writes that where it is asked for.
-/

namespace SpanForest.Command

def fileFault? (path : String) : IO.Error → Option FileFault
  | .noFileOrDirectory .. => some (.notFound path)
  | .inappropriateType .. => some (.isDirectory path)
  | _ => none

def readInput (path : String) : IO TextSource := do
  if path = standardInput then
    let input ← (← IO.getStdin).readToEnd
    pure ⟨input.toList, none⟩
  else
    try
      let bytes ← IO.FS.readBinFile path
      pure (decodeFile path bytes.toList)
    catch e =>
      match fileFault? path e with
      | some fault => pure ⟨[], some fault⟩
      | none => throw e

def endWithFault (fault : Fault) : IO UInt32 := do
  match fault with
  | .file cause => IO.eprint (faultLine cause)
  | fault => IO.eprintln fault.message
  pure 1

/-- Writes a file, which is emptied even if its new text cannot be encoded. -/
def writeText (path : String) (r : Rendering) : IO UInt32 := do
  match r.text.chars? with
  | some cs =>
      IO.FS.writeFile path (String.ofList cs)
      IO.eprint (writtenLine path r)
      pure 0
  | none =>
      IO.FS.writeFile path ""
      endWithFault (.file (.unencodable (.locate r.text)))

def writeOutput (request : Request) (r : Rendering) : IO UInt32 := do
  match request.output with
  | .standardOutput =>
      match r.text.chars? with
      | some cs =>
          IO.print (String.ofList cs)
          pure 0
      | none => endWithFault (.file (.unencodable (.locate r.text)))
  | .nowhere => endWithFault (.file .noPath)
  | .file path =>
      try
        writeText path r
      catch e =>
        match fileFault? path e with
        | some fault => endWithFault (.file fault)
        | none => throw e

def runOnMachine (request : Request) : IO UInt32 := do
  let p := produce request (← readInput request.input)
  for w in p.warnings do
    IO.eprintln w.message
  IO.eprint p.log
  match p.outcome with
  | .error fault => endWithFault fault
  | .ok r => writeOutput request r

def runProgram (args : List String) : IO UInt32 := do
  match Options.read args with
  | .ok request => runOnMachine request
  | .error .showVersion =>
      IO.print versionLine
      pure 0
  | .error .showHelp =>
      IO.print helpText
      pure 0
  | .error (.usage e) =>
      IO.eprint (usageText e)
      pure 2

end SpanForest.Command

def main (args : List String) : IO UInt32 := SpanForest.Command.runProgram args
