import Ymf262.Dump.Run

/-! The register dump as a program: it reads the log file, prints the report, and leaves with
status 1 when the run fails and 2 when the command line is wrong. -/
namespace Ymf262.Dump

def UsageFault.message : UsageFault → String
  | unknownOption text => "unknown option '" ++ text ++ "'"
  | missingValue => "an option lacks its value"
  | unwantedValue text => "unexpected value '" ++ text ++ "' for a flag"
  | badValue text => "invalid value '" ++ text ++ "'"
  | repeated => "an option is given twice"
  | secondFile text => "unexpected argument '" ++ text ++ "'"
  | emptyFile => "the file name is empty"

/-- The system's number of an error, which is negated where a file could not be opened. -/
def errorNumber (code : UInt32) : UInt32 := min code (-code)

def faultOf : IO.Error → FileFault
  | .noFileOrDirectory .. => .missing
  | .permissionDenied .. => .denied
  | .inappropriateType _ code _ => if errorNumber code = 20 then .notDirectory else .directory
  | .invalidArgument _ code detail => if errorNumber code = 36 then .nameTooLong else .other detail
  | e => .other (toString e)

def readLog (path : String) : IO (Except FileFault (List Byte)) := do
  try
    return .ok (← IO.FS.readBinFile path).toList
  catch e =>
    return .error (faultOf e)

def execute (o : Options) : IO UInt32 := do
  let log ← match o.file with
    | some path => readLog path
    | none => pure (.error .missing)
  match run (fun _ => log) o with
  | .ok lines =>
    lines.forM IO.println
    return 0
  | .error e =>
    IO.eprintln ("Error: " ++ e.message.quote)
    return 1

end Ymf262.Dump

def main (args : List String) : IO UInt32 := do
  match Ymf262.Dump.Options.parse args with
  | .ok (some o) => Ymf262.Dump.execute o
  | .ok none =>
    Ymf262.Dump.help.forM IO.println
    return 0
  | .error fault =>
    IO.eprintln ("error: " ++ fault.message)
    return 2
