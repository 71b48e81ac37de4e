import Ymf262.Text.Decimal

/-! The command line of the register dump. One letter flags may share a dash, a value may be
attached to its option or follow it, and a double dash makes operands of all that comes after.
Arguments are taken from left to right, so that asking for help only counts before the first
fault. -/
namespace Ymf262.Dump

inductive UsageFault where
  | unknownOption (text : String)
  | missingValue
  | unwantedValue (text : String)
  | badValue (text : String)
  | repeated
  | secondFile (text : String)
  | emptyFile
  deriving DecidableEq

structure Options where
  file : Option String
  chunk : Bool
  ticks : Option UInt32
  writes : List String
  all : Bool
  deriving DecidableEq

inductive Flag where
  | chunk
  | all
  /-- More log output, which is no part of the report. -/
  | verbose
  | help
  deriving DecidableEq

inductive Setting where
  | ticks
  | write
  deriving DecidableEq

inductive Switch where
  | flag (f : Flag)
  | setting (s : Setting)
  deriving DecidableEq

inductive Progress where
  | ready (options : Options)
  /-- The next argument is the value of a setting. -/
  | awaiting (options : Options) (setting : Setting)
  | help
  deriving DecidableEq

def Switch.ofLetter? : Char → Option Switch
  | 'c' => some (.flag .chunk)
  | 'a' => some (.flag .all)
  | 'v' => some (.flag .verbose)
  | 'h' => some (.flag .help)
  | 't' => some (.setting .ticks)
  | 'w' => some (.setting .write)
  | _ => none

def Switch.ofName? : String → Option Switch
  | "chunk" => some (.flag .chunk)
  | "all" => some (.flag .all)
  | "verbose" => some (.flag .verbose)
  | "help" => some (.flag .help)
  | "ticks" => some (.setting .ticks)
  | "write" => some (.setting .write)
  | _ => none

namespace Options

def none : Options := ⟨.none, false, .none, [], false⟩

def setFlag (o : Options) : Flag → Except UsageFault Progress
  | .chunk => if o.chunk then .error .repeated else .ok (.ready { o with chunk := true })
  | .all => if o.all then .error .repeated else .ok (.ready { o with all := true })
  | .verbose => .ok (.ready o)
  | .help => .ok .help

def set (o : Options) (setting : Setting) (value : String) : Except UsageFault Options :=
  match setting with
  | .write => .ok { o with writes := o.writes ++ [value] }
  | .ticks =>
    match Text.readDecimalUpTo? 4294967295 value.toList with
    | some n =>
      if o.ticks.isSome then .error .repeated else .ok { o with ticks := some (UInt32.ofNat n) }
    | .none => .error (.badValue value)

def setFile (o : Options) (path : String) : Except UsageFault Options :=
  if o.file.isSome then .error (.secondFile path)
  else if path.isEmpty then .error .emptyFile
  else .ok { o with file := some path }

/-- Flags that share a dash. A setting takes the rest as its value, less one equals sign. -/
def letters (o : Options) : List Char → Except UsageFault Progress
  | [] => .ok (.ready o)
  | c :: cs =>
    match Switch.ofLetter? c with
    | .none => .error (.unknownOption (String.ofList [c]))
    | some (.flag f) => do
      match ← o.setFlag f with
      | .ready o => letters o cs
      | other => .ok other
    | some (.setting s) =>
      match cs with
      | [] => .ok (.awaiting o s)
      | '=' :: value => Progress.ready <$> o.set s (String.ofList value)
      | value => Progress.ready <$> o.set s (String.ofList value)

def named (o : Options) (cs : List Char) : Except UsageFault Progress :=
  let (name, value) := cs.span (· != '=')
  match Switch.ofName? (String.ofList name), value with
  | .none, _ => .error (.unknownOption (String.ofList name))
  | some (.flag f), [] => o.setFlag f
  | some (.flag _), _ :: value => .error (.unwantedValue (String.ofList value))
  | some (.setting s), [] => .ok (.awaiting o s)
  | some (.setting s), _ :: value => Progress.ready <$> o.set s (String.ofList value)

/-- One argument where no value is awaited. A lone dash is an operand. -/
def argument (o : Options) (text : String) : Except UsageFault Progress :=
  match text.toList with
  | '-' :: '-' :: name => o.named name
  | '-' :: c :: cs => o.letters (c :: cs)
  | _ => Progress.ready <$> o.setFile text

def looksLikeOption (text : String) : Bool :=
  match text.toList with
  | '-' :: _ :: _ => true
  | _ => false

def operands (o : Options) : List String → Except UsageFault Options
  | [] => .ok o
  | path :: rest => do operands (← o.setFile path) rest

/-- The options that the arguments give, or none where they ask for help. -/
def parseFrom (p : Progress) (args : List String) : Except UsageFault (Option Options) :=
  match p, args with
  | .help, _ => .ok .none
  | .ready o, [] => .ok (some o)
  | .awaiting .., [] => .error .missingValue
  | .ready o, text :: rest =>
    if text = "--" then some <$> o.operands rest
    else do parseFrom (← o.argument text) rest
  | .awaiting o s, text :: rest =>
    if looksLikeOption text then .error .missingValue
    else do parseFrom (.ready (← o.set s text)) rest
termination_by structural args

def parse (args : List String) : Except UsageFault (Option Options) := parseFrom (.ready none) args

end Options

def help : List String :=
  ["Replays register writes into the register engine and prints the resulting channel and " ++
     "operator state",
   "",
   "Usage: opl3-dump [OPTIONS] [FILE]",
   "",
   "Arguments:",
   "  [FILE]  IMF register log to replay",
   "",
   "Options:",
   "  -c, --chunk           The IMF file starts with a 2 byte length (type 1 IMF)",
   "  -t, --ticks <TICKS>   Stop the replay after this many ticks",
   "  -w, --write <WRITES>  Register write ADDR=VALUE (hex) applied before the replay, e.g. " ++
     "0x105=1 to enable OPL3 mode",
   "  -a, --all             Show all channels, not only the keyed ones",
   "  -v, --verbose...      Log level, repeat for more output",
   "  -h, --help            Print help"]

end Ymf262.Dump
