import Ymf262.Chip.Reset
import Ymf262.Text.Numeral

/-! The log of a run. An event is what one line of the log records; the events of a write are
read off the chip before and after it, so logging never touches the chip. -/
namespace Ymf262

inductive Event where
  | write (address : UInt16) (value : Byte)
  | reset
  | fourOpEnable (value : Byte)
  | opl3Mode (on : Bool)
  | rhythmMode (on : Bool)
  /-- A four operator voice was given its signal graph. -/
  | graph (pair : Pair) (code : Fin 4)
  | records (count : Nat)
  deriving DecidableEq

inductive LogLevel where
  | debug
  | trace
  deriving DecidableEq

namespace LogLevel

def text : LogLevel → String
  | debug => "DEBUG"
  | trace => "TRACE"

/-- A log at trace level also holds what one at debug level does. -/
def admits : LogLevel → LogLevel → Bool
  | trace, _ => true
  | debug, level => level = debug

end LogLevel

namespace Event
open Text

def level : Event → LogLevel
  | write .. | graph .. => .trace
  | reset | fourOpEnable _ | opl3Mode _ | rhythmMode _ | records _ => .debug

def message : Event → String
  | write address value => "write_reg " ++ hex 3 address.toNat ++ " = " ++ hex 2 value.toNat
  | reset => "reset chip"
  | fourOpEnable value => "4-op enable " ++ binary 6 (value.toNat % 64)
  | opl3Mode on => "OPL3 mode " ++ onOff on
  | rhythmMode on => "rhythm mode " ++ onOff on
  | graph pair code =>
    "4-op channel " ++ decimal pair.primary.val ++ "/" ++ decimal pair.secondary.val ++
      " connection " ++ decimal code.val
  | records count => "parsed " ++ decimal count ++ " IMF records"

def line (e : Event) : String := e.level.text ++ " " ++ e.message

end Event

namespace Chip

/-- The pairs joined since `before`, each with its signal graph. -/
def joinEvents (before after : Chip) : List Event :=
  (Pair.all.filter fun p => !before.joined p && after.joined p).map fun p =>
    .graph p (after.connectionCode p)

/-- What a register records beyond the write itself. -/
def storeEvents (c : Chip) (r : Register) (v : Byte) : List Event :=
  let after := c.store r v
  match r with
  | .fourOpEnable => .fourOpEnable v :: c.joinEvents after
  | .opl3Enable =>
    if after.opl3Mode = c.opl3Mode then []
    else .opl3Mode after.opl3Mode :: c.joinEvents after
  | .rhythm =>
    if after.rhythmMode = c.rhythmMode then [] else [.rhythmMode after.rhythmMode]
  | .channel .connection ch =>
    (c.activePair? ch).toList.map fun p => .graph p (after.connectionCode p)
  | _ => []

def writeEvents (c : Chip) (address : UInt16) (v : Byte) : List Event :=
  .write address v ::
    match Register.ofAddress? address with
    | some r => c.storeEvents r v
    | none => []

def writeAllEvents (c : Chip) : List RegisterWrite → List Event
  | [] => []
  | w :: ws =>
    c.writeEvents w.address w.value ++ (c.write w.address w.value).writeAllEvents ws

def resetEvents (c : Chip) : List Event := .reset :: (zero c.settings).writeAllEvents resetWrites

def busEvents (c : Chip) (lines v : Byte) : List Event :=
  if lines.bit 0 then c.writeEvents c.address v else []

end Chip

end Ymf262
