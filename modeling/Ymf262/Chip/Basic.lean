import Ymf262.Operator

/-! The whole register state of a chip, with everything derived from it. Operators are one
vector over the slots, so that a register acts on the chip slot by slot: `mapOperators` and
`modifyOperator` are the only ways in which operators change, and their laws say which. -/
namespace Ymf262

structure Settings where
  /-- Scales the frequency multiples; 1024 leaves them as they are. -/
  pitchCoef : UInt32
  deriving DecidableEq

namespace Settings

def default : Settings := ⟨1154⟩

end Settings

structure Channel where
  tuning : Tuning
  /-- The channel leads a four operator voice once the chip is in OPL3 mode. -/
  extended : Bool
  output : Int32
  deriving DecidableEq

namespace Channel

def zero : Channel := ⟨.zero, false, 0⟩

end Channel

structure Pan where
  left : Bool
  right : Bool
  deriving DecidableEq

structure Chip where
  operators : Vector Operator 36
  channels : Vector Channel 18
  pans : Vector Pan 18
  phaseModA : Int32
  phaseModB : Int32
  opl3Mode : Bool
  rhythmMode : Bool
  /-- Tremolo of 4.8 dB instead of 1 dB. -/
  amDepth : Bool
  /-- Vibrato of 14 cents instead of 7. -/
  vibratoDepth : Bool
  noteSelectValue : Byte
  address : UInt16
  settings : Settings
  deriving DecidableEq

namespace Chip

def zero (settings : Settings) : Chip where
  operators := .replicate 36 .zero
  channels := .replicate 18 .zero
  pans := .replicate 18 ⟨false, false⟩
  phaseModA := 0
  phaseModB := 0
  opl3Mode := false
  rhythmMode := false
  amDepth := false
  vibratoDepth := false
  noteSelectValue := 0
  address := 0
  settings

def operator (c : Chip) (s : Slot) : Operator := c.operators[s]
def channel (c : Chip) (ch : ChannelId) : Channel := c.channels[ch]
def tuning (c : Chip) (ch : ChannelId) : Tuning := (c.channel ch).tuning
def pan (c : Chip) (ch : ChannelId) : Pan := c.pans[ch]

/-- The connection bit is kept on the modulator. -/
def connection (c : Chip) (ch : ChannelId) : Bool := (c.operator ch.modulator).connection

def keyed (c : Chip) (ch : ChannelId) : Bool :=
  (c.operator ch.modulator).key.held || (c.operator ch.carrier).key.held

def noteSelect (c : Chip) : Bool := c.noteSelectValue.bit 6

def vibratoOffset (c : Chip) : Nat := if c.vibratoDepth then 8 else 0

def sameChannel (c : Chip) (a b : ChannelId) : Bool :=
  c.channel a = c.channel b && c.operator a.modulator = c.operator b.modulator &&
    c.operator a.carrier = c.operator b.carrier

def mapOperators (c : Chip) (f : Slot → Operator → Operator) : Chip :=
  { c with operators := .ofFn fun s => f s c.operators[s] }

def modifyOperator (c : Chip) (s : Slot) (f : Operator → Operator) : Chip :=
  { c with operators := c.operators.set s (f c.operators[s]) }

def setTuning (c : Chip) (ch : ChannelId) (t : Tuning) : Chip :=
  { c with channels := c.channels.set ch { c.channel ch with tuning := t } }

def setPan (c : Chip) (ch : ChannelId) (p : Pan) : Chip :=
  { c with pans := c.pans.set ch p }

@[simp] theorem operator_mapOperators (c : Chip) (f : Slot → Operator → Operator) (s : Slot) :
    (c.mapOperators f).operator s = f s (c.operator s) := by
  simp [operator, mapOperators]

@[simp] theorem operator_modifyOperator (c : Chip) (s t : Slot) (f : Operator → Operator) :
    (c.modifyOperator s f).operator t = if t = s then f (c.operator s) else c.operator t := by
  simp only [operator, modifyOperator, Fin.getElem_fin, Vector.getElem_set, Fin.ext_iff,
    eq_comm (a := s.val)]

@[simp] theorem channel_mapOperators (c : Chip) (f : Slot → Operator → Operator)
    (ch : ChannelId) : (c.mapOperators f).channel ch = c.channel ch := by
  simp only [channel, mapOperators]

@[simp] theorem opl3Mode_mapOperators (c : Chip) (f : Slot → Operator → Operator) :
    (c.mapOperators f).opl3Mode = c.opl3Mode := by
  simp only [mapOperators]

@[simp] theorem channel_modifyOperator (c : Chip) (s : Slot) (f : Operator → Operator)
    (ch : ChannelId) : (c.modifyOperator s f).channel ch = c.channel ch := by
  simp only [channel, modifyOperator]

@[simp] theorem operator_setTuning (c : Chip) (ch : ChannelId) (t : Tuning) (s : Slot) :
    (c.setTuning ch t).operator s = c.operator s := by
  simp only [operator, setTuning]

@[simp] theorem channel_setTuning (c : Chip) (ch d : ChannelId) (t : Tuning) :
    (c.setTuning ch t).channel d =
      if d = ch then { c.channel ch with tuning := t } else c.channel d := by
  simp only [channel, setTuning, Fin.getElem_fin, Vector.getElem_set, Fin.ext_iff,
    eq_comm (a := ch.val)]

@[simp] theorem pan_setPan (c : Chip) (ch d : ChannelId) (p : Pan) :
    (c.setPan ch p).pan d = if d = ch then p else c.pan d := by
  simp only [pan, setPan, Fin.getElem_fin, Vector.getElem_set, Fin.ext_iff, eq_comm (a := ch.val)]

end Chip

end Ymf262
