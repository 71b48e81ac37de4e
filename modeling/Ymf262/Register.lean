import Ymf262.Byte
import Ymf262.Slot

/-! The register map. An address has a bank bit and a low byte; bits above the bank bit only
keep it from naming one of the two global registers of the second bank. An address that names
no register is ignored by the chip. -/
namespace Ymf262

inductive OperatorRegister where
  /-- Tremolo, vibrato, envelope type, key scale rate and multiple. -/
  | tone
  /-- Key scale level and total level. -/
  | level
  | attackDecay
  | sustainRelease
  | waveform
  deriving DecidableEq

inductive ChannelRegister where
  /-- Low byte of the F-number. -/
  | fnumLow
  /-- Key on, block and the upper bits of the F-number. -/
  | keyBlock
  /-- Panning, feedback and connection. -/
  | connection
  deriving DecidableEq

inductive Register where
  | noteSelect
  | operator (kind : OperatorRegister) (slot : Slot)
  | channel (kind : ChannelRegister) (channel : ChannelId)
  /-- Tremolo and vibrato depth and the rhythm section, in the first bank only. -/
  | rhythm
  | fourOpEnable
  | opl3Enable
  deriving DecidableEq

namespace Register

def operatorAt? (kind : OperatorRegister) (bank : Bank) (low : Nat) : Option Register :=
  (Slot.ofOffset? low).map fun s => .operator kind (.ofBank bank s)

def channelAt? (kind : ChannelRegister) (bank : Bank) (low : Nat) : Option Register :=
  if h : low % 16 < 9 then some (.channel kind (.ofBank bank ⟨low % 16, h⟩)) else none

/-- The registers that both banks have, by the upper bits of the low byte. -/
def inBank? (bank : Bank) (low : Nat) : Option Register :=
  match low / 32 with
  | 0 => if low = 0x08 then some .noteSelect else none
  | 1 => operatorAt? .tone bank low
  | 2 => operatorAt? .level bank low
  | 3 => operatorAt? .attackDecay bank low
  | 4 => operatorAt? .sustainRelease bank low
  | 5 =>
    if low = 0xBD then if bank = 0 then some .rhythm else none
    else if low < 0xB0 then channelAt? .fnumLow bank low
    else channelAt? .keyBlock bank low
  | 6 => channelAt? .connection bank low
  | 7 => operatorAt? .waveform bank low
  | _ => none

def ofAddress? (address : UInt16) : Option Register :=
  if address = 0x104 then some .fourOpEnable
  else if address = 0x105 then some .opl3Enable
  else inBank? (if address.toNat.testBit 8 then 1 else 0) (address.toNat % 256)

end Register

structure RegisterWrite where
  address : UInt16
  value : Byte
  deriving DecidableEq

end Ymf262
