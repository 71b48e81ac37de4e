import Ymf262.Chip.Voice
import Ymf262.Register

/-! What a register write does. Each register is one simultaneous change of the slots it
reaches, so the order in which operators are visited never matters. -/
namespace Ymf262.Chip

/-- The slots that take pitch and key from a channel. -/
def leads (c : Chip) (ch : ChannelId) (s : Slot) : Bool := c.leader s.channel = ch

def writeOperator (c : Chip) (kind : OperatorRegister) (s : Slot) (v : Byte) : Chip :=
  c.modifyOperator s fun o =>
    match kind with
    | .tone => (o.writeTone c.settings.pitchCoef v).retune (c.pitch s.channel)
    | .level => (o.writeLevel v).attenuate (c.pitch s.channel)
    | .attackDecay => o.writeAttackDecay v
    | .sustainRelease => o.writeSustainRelease v
    | .waveform => o.writeWaveform c.opl3Mode v

def setKey (c : Chip) (ch : ChannelId) (on : Bool) : Chip :=
  c.mapOperators fun s o => if c.leads ch s then o.setKey .note on else o

/-- An unchanged word leaves the key code alone, whatever note select says by now. -/
def setBlockFnum (c : Chip) (ch : ChannelId) (blockFnum : Nat) : Chip :=
  if (c.tuning ch).blockFnum = blockFnum then c
  else
    let t := Tuning.of blockFnum c.noteSelect
    (c.setTuning ch t).mapOperators fun s o => if c.leads ch s then o.follow t else o

/-- Panning takes effect in OPL3 mode; outside it both sides are on. -/
def panOf (c : Chip) (v : Byte) : Pan :=
  if c.opl3Mode then ⟨v.bit 4, v.bit 5⟩ else ⟨true, true⟩

def setConnection (c : Chip) (ch : ChannelId) (v : Byte) : Chip :=
  let written := (c.setPan ch (c.panOf v)).modifyOperator ch.modulator (·.writeFeedback v)
  written.reroute (written.leads (written.leader ch))

def writeChannel (c : Chip) (kind : ChannelRegister) (ch : ChannelId) (v : Byte) : Chip :=
  let blockFnum := (c.tuning ch).blockFnum
  match kind with
  | .fnumLow => c.setBlockFnum ch (Tuning.withLow blockFnum v.toNat)
  | .keyBlock => (c.setKey ch (v.bit 5)).setBlockFnum ch (Tuning.withHigh blockFnum v.toNat)
  | .connection => c.setConnection ch v

/-- The bit that keys a slot of the rhythm section: both operators of the bass drum, then
hi-hat, snare drum, tom-tom and cymbal. -/
def rhythmBit? (s : Slot) : Option Nat :=
  match s with
  | 12 | 13 => some 4
  | 14 => some 0
  | 15 => some 3
  | 16 => some 2
  | 17 => some 1
  | _ => none

/-- Without rhythm mode every instrument is released. -/
def writeRhythm (c : Chip) (v : Byte) : Chip :=
  let rhythmMode := v.bit 5
  { c with amDepth := v.bit 7, vibratoDepth := v.bit 6, rhythmMode }.mapOperators fun s o =>
    match rhythmBit? s with
    | some i => o.setKey .rhythm (rhythmMode && v.bit i)
    | none => o

def setFourOpEnable (c : Chip) (v : Byte) : Chip :=
  c.settle { c with
    channels := .ofFn fun ch =>
      match Pair.startingAt? ch with
      | some p => { c.channel ch with extended := v.bit p }
      | none => c.channel ch }

def setOpl3Mode (c : Chip) (on : Bool) : Chip :=
  if c.opl3Mode = on then c
  else c.settle ({ c with opl3Mode := on }.mapOperators fun _ o => o.selectWaveform on)

def store (c : Chip) (r : Register) (v : Byte) : Chip :=
  match r with
  | .noteSelect => { c with noteSelectValue := v }
  | .operator kind s => c.writeOperator kind s v
  | .channel kind ch => c.writeChannel kind ch v
  | .rhythm => c.writeRhythm v
  | .fourOpEnable => c.setFourOpEnable v
  | .opl3Enable => c.setOpl3Mode (v.bit 0)

def write (c : Chip) (address : UInt16) (v : Byte) : Chip :=
  match Register.ofAddress? address with
  | some r => c.store r v
  | none => c

def writeAll (c : Chip) (writes : List RegisterWrite) : Chip :=
  writes.foldl (fun c w => c.write w.address w.value) c

@[simp] theorem writeAll_nil (c : Chip) : c.writeAll [] = c := rfl

@[simp] theorem writeAll_cons (c : Chip) (w : RegisterWrite) (ws : List RegisterWrite) :
    c.writeAll (w :: ws) = (c.write w.address w.value).writeAll ws := rfl

theorem writeAll_append (c : Chip) (ws us : List RegisterWrite) :
    c.writeAll (ws ++ us) = (c.writeAll ws).writeAll us := List.foldl_append

end Ymf262.Chip
