import Ymf262.Byte
import Ymf262.Destination
import Ymf262.Envelope
import Ymf262.Key
import Ymf262.Rate
import Ymf262.Tuning

/-! One operator: the fields its five registers set, the values derived from them and from
the pitch it follows, and the phase, envelope and volume that synthesis advances. `retune`
and `attenuate` re-derive what depends on pitch; the rates only move with the key scale
value, so an unchanged value leaves them alone. -/
namespace Ymf262

structure Operator where
  multiple : UInt32
  ksrShift : Nat
  sustained : Bool
  vibrato : Bool
  feedback : Nat
  connection : Bool
  waveformNumber : Nat
  waveform : Nat
  attackCode : Nat
  decayCode : Nat
  releaseCode : Nat
  sustainLevel : Nat
  ksr : Nat
  attack : Rate
  decay : Rate
  release : Rate
  totalLevel : Nat
  kslShift : Nat
  am : Bool
  attenuation : Nat
  phase : UInt32
  increment : UInt32
  key : Keys
  envelope : EnvelopePhase
  volume : UInt16
  destination : Destination
  deriving DecidableEq

namespace Operator

def zero : Operator where
  multiple := 0
  ksrShift := 0
  sustained := false
  vibrato := false
  feedback := 0
  connection := false
  waveformNumber := 0
  waveform := 0
  attackCode := 0
  decayCode := 0
  releaseCode := 0
  sustainLevel := 0
  ksr := 0
  attack := ⟨0, 0⟩
  decay := ⟨0, 0⟩
  release := ⟨0, 0⟩
  totalLevel := 0
  kslShift := 0
  am := false
  attenuation := 0
  phase := 0
  increment := 0
  key := .none
  envelope := .off
  volume := 0
  destination := .phaseModA

/-- Frequency multiples, doubled so that the lowest, one half, is whole. -/
def multiples : List Nat := [1, 2, 4, 6, 8, 10, 12, 14, 16, 18, 20, 20, 24, 24, 30, 30]

/-- Sustain levels in steps of 3 dB, the last one 93 dB. -/
def sustainLevels : List Nat := (List.range 15).map (8 * ·) ++ [248]

/-- Key scaling of 0, 3, 1.5 and 6 dB an octave. The first shifts every level out. -/
def kslShifts : List Nat := [31, 1, 2, 0]

def silentVolume : UInt16 := 511

/-- The attenuation word that synthesis reads: bit 15 carries the tremolo switch. -/
def amAttenuation (o : Operator) : Nat := o.attenuation + 32768 * o.am.toNat

def effectiveWaveform (opl3Mode : Bool) (number : Nat) : Nat :=
  if opl3Mode then number else number % 4

def rescaleRates (o : Operator) (ksr : Nat) : Operator :=
  { o with
    ksr
    attack := .attackOfIndex (o.attackCode + ksr)
    decay := .ofIndex (o.decayCode + ksr)
    release := .ofIndex (o.releaseCode + ksr) }

/-- The phase step of an F-number in a block, in 32 bit arithmetic: the product is doubled
twice and then halved once for each block below the seventh. -/
def phaseStep (multiple : UInt32) (t : Tuning) : UInt32 :=
  ((UInt32.ofNat t.fnum * multiple) <<< 2) >>> UInt32.ofNat (7 - t.block)

def retune (o : Operator) (t : Tuning) : Operator :=
  let tuned := { o with increment := phaseStep o.multiple t }
  let ksr := t.keyCode >>> o.ksrShift
  if o.ksr = ksr then tuned else tuned.rescaleRates ksr

def attenuate (o : Operator) (t : Tuning) : Operator :=
  { o with attenuation := o.totalLevel + t.kslBase >>> o.kslShift }

def follow (o : Operator) (t : Tuning) : Operator := (o.attenuate t).retune t

def setKey (o : Operator) (source : KeySource) (on : Bool) : Operator :=
  let key := o.key.set source on
  if on then
    if o.key.held then { o with key } else { o with key, phase := 0, envelope := .attack }
  else if o.key.held && !key.held then { o with key, envelope := o.envelope.released }
  else { o with key }

def writeTone (o : Operator) (pitchCoef : UInt32) (v : Byte) : Operator :=
  { o with
    multiple := pitchCoef * UInt32.ofNat (multiples.getD v.low 0)
    ksrShift := if v.bit 4 then 0 else 2
    sustained := v.bit 5
    vibrato := v.bit 6
    am := v.bit 7 }

def writeLevel (o : Operator) (v : Byte) : Operator :=
  { o with
    kslShift := kslShifts.getD (v.toNat / 64) 0
    totalLevel := 4 * (v.toNat % 64) }

def writeAttackDecay (o : Operator) (v : Byte) : Operator :=
  { o with
    attackCode := Rate.code v.high
    attack := .attackOfIndex (Rate.code v.high + o.ksr)
    decayCode := Rate.code v.low
    decay := .ofIndex (Rate.code v.low + o.ksr) }

def writeSustainRelease (o : Operator) (v : Byte) : Operator :=
  { o with
    sustainLevel := 2 * sustainLevels.getD v.high 0
    releaseCode := Rate.code v.low
    release := .ofIndex (Rate.code v.low + o.ksr) }

def writeWaveform (o : Operator) (opl3Mode : Bool) (v : Byte) : Operator :=
  { o with
    waveformNumber := v.toNat % 8
    waveform := effectiveWaveform opl3Mode (v.toNat % 8) }

/-- Feedback is kept as the shift it stands for, 8 for the weakest and 2 for the strongest. -/
def writeFeedback (o : Operator) (v : Byte) : Operator :=
  let feedback := v.toNat / 2 % 8
  { o with
    feedback := if feedback = 0 then 0 else 9 - feedback
    connection := v.bit 0 }

def selectWaveform (o : Operator) (opl3Mode : Bool) : Operator :=
  { o with waveform := effectiveWaveform opl3Mode o.waveformNumber }

def silence (o : Operator) : Operator := { o with envelope := .off, volume := silentVolume }

end Operator

end Ymf262
