import Ymf262.Chip.Basic

/-! What the synthesis stage changes between writes: phase, envelope and volume of an
operator, and the sums that operators add their samples to. -/
namespace Ymf262.Chip

def setPhase (c : Chip) (s : Slot) (phase : UInt32) : Chip :=
  c.modifyOperator s fun o => { o with phase }

def setEnvelope (c : Chip) (s : Slot) (envelope : EnvelopePhase) : Chip :=
  c.modifyOperator s fun o => { o with envelope }

def setVolume (c : Chip) (s : Slot) (volume : UInt16) : Chip :=
  c.modifyOperator s fun o => { o with volume }

/-- None for the output of a channel that the chip does not have. -/
def accumulator? (c : Chip) : Destination → Option Int32
  | .phaseModA => some c.phaseModA
  | .phaseModB => some c.phaseModB
  | .output n => c.channels[n]?.map Channel.output

def setAccumulator? (c : Chip) (d : Destination) (v : Int32) : Option Chip :=
  match d with
  | .phaseModA => some { c with phaseModA := v }
  | .phaseModB => some { c with phaseModB := v }
  | .output n =>
    if h : n < 18 then
      some { c with channels := c.channels.set n { c.channels[n] with output := v } }
    else none

def clearAccumulators (c : Chip) : Chip :=
  { c with
    phaseModA := 0
    phaseModB := 0
    channels := c.channels.map fun ch => { ch with output := 0 } }

end Ymf262.Chip
