import Ymf262.Chip.Synthesis
import Ymf262.Imf.Replay

/-! A monitor steps through a log some ticks at a time and can start over. -/
namespace Ymf262

structure Monitor where
  replay : Imf.Replay
  /-- Ticks to a step. -/
  step : Nat
  deriving DecidableEq

namespace Monitor
open Imf

def start (records : List Record) (step : Nat) : Monitor :=
  ⟨⟨.start records, .fresh .default⟩, step⟩

def chip (m : Monitor) : Chip := m.replay.chip

def player (m : Monitor) : Player := m.replay.player

def withChip (m : Monitor) (c : Chip) : Monitor := { m with replay := { m.replay with chip := c } }

def advance (m : Monitor) : Monitor := { m with replay := m.replay.advance m.step }

def restart (m : Monitor) : Monitor :=
  { m with replay := ⟨m.player.rewind, m.chip.reset⟩ }

def write (m : Monitor) (w : RegisterWrite) : Monitor :=
  m.withChip (m.chip.write w.address w.value)

def setEnvelope (m : Monitor) (s : Slot) (e : EnvelopePhase) : Monitor :=
  m.withChip (m.chip.setEnvelope s e)

end Monitor

end Ymf262
