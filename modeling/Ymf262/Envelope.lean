/-! The stage an operator's envelope is in, ordered by loudness. Releasing a key moves a stage
above release down to release and leaves the others. -/
namespace Ymf262

inductive EnvelopePhase where
  | off
  | release
  | sustain
  | decay
  | attack
  deriving DecidableEq

namespace EnvelopePhase

def level : EnvelopePhase → Nat
  | off => 0
  | release => 1
  | sustain => 2
  | decay => 3
  | attack => 4

def all : List EnvelopePhase := [off, release, sustain, decay, attack]

def text : EnvelopePhase → String
  | off => "OFF"
  | release => "RELEASE"
  | sustain => "SUSTAIN"
  | decay => "DECAY"
  | attack => "ATTACK"

def ofText? (s : String) : Option EnvelopePhase := all.find? (·.text = s)

/-- The stage after the last key is let go. -/
def released (e : EnvelopePhase) : EnvelopePhase :=
  if release.level < e.level then release else e

def sort (es : List EnvelopePhase) : List EnvelopePhase :=
  es.mergeSort fun a b => a.level ≤ b.level

theorem level_injective {a b : EnvelopePhase} (h : a.level = b.level) : a = b := by
  cases a <;> cases b <;> first | rfl | cases h

theorem level_released (e : EnvelopePhase) :
    e.released.level = min release.level e.level := by
  cases e <;> rfl

theorem ofText?_text (e : EnvelopePhase) : ofText? e.text = some e := by
  cases e <;> decide

end EnvelopePhase

end Ymf262
