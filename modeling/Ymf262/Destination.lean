import Ymf262.Pair

/-! Where an operator adds its sample: one of the two phase modulation sums, or the output
sum of a channel. `twoOp` and `fourOp` are the signal graphs of a lone channel and of a
joined pair. -/
namespace Ymf262

inductive Destination where
  | phaseModA
  | phaseModB
  | output (channel : Nat)
  deriving DecidableEq

namespace Destination

/-- The modulator and the carrier of a lone channel: in series, or side by side when the
connection bit is set. -/
def twoOp (channel : Nat) (connection : Bool) : Vector Destination 2 :=
  #v[if connection then output channel else phaseModA, output channel]

def connectionCode (primary secondary : Bool) : Fin 4 :=
  match primary, secondary with
  | false, false => 0
  | false, true => 1
  | true, false => 2
  | true, true => 3

/-- The primary's two operators and then the secondary's: all in series, two series pairs
side by side, one operator beside a series of three, or a series pair between two lone
operators. -/
def fourOp (p : Pair) (code : Fin 4) : Vector Destination 4 :=
  let first := output p.primary
  let second := output p.secondary
  match code with
  | 0 => #v[phaseModA, phaseModB, phaseModA, second]
  | 1 => #v[phaseModA, first, phaseModA, second]
  | 2 => #v[first, phaseModB, phaseModA, second]
  | 3 => #v[first, phaseModB, second, second]

def text : Destination → String
  | phaseModA => "PhaseModA"
  | phaseModB => "PhaseModB"
  | output n => "ChannelOutput(" ++ toString n ++ ")"

end Destination

end Ymf262
