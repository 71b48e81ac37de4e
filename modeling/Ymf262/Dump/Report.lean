import Ymf262.Chip.Voice
import Ymf262.Text.Numeral

/-! The dump of a chip: one line for its modes, then a line for each shown channel followed by
one for each of its two operators. Numbers stand to the right of their columns. -/
namespace Ymf262.Dump
open Text

def modeLine (c : Chip) : String :=
  "OPL3 " ++ onOff c.opl3Mode ++ " rhythm " ++ onOff c.rhythmMode ++
    " AM depth " ++ (if c.amDepth then "4.8dB" else "1dB") ++
    " vibrato depth " ++ (if c.vibratoDepth then "14c" else "7c") ++
    " NTS " ++ onOff c.noteSelect

def number (width n : Nat) : String := right width (decimal n)

def pairText (c : Chip) (ch : ChannelId) : String :=
  match c.activePair? ch with
  | some p => " 4-op " ++ decimal p.primary.val ++ "/" ++ decimal p.secondary.val
  | none => ""

def channelLine (c : Chip) (ch : ChannelId) : String :=
  let t := c.tuning ch
  "ch " ++ number 2 ch.val ++ " block " ++ decimal t.block ++ " fnum " ++ right 3 (hex 0 t.fnum) ++
    " kc " ++ number 2 t.keyCode ++ " pan " ++ (if (c.pan ch).left then "L" else "-") ++
    (if (c.pan ch).right then "R" else "-") ++ pairText c ch

def operatorLine (c : Chip) (s : Slot) : String :=
  let o := c.operator s
  "    op " ++ number 2 s.val ++ " key " ++ binary 2 o.key.mask ++ " " ++ left 7 o.envelope.text ++
    " vol " ++ number 3 o.volume.toNat ++ " inc " ++ number 6 o.increment.toNat ++
    " mul " ++ number 5 o.multiple.toNat ++ " ar " ++ number 3 o.attackCode ++
    " dr " ++ number 3 o.decayCode ++ " sl " ++ number 3 o.sustainLevel ++
    " rr " ++ number 3 o.releaseCode ++ " att " ++ number 3 o.attenuation ++
    (if o.am then " AM" else "") ++ " wave " ++ decimal o.waveform ++
    " fb " ++ decimal o.feedback ++ " -> " ++ o.destination.text

def channelLines (c : Chip) (ch : ChannelId) : List String :=
  [channelLine c ch, operatorLine c ch.modulator, operatorLine c ch.carrier]

/-- Channels without a held key are left out unless all are asked for. -/
def report (c : Chip) (all : Bool) : List String :=
  modeLine c :: ((List.finRange 18).filter fun ch => all || c.keyed ch).flatMap (channelLines c)

end Ymf262.Dump
