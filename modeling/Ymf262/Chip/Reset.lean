import Ymf262.Chip.Write

/-! Reset, and access over the bus. A reset clears everything but the settings, writes zero to
every register of both banks, the highest first, so that all derived values are in line, and
silences every operator. On the bus, address line 0 tells data from a register address and
line 1 names the bank. -/
namespace Ymf262.Chip

def downward (first last : Nat) : List UInt16 :=
  ((List.range (last + 1 - first)).map fun i => UInt16.ofNat (first + i)).reverse

def resetWrites : List RegisterWrite :=
  (downward 0x20 0xFF ++ downward 0x120 0x1FF).map fun address => ⟨address, 0⟩

def silence (c : Chip) : Chip := c.mapOperators fun _ o => o.silence

def reset (c : Chip) : Chip :=
  ((zero c.settings).writeAll resetWrites).silence

def fresh (settings : Settings) : Chip := (zero settings).reset

/-- Outside OPL3 mode the second bank stands for the first, except for the register that
turns the mode on. -/
def latch (c : Chip) (second : Bool) (v : Byte) : UInt16 :=
  if second && (c.opl3Mode || v = 0x05) then v.toUInt16 + 0x100 else v.toUInt16

/-- Data goes to the latched address. Lines above the second do not count. -/
def bus (c : Chip) (lines v : Byte) : Chip :=
  if lines.bit 0 then c.write c.address v
  else { c with address := c.latch (lines.bit 1) v }

end Ymf262.Chip
