/-! The pitch of a channel: block and F-number in one thirteen bit word, with the key code and
the key scale level that were taken from it when it last changed. -/
namespace Ymf262

/-- Key scale levels of block 7 by the upper four bits of the F-number. -/
def topKeyScale : List Nat :=
  [0, 96, 128, 148, 160, 172, 180, 188, 192, 200, 204, 208, 212, 216, 220, 224]

/-- The level falls by 32 with each block below the seventh and stops at zero. The index is
the block and the upper four bits of the F-number. -/
def keyScaleLevel (index : Nat) : Nat :=
  topKeyScale.getD (index % 16) 0 - 32 * (7 - index / 16)

def keyScaleLevels : List Nat := (List.range 128).map keyScaleLevel

structure Tuning where
  blockFnum : Nat
  keyCode : Nat
  kslBase : Nat
  deriving DecidableEq

namespace Tuning

def zero : Tuning := ⟨0, 0, 0⟩

/-- Three bits, 0 to 7 in octaves. -/
def block (t : Tuning) : Nat := t.blockFnum / 1024

/-- Ten bits, linear in the frequency. -/
def fnum (t : Tuning) : Nat := t.blockFnum % 1024

/-- Note select takes the lowest bit of the key code from bit 8 of the F-number instead
of bit 9. -/
def codeOf (blockFnum : Nat) (noteSelect : Bool) : Nat :=
  2 * (blockFnum / 1024) + (blockFnum.testBit (if noteSelect then 8 else 9)).toNat

def of (blockFnum : Nat) (noteSelect : Bool) : Tuning :=
  ⟨blockFnum, codeOf blockFnum noteSelect, keyScaleLevel (blockFnum / 64)⟩

def withLow (blockFnum low : Nat) : Nat := blockFnum / 256 * 256 + low

def withHigh (blockFnum high : Nat) : Nat := high % 32 * 256 + blockFnum % 256

end Tuning

end Ymf262
