/-! A register value is one byte. Its fields are single bits and the two nibbles. -/
namespace Ymf262

abbrev Byte := UInt8

def Byte.bit (v : Byte) (i : Nat) : Bool := v.toNat.testBit i

def Byte.low (v : Byte) : Nat := v.toNat % 16

def Byte.high (v : Byte) : Nat := v.toNat / 16

theorem Byte.low_lt (v : Byte) : v.low < 16 := Nat.mod_lt _ (by decide)

theorem Byte.high_lt (v : Byte) : v.high < 16 := by
  have := v.toNat_lt
  unfold Byte.high
  omega

end Ymf262
