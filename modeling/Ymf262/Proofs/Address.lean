import Mathlib.Logic.ExistsUnique
import Ymf262.Register

/-! The address of a register. Every register has one address of its own; a few addresses
above 0x100 or in the connection group are second names, and `canonical` takes them to the
first. Below 0x200 two addresses decode alike exactly when their canonical addresses agree. -/
namespace Ymf262

namespace Slot

def bank (s : Slot) : Bank := ⟨s.val / 18, by omega⟩

def inBank (s : Slot) : Fin 18 := ⟨s.val % 18, by omega⟩

@[simp] theorem bank_ofBank (bank : Bank) (t : Fin 18) : (ofBank bank t).bank = bank := by
  ext
  simp only [Slot.bank, ofBank]
  omega

@[simp] theorem inBank_ofBank (bank : Bank) (t : Fin 18) : (ofBank bank t).inBank = t := by
  ext
  simp only [inBank, ofBank]
  omega

theorem ofBank_inBank (s : Slot) : ofBank s.bank s.inBank = s := by
  ext
  simp only [ofBank, bank, inBank]
  omega

theorem offset_lt (t : Fin 18) : offset t < 32 := by
  simp only [offset]
  omega

theorem place_unique (s : Slot) :
    ∃! place : Bank × Fin 32, (ofOffset? place.2).map (ofBank place.1) = some s := by
  refine ⟨(s.bank, ⟨offset s.inBank, offset_lt _⟩), ?_, ?_⟩
  · simp only [ofOffset?_offset, Option.map_some, ofBank_inBank]
  · rintro ⟨bank, o⟩ named
    obtain ⟨t, place, rfl⟩ := Option.map_eq_some_iff.mp named
    rw [bank_ofBank, inBank_ofBank]
    exact Prod.ext rfl (Fin.ext (offset_of_ofOffset? place).symm)

end Slot

namespace ChannelId

def bank (ch : ChannelId) : Bank := ⟨ch.val / 9, by omega⟩

def inBank (ch : ChannelId) : Fin 9 := ⟨ch.val % 9, by omega⟩

@[simp] theorem bank_ofBank (bank : Bank) (n : Fin 9) : (ofBank bank n).bank = bank := by
  ext
  simp only [ChannelId.bank, ofBank]
  omega

@[simp] theorem inBank_ofBank (bank : Bank) (n : Fin 9) : (ofBank bank n).inBank = n := by
  ext
  simp only [inBank, ofBank]
  omega

end ChannelId

def OperatorRegister.base : OperatorRegister → Nat
  | tone => 0x20
  | level => 0x40
  | attackDecay => 0x60
  | sustainRelease => 0x80
  | waveform => 0xE0

def ChannelRegister.base : ChannelRegister → Nat
  | fnumLow => 0xA0
  | keyBlock => 0xB0
  | connection => 0xC0

def Bank.address (bank : Bank) (low : Nat) : UInt16 := .ofNat (256 * bank.val + low)

namespace Register

def address : Register → UInt16
  | noteSelect => 0x08
  | operator kind s => s.bank.address (kind.base + Slot.offset s.inBank)
  | channel kind ch => ch.bank.address (kind.base + ch.inBank)
  | rhythm => 0xBD
  | fourOpEnable => 0x104
  | opl3Enable => 0x105

theorem ofAddress?_address (r : Register) : ofAddress? r.address = some r := by
  cases r with
  | operator kind s => revert s; cases kind <;> decide
  | channel kind ch => revert ch; cases kind <;> decide
  | _ => rfl

theorem address_operator (kind : OperatorRegister) (bank : Bank) {o : Fin 32} {t : Fin 18}
    (place : Slot.ofOffset? o = some t) :
    (operator kind (.ofBank bank t)).address = bank.address (kind.base + o) := by
  rw [address, Slot.bank_ofBank, Slot.inBank_ofBank, Slot.offset_of_ofOffset? place]

theorem address_channel (kind : ChannelRegister) (bank : Bank) (n : Fin 9) :
    (channel kind (.ofBank bank n)).address = bank.address (kind.base + n) := by
  rw [address, ChannelId.bank_ofBank, ChannelId.inBank_ofBank]

theorem toNat_address_channel (kind : ChannelRegister) (ch : ChannelId) :
    (channel kind ch).address.toNat = 256 * ch.bank.val + (kind.base + ch.inBank) := by
  revert ch
  cases kind <;> decide

theorem address_lt (r : Register) : r.address.toNat < 0x200 := by
  cases r with
  | operator kind s => revert s; cases kind <;> decide
  | channel kind ch => revert ch; cases kind <;> decide
  | _ => decide

/-- The connection registers answer sixteen addresses higher, too, and note select in
both banks. -/
def canonical (address : UInt16) : UInt16 :=
  if 0xD0 ≤ address.toNat % 256 ∧ address.toNat % 256 ≤ 0xD8 then address - 0x10
  else if address = 0x108 then 0x08
  else address

theorem canonical_of_ofAddress? {a : UInt16} (bound : a.toNat < 0x200) {r : Register}
    (h : ofAddress? a = some r) : canonical a = r.address := by
  have all : ∀ n : Fin 0x200, ∀ r ∈ ofAddress? (.ofNat n), canonical (.ofNat n) = r.address := by
    decide +kernel
  simpa using all ⟨a.toNat, bound⟩ r (by simpa using h)

theorem canonical_address (r : Register) : canonical r.address = r.address :=
  canonical_of_ofAddress? r.address_lt r.ofAddress?_address

theorem ofAddress?_canonical {a : UInt16} (bound : a.toNat < 0x200) :
    ofAddress? (canonical a) = ofAddress? a := by
  have all : ∀ n : Fin 0x200, ofAddress? (canonical (.ofNat n)) = ofAddress? (.ofNat n) := by
    decide +kernel
  simpa using all ⟨a.toNat, bound⟩

theorem canonical_eq_address_iff {a : UInt16} (bound : a.toNat < 0x200) {r : Register} :
    canonical a = r.address ↔ ofAddress? a = some r := by
  refine ⟨fun h => ?_, canonical_of_ofAddress? bound⟩
  rw [← ofAddress?_canonical bound, h, ofAddress?_address]

/-- Registers other than note select and the connections have a single address. -/
theorem ofAddress?_eq_iff {a : UInt16} (bound : a.toNat < 0x200) {r : Register}
    (noteSelect : r ≠ .noteSelect) (connection : ∀ ch, r ≠ .channel .connection ch) :
    ofAddress? a = some r ↔ a = r.address := by
  have all : ∀ n : Fin 0x200, ∀ r ∈ ofAddress? (.ofNat n), r ≠ .noteSelect →
      (∀ ch, r ≠ .channel .connection ch) → .ofNat n = r.address := by
    decide +kernel
  constructor
  · intro h
    simpa using all ⟨a.toNat, bound⟩ r (by simpa using h) noteSelect connection
  · rintro rfl
    exact ofAddress?_address r

end Register

end Ymf262
