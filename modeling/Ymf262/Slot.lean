/-! The 36 operator slots and the 18 channels. Slot 2c is the modulator of channel c and
slot 2c + 1 its carrier. A register bank names half of the slots by a five bit offset: each
group of eight offsets holds three modulators, then their three carriers, then two holes.
`ofOffset?` and `offset` are inverse to each other. -/
namespace Ymf262

def channelCount : Nat := 18
def slotCount : Nat := 36

abbrev ChannelId := Fin 18
abbrev Slot := Fin 36
abbrev Bank := Fin 2

def ChannelId.modulator (c : ChannelId) : Slot := ⟨2 * c.val, by omega⟩
def ChannelId.carrier (c : ChannelId) : Slot := ⟨2 * c.val + 1, by omega⟩

/-- Nine channels to a bank. -/
def ChannelId.ofBank (bank : Bank) (n : Fin 9) : ChannelId := ⟨9 * bank.val + n.val, by omega⟩

namespace Slot

def channel (s : Slot) : ChannelId := ⟨s.val / 2, by omega⟩

/-- 0 for the modulator and 1 for the carrier. -/
def index (s : Slot) : Fin 2 := ⟨s.val % 2, by omega⟩

/-- The slot that the low five bits of an operator register name within a bank. -/
def ofOffset? (offset : Nat) : Option (Fin 18) :=
  let group := offset % 32 / 8
  let place := offset % 8
  if h : group < 3 ∧ place < 6 then
    some ⟨6 * group + 2 * (place % 3) + place / 3, by omega⟩
  else none

def offset (s : Fin 18) : Nat := 8 * (s.val / 6) + 3 * (s.val % 2) + s.val % 6 / 2

def ofBank (bank : Bank) (s : Fin 18) : Slot := ⟨18 * bank.val + s.val, by omega⟩

theorem ofOffset?_offset (s : Fin 18) : ofOffset? (offset s) = some s := by
  revert s; decide

theorem offset_of_ofOffset? {o : Fin 32} {s : Fin 18} (h : ofOffset? o = some s) :
    offset s = o := by
  revert o s; decide

end Slot

@[simp] theorem ChannelId.channel_modulator (c : ChannelId) : c.modulator.channel = c := by
  simp [modulator, Slot.channel]

@[simp] theorem ChannelId.channel_carrier (c : ChannelId) : c.carrier.channel = c := by
  apply Fin.ext; simp only [carrier, Slot.channel]; omega

end Ymf262
