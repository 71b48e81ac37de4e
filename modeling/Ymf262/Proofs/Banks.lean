import Ymf262.Proofs.Coherence

/-! The two banks are alike. To exchange them moves every channel by nine places and every slot by
eighteen, and renames the outputs that operators feed. A chip with its banks exchanged derives the
exchanged values, so that a write to the one bank is one to the other; only the rhythm section
lies in the first bank alone. -/
namespace Ymf262

def ChannelId.opposite (ch : ChannelId) : ChannelId := ⟨(ch.val + 9) % 18, Nat.mod_lt _ (by decide)⟩

def Slot.opposite (s : Slot) : Slot := ⟨(s.val + 18) % 36, Nat.mod_lt _ (by decide)⟩

def Pair.opposite (p : Pair) : Pair := ⟨(p.val + 3) % 6, Nat.mod_lt _ (by decide)⟩

def Destination.opposite : Destination → Destination
  | phaseModA => phaseModA
  | phaseModB => phaseModB
  | output n => output ((n + 9) % 18)

@[simp] theorem ChannelId.opposite_opposite (ch : ChannelId) : ch.opposite.opposite = ch := by
  ext
  simp only [opposite]
  omega

@[simp] theorem Slot.opposite_opposite (s : Slot) : s.opposite.opposite = s := by
  ext
  simp only [opposite]
  omega

theorem ChannelId.opposite_inj {a b : ChannelId} : a.opposite = b.opposite ↔ a = b :=
  ⟨fun h => by simpa using congrArg opposite h, congrArg opposite⟩

theorem Slot.opposite_inj {s t : Slot} : s.opposite = t.opposite ↔ s = t :=
  ⟨fun h => by simpa using congrArg opposite h, congrArg opposite⟩

namespace Slot

@[simp] theorem channel_opposite (s : Slot) : s.opposite.channel = s.channel.opposite := by
  ext
  simp only [channel, opposite, ChannelId.opposite]
  omega

@[simp] theorem index_opposite (s : Slot) : s.opposite.index = s.index := by
  ext
  simp only [index, opposite]
  omega

end Slot

@[simp] theorem ChannelId.modulator_opposite (ch : ChannelId) :
    ch.opposite.modulator = ch.modulator.opposite := by
  ext
  simp only [modulator, opposite, Slot.opposite]
  omega

namespace Pair

@[simp] theorem primary_opposite (p : Pair) : p.opposite.primary = p.primary.opposite := by
  revert p
  decide

@[simp] theorem secondary_opposite (p : Pair) : p.opposite.secondary = p.secondary.opposite := by
  revert p
  decide

@[simp] theorem opposite_opposite (p : Pair) : p.opposite.opposite = p := by
  revert p
  decide

theorem containing?_opposite (ch : ChannelId) :
    containing? ch = (containing? ch.opposite).map opposite := by
  revert ch
  decide

theorem startingAt?_opposite (ch : ChannelId) :
    startingAt? ch = (startingAt? ch.opposite).map opposite := by
  revert ch
  decide

end Pair

namespace Destination

theorem twoOp_opposite (ch : ChannelId) (connection : Bool) (i : Fin 2) :
    (twoOp ch connection).get i = ((twoOp ch.opposite connection).get i).opposite := by
  revert ch connection i
  decide

theorem fourOp_opposite (p : Pair) (code i : Fin 4) :
    (fourOp p code).get i = ((fourOp p.opposite code).get i).opposite := by
  revert p code i
  decide

end Destination

def Context.opposite (x : Context) : Context := { x with place := x.place.opposite }

def Operator.opposite (o : Operator) : Operator := { o with destination := o.destination.opposite }

namespace Operator

theorem derive_opposite (o : Operator) (x : Context) :
    (o.derive x).opposite = o.opposite.derive x.opposite := rfl

theorem put_opposite (o : Operator) (kind : OperatorRegister) (k : UInt32) (v : Byte) :
    (o.put kind k v).opposite = o.opposite.put kind k v := by
  cases kind <;> rfl

theorem setKey_opposite (o : Operator) (source : KeySource) (on : Bool) :
    (o.setKey source on).opposite = o.opposite.setKey source on := by
  rw [setKey_eq, setKey_eq]
  rfl

theorem writeFeedback_opposite (o : Operator) (v : Byte) :
    (o.writeFeedback v).opposite = o.opposite.writeFeedback v := rfl

end Operator

namespace Register

def opposite : Register → Register
  | operator kind s => operator kind s.opposite
  | channel kind ch => channel kind ch.opposite
  | r => r

@[simp] theorem opposite_opposite (r : Register) : r.opposite.opposite = r := by
  cases r <;> simp [opposite]

theorem opposite_eq_iff {r q : Register} : r.opposite = q ↔ r = q.opposite :=
  ⟨fun h => by simp [← h], fun h => by simp [h]⟩

theorem ofAddress?_second_bank {a : UInt16} (low : 0x20 ≤ a.toNat) (high : a.toNat ≤ 0xFF)
    (rhythm : a ≠ 0xBD) :
    ofAddress? (a + 0x100) = (ofAddress? a).map opposite ∧
      ∀ r ∈ ofAddress? a, r ≠ .rhythm ∧ r ≠ .fourOpEnable := by
  have all : ∀ n : Fin 0x100, 0x20 ≤ n.val → UInt16.ofNat n ≠ 0xBD →
      ofAddress? (.ofNat n + 0x100) = (ofAddress? (.ofNat n)).map opposite ∧
        ∀ r ∈ ofAddress? (.ofNat n), r ≠ .rhythm ∧ r ≠ .fourOpEnable := by
    decide +kernel
  simpa using all ⟨a.toNat, Nat.lt_succ_of_le high⟩ low (by simpa using rhythm)

end Register

namespace Chip

/-- What belongs to neither bank stays in place. -/
def swapBanks (c : Chip) : Chip :=
  { c with
    operators := .ofFn fun s : Slot => (c.operator s.opposite).opposite
    channels := .ofFn fun ch : ChannelId => c.channel ch.opposite
    pans := .ofFn fun ch : ChannelId => c.pan ch.opposite }

variable {c : Chip} {r : Register}

@[simp] theorem operator_swapBanks (s : Slot) :
    c.swapBanks.operator s = (c.operator s.opposite).opposite := by
  simp [operator, swapBanks]

@[simp] theorem channel_swapBanks (ch : ChannelId) :
    c.swapBanks.channel ch = c.channel ch.opposite := by
  simp [channel, swapBanks]

@[simp] theorem pan_swapBanks (ch : ChannelId) : c.swapBanks.pan ch = c.pan ch.opposite := by
  simp [pan, swapBanks]

@[simp] theorem tuning_swapBanks (ch : ChannelId) :
    c.swapBanks.tuning ch = c.tuning ch.opposite := by
  rw [tuning, channel_swapBanks, tuning]

@[simp] theorem connection_swapBanks (ch : ChannelId) :
    c.swapBanks.connection ch = c.connection ch.opposite := by
  rw [connection, operator_swapBanks, connection, ChannelId.modulator_opposite]
  rfl

@[simp] theorem globals_swapBanks : c.swapBanks.globals = c.globals := by
  simp only [globals, swapBanks]

@[simp] theorem opl3Mode_swapBanks : c.swapBanks.opl3Mode = c.opl3Mode := by
  simp only [swapBanks]

@[simp] theorem settings_swapBanks : c.swapBanks.settings = c.settings := by
  simp only [swapBanks]

@[simp] theorem noteSelect_swapBanks : c.swapBanks.noteSelect = c.noteSelect := by
  simp only [noteSelect, swapBanks]

@[simp] theorem panOf_swapBanks (v : Byte) : c.swapBanks.panOf v = c.panOf v := by
  rw [panOf, panOf, opl3Mode_swapBanks]

/-! Voices -/

theorem joined_swapBanks (p : Pair) : c.swapBanks.joined p = c.joined p.opposite := by
  rw [joined, joined, opl3Mode_swapBanks, channel_swapBanks, Pair.primary_opposite]

theorem activePair?_swapBanks (ch : ChannelId) :
    c.swapBanks.activePair? ch = (c.activePair? ch.opposite).map Pair.opposite := by
  rw [activePair?, activePair?, Pair.containing?_opposite]
  cases Pair.containing? ch.opposite with
  | none => rfl
  | some p =>
    simp only [Option.map_some, Option.filter_some, joined_swapBanks, Pair.opposite_opposite]
    cases c.joined p <;> rfl

theorem leader_swapBanks (ch : ChannelId) :
    c.swapBanks.leader ch = (c.leader ch.opposite).opposite := by
  rw [leader, leader, activePair?_swapBanks]
  cases c.activePair? ch.opposite with
  | none => simp
  | some p => simp

theorem pitch_swapBanks (ch : ChannelId) : c.swapBanks.pitch ch = c.pitch ch.opposite := by
  rw [pitch, pitch, leader_swapBanks, tuning_swapBanks, ChannelId.opposite_opposite]

theorem connectionCode_swapBanks (p : Pair) :
    c.swapBanks.connectionCode p = c.connectionCode p.opposite := by
  simp only [connectionCode, connection_swapBanks, Pair.primary_opposite, Pair.secondary_opposite]

theorem route_swapBanks (s : Slot) : c.swapBanks.route s = (c.route s.opposite).opposite := by
  have channel : s.opposite.channel = s.channel.opposite := Slot.channel_opposite s
  cases active : c.activePair? s.channel.opposite with
  | none =>
    have alone : c.swapBanks.activePair? s.channel = none := by
      rw [activePair?_swapBanks, active, Option.map_none]
    rw [route_of_alone alone, route_of_alone (channel ▸ active), Destination.twoOp_opposite,
      connection_swapBanks, channel, Slot.index_opposite]
  | some p =>
    obtain ⟨joined, half⟩ := activePair?_eq_some_iff.mp active
    have both : c.swapBanks.joined p.opposite := by
      rwa [joined_swapBanks, Pair.opposite_opposite]
    rcases half with first | second
    · have place : s.channel = p.opposite.primary := by
        rw [Pair.primary_opposite, ← first, ChannelId.opposite_opposite]
      rw [route_of_primary both place, route_of_primary joined (channel.trans first),
        Destination.fourOp_opposite, connectionCode_swapBanks, Pair.opposite_opposite,
        Slot.index_opposite]
    · have place : s.channel = p.opposite.secondary := by
        rw [Pair.secondary_opposite, ← second, ChannelId.opposite_opposite]
      rw [route_of_secondary both place, route_of_secondary joined (channel.trans second),
        Destination.fourOp_opposite, connectionCode_swapBanks, Pair.opposite_opposite,
        Slot.index_opposite]

theorem context_swapBanks (s : Slot) : c.swapBanks.context s = (c.context s.opposite).opposite := by
  rw [context, context, opl3Mode_swapBanks, pitch_swapBanks, route_swapBanks,
    Slot.channel_opposite]
  rfl

theorem swapBanks_rederive : c.rederive.swapBanks = c.swapBanks.rederive := by
  apply eq_of_fields
  · intro s
    rw [operator_swapBanks, operator_rederive, operator_rederive, operator_swapBanks,
      context_swapBanks, Operator.derive_opposite]
  · intro ch
    rw [channel_swapBanks, channel_rederive, channel_rederive, channel_swapBanks]
  · intro ch
    rw [pan_swapBanks, rederive, rederive, pan_mapOperators, pan_mapOperators, pan_swapBanks]
  · rw [globals_swapBanks, rederive, rederive, globals_mapOperators, globals_mapOperators,
      globals_swapBanks]

/-! Stores -/

theorem leads_swapBanks (ch : ChannelId) (s : Slot) :
    c.swapBanks.leads ch s = c.leads ch.opposite s.opposite := by
  rw [leads, leads, leader_swapBanks, Slot.channel_opposite]
  simp only [decide_eq_decide]
  exact ⟨fun h => by simp [← h], fun h => by simp [h]⟩

theorem putOperator_swapBanks (rhythm : r ≠ .rhythm) (v : Byte) (s : Slot) (o : Operator) :
    (c.putOperator r.opposite v s.opposite o).opposite =
      c.swapBanks.putOperator r v s o.opposite := by
  cases r with
  | rhythm => exact absurd rfl rhythm
  | operator kind t =>
    simp only [putOperator, Register.opposite, Slot.opposite_inj, settings_swapBanks]
    split
    · exact Operator.put_opposite ..
    · rfl
  | channel kind ch =>
    cases kind with
    | fnumLow => rfl
    | keyBlock =>
      simp only [putOperator, Register.opposite, leads_swapBanks]
      split
      · exact Operator.setKey_opposite ..
      · rfl
    | connection =>
      simp only [putOperator, Register.opposite, ChannelId.modulator_opposite, Slot.opposite_inj]
      split
      · exact Operator.writeFeedback_opposite ..
      · rfl
  | _ => rfl

theorem putTuning_swapBanks (v : Byte) (ch : ChannelId) (t : Tuning) :
    c.putTuning r.opposite v ch.opposite t = c.swapBanks.putTuning r v ch t := by
  cases r with
  | channel kind d =>
    cases kind <;>
      simp only [putTuning, Register.opposite, ChannelId.opposite_inj, noteSelect_swapBanks]
  | _ => simp only [putTuning, Register.opposite]

theorem putPan_swapBanks (v : Byte) (ch : ChannelId) (p : Pan) :
    c.putPan r.opposite v ch.opposite p = c.swapBanks.putPan r v ch p := by
  have own : r.opposite = .channel .connection ch.opposite ↔ r = .channel .connection ch := by
    rw [Register.opposite_eq_iff]
    simp [Register.opposite]
  simp only [putPan, panOf_swapBanks, own]

theorem putMark_opposite {v w : Byte} (marks : ∀ p : Pair, w.bit p = v.bit p.opposite)
    (ch : ChannelId) (extended : Bool) :
    putMark .fourOpEnable v ch.opposite extended = putMark .fourOpEnable w ch extended := by
  rw [putMark, putMark, Pair.startingAt?_opposite ch]
  cases Pair.startingAt? ch.opposite with
  | none => rfl
  | some p => simp [marks]

theorem put_swapBanks (rhythm : r ≠ .rhythm) (marks : r ≠ .fourOpEnable) (v : Byte) :
    (c.put r.opposite v).swapBanks = c.swapBanks.put r v := by
  have unmarked : r.opposite ≠ .fourOpEnable := fun h => marks (Register.opposite_eq_iff.mp h)
  apply eq_of_fields
  · intro s
    rw [operator_swapBanks, operator_put, operator_put, operator_swapBanks,
      putOperator_swapBanks rhythm]
  · intro ch
    rw [channel_swapBanks, channel_put, channel_put, channel_swapBanks, tuning_swapBanks,
      putTuning_swapBanks, putMark, putMark, if_neg unmarked, if_neg marks]
  · intro ch
    rw [pan_swapBanks, pan_put, pan_put, pan_swapBanks, putPan_swapBanks]
  · rw [globals_swapBanks]
    cases r <;> simp [globals, put, swapBanks, Register.opposite]

theorem put_fourOpEnable_swapBanks {v w : Byte} (marks : ∀ p : Pair, w.bit p = v.bit p.opposite) :
    (c.put .fourOpEnable v).swapBanks = c.swapBanks.put .fourOpEnable w := by
  apply eq_of_fields
  · intro s
    rw [operator_swapBanks, operator_put, operator_put, operator_swapBanks]
    rfl
  · intro ch
    rw [channel_swapBanks, channel_put, channel_put, channel_swapBanks, putMark_opposite marks]
    simp only [putTuning, tuning_swapBanks]
  · intro ch
    rw [pan_swapBanks, pan_put, pan_put, pan_swapBanks, putPan, putPan, if_neg (by simp),
      if_neg (by simp)]
  · rw [globals_swapBanks]
    simp [globals, put, swapBanks]

theorem coherent_swapBanks (h : c.Coherent) : c.swapBanks.Coherent := by
  intro s
  rw [context_swapBanks, operator_swapBanks, ← Operator.derive_opposite, h]

theorem store_swapBanks (h : c.Coherent) (rhythm : r ≠ .rhythm) (marks : r ≠ .fourOpEnable)
    (v : Byte) : (c.store r.opposite v).swapBanks = c.swapBanks.store r v := by
  rw [store_eq h, store_eq (coherent_swapBanks h), swapBanks_rederive, put_swapBanks rhythm marks]

theorem store_fourOpEnable_swapBanks (h : c.Coherent) {v w : Byte}
    (marks : ∀ p : Pair, w.bit p = v.bit p.opposite) :
    (c.store .fourOpEnable v).swapBanks = c.swapBanks.store .fourOpEnable w := by
  rw [store_eq h, store_eq (coherent_swapBanks h), swapBanks_rederive,
    put_fourOpEnable_swapBanks marks]

theorem write_swapBanks (h : c.Coherent) {a : UInt16} (low : 0x20 ≤ a.toNat)
    (high : a.toNat ≤ 0xFF) (rhythm : a ≠ 0xBD) (v : Byte) :
    (c.write a v).swapBanks = c.swapBanks.write (a + 0x100) v ∧
      (c.write (a + 0x100) v).swapBanks = c.swapBanks.write a v := by
  obtain ⟨second, banked⟩ := Register.ofAddress?_second_bank low high rhythm
  cases named : Register.ofAddress? a with
  | none =>
    rw [named, Option.map_none] at second
    simp only [write, named, second, and_self]
  | some r =>
    obtain ⟨shared, marks⟩ := banked r named
    rw [named, Option.map_some] at second
    simp only [write, named, second]
    refine ⟨?_, store_swapBanks h shared marks v⟩
    -- The register of the second bank is banked as well, and its opposite is `r`.
    have shared' : r.opposite ≠ .rhythm := fun e => shared (Register.opposite_eq_iff.mp e)
    have marks' : r.opposite ≠ .fourOpEnable := fun e => marks (Register.opposite_eq_iff.mp e)
    simpa only [Register.opposite_opposite] using store_swapBanks h shared' marks' v

/-- After every run a write to a register that both banks have is one to its opposite on the chip
with its banks exchanged. The mode and note select belong to neither bank, and the marks of the
pairs exchange with the halves of their register. -/
theorem banks_alike_run (settings : Settings) (actions : List Action) (v : Byte) :
    let c := (fresh settings).run actions
    (∀ a : UInt16, 0x20 ≤ a.toNat → a.toNat ≤ 0xFF → a ≠ 0xBD →
      (c.write a v).swapBanks = c.swapBanks.write (a + 0x100) v ∧
        (c.write (a + 0x100) v).swapBanks = c.swapBanks.write a v) ∧
    (c.write 0x105 v).swapBanks = c.swapBanks.write 0x105 v ∧
    (c.write 0x08 v).swapBanks = c.swapBanks.write 0x08 v ∧
    ∀ w : Byte, (∀ i < 3, w.bit i = v.bit (i + 3) ∧ w.bit (i + 3) = v.bit i) →
      (c.write 0x104 v).swapBanks = c.swapBanks.write 0x104 w := by
  intro c
  have coherent : c.Coherent := coherent_run settings actions
  refine ⟨fun a low high rhythm => write_swapBanks coherent low high rhythm v, ?_, ?_, ?_⟩
  · have named : Register.ofAddress? 0x105 = some .opl3Enable := rfl
    rw [write_of_some named, write_of_some named]
    exact store_swapBanks (r := .opl3Enable) coherent (by simp) (by simp) v
  · have named : Register.ofAddress? 0x08 = some .noteSelect := rfl
    rw [write_of_some named, write_of_some named]
    exact store_swapBanks (r := .noteSelect) coherent (by simp) (by simp) v
  · intro w exchanged
    have named : Register.ofAddress? 0x104 = some .fourOpEnable := rfl
    rw [write_of_some named, write_of_some named]
    apply store_fourOpEnable_swapBanks coherent
    intro p
    by_cases first : p.val < 3
    · have place : p.opposite.val = p.val + 3 := Nat.mod_eq_of_lt (by omega)
      rw [place, (exchanged p first).1]
    · obtain ⟨i, hi⟩ : ∃ i, p.val = i + 3 := ⟨p.val - 3, by omega⟩
      have place : p.opposite.val = i := by
        simp only [Pair.opposite, hi]
        omega
      rw [place, hi, (exchanged i (by omega)).2]

/-- The secondary of a joined pair, and the marks of three pairs of the one bank and one of the
other. -/
theorem banks_alike_joined :
    let c := (fresh .default).run [.write ⟨0x105, 1⟩, .write ⟨0x104, 0x09⟩, .write ⟨0xB0, 0x31⟩]
    (c.write 0xC3 0x31).swapBanks = c.swapBanks.write (0xC3 + 0x100) 0x31 ∧
      (c.write 0x104 0x0F).swapBanks = c.swapBanks.write 0x104 0x39 := by
  intro c
  obtain ⟨banked, -⟩ := banks_alike_run .default
    [.write ⟨0x105, 1⟩, .write ⟨0x104, 0x09⟩, .write ⟨0xB0, 0x31⟩] 0x31
  obtain ⟨-, -, -, marks⟩ := banks_alike_run .default
    [.write ⟨0x105, 1⟩, .write ⟨0x104, 0x09⟩, .write ⟨0xB0, 0x31⟩] 0x0F
  exact ⟨(banked 0xC3 (by decide) (by decide) (by decide)).1, marks 0x39 (by decide)⟩

end Chip

end Ymf262
