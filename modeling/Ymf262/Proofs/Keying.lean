import Ymf262.Proofs.Address
import Ymf262.Proofs.History

/-! Which operators are keyed. The two sources of a key are apart: the note of an operator is the
key bit of the last write that reached its channel, and its rhythm key that of its instrument in
the last write to the rhythm register. A write reaches a channel through the leader that the
channel had then, so joining and splitting pairs neither keys nor releases anything. -/
namespace Ymf262

namespace ChannelId

def keyAddress (ch : ChannelId) : UInt16 := ch.bank.address (0xB0 + ch.inBank)

end ChannelId

namespace Met

/-- A write that keys the note of a channel or lets it go: to the channel itself, unless it was
the second half of a joined pair, or to the primary while the pair was joined. -/
def KeysNote (ch : ChannelId) (m : Met) : Prop :=
  m.write.address = ch.keyAddress ∧ (∀ p, m.chip.joined p → ch ≠ p.secondary) ∨
  ∃ p, m.chip.joined p ∧ (ch = p.primary ∨ ch = p.secondary) ∧
    m.write.address = p.primary.keyAddress

instance (ch : ChannelId) : DecidablePred (KeysNote ch) :=
  fun _ => inferInstanceAs (Decidable (_ ∨ _))

def KeysRhythm (m : Met) : Prop := m.write.address = 0xBD

instance : DecidablePred KeysRhythm := fun _ => inferInstanceAs (Decidable (_ = _))

theorem keysNote_iff (ch : ChannelId) (m : Met) :
    m.KeysNote ch ↔ m.write.address = (m.chip.leader ch).keyAddress := by
  cases active : m.chip.activePair? ch with
  | none =>
    have outside (p : Pair) (joined : m.chip.joined p) :
        ¬ (ch = p.primary ∨ ch = p.secondary) := by
      intro place
      rw [Chip.activePair?_eq_some_iff.mpr ⟨joined, place⟩] at active
      cases active
    rw [Chip.leader_of_none active]
    constructor
    · rintro (⟨own, -⟩ | ⟨p, joined, place, -⟩)
      · exact own
      · exact (outside p joined place).elim
    · exact fun own => .inl ⟨own, fun p joined second => outside p joined (.inr second)⟩
  | some p =>
    obtain ⟨joined, place⟩ := Chip.activePair?_eq_some_iff.mp active
    rw [Chip.leader_of_some active]
    constructor
    · rintro (⟨own, first⟩ | ⟨q, other, same, primary⟩)
      · rw [own, place.resolve_right (first p joined)]
      · rw [Chip.activePair?_eq_some_iff.mpr ⟨other, same⟩, Option.some.injEq] at active
        exact active ▸ primary
    · exact fun primary => .inr ⟨p, joined, place, primary⟩

/-- The register that a write to the key register of a leader comes down to. -/
def KeysLed (ch : ChannelId) (m : Met) : Prop :=
  Register.ofAddress? m.write.address = some (.channel .keyBlock (m.chip.leader ch))

instance (ch : ChannelId) : DecidablePred (KeysLed ch) :=
  fun _ => inferInstanceAs (Decidable (_ = _))

def StoresRhythm (m : Met) : Prop := Register.ofAddress? m.write.address = some .rhythm

instance : DecidablePred StoresRhythm := fun _ => inferInstanceAs (Decidable (_ = _))

end Met

namespace Keys

theorem testBit_mask_zero (k : Keys) : k.mask.testBit 0 = k.note := by
  obtain ⟨_ | _, _ | _⟩ := k <;> rfl

theorem testBit_mask_one (k : Keys) : k.mask.testBit 1 = k.rhythm := by
  obtain ⟨_ | _, _ | _⟩ := k <;> rfl

theorem testBit_mask_of_le (k : Keys) {i : Nat} (h : 2 ≤ i) : k.mask.testBit i = false := by
  have bound : k.mask < 2 ^ 2 := by
    obtain ⟨_ | _, _ | _⟩ := k <;> decide
  exact Nat.testBit_lt_two_pow (Nat.lt_of_lt_of_le bound (Nat.pow_le_pow_right (by decide) h))

end Keys

namespace Operator

@[simp] theorem key_put (o : Operator) (kind : OperatorRegister) (k : UInt32) (v : Byte) :
    (o.put kind k v).key = o.key := by
  cases kind <;> rfl

@[simp] theorem key_setKey (o : Operator) (source : KeySource) (on : Bool) :
    (o.setKey source on).key = o.key.set source on := by
  rw [setKey_eq]

end Operator

namespace Chip

variable {c : Chip} {settings : Settings}

theorem key_putOperator (r : Register) (v : Byte) (s : Slot) (o : Operator) :
    (c.putOperator r v s o).key =
      { note := if r = .channel .keyBlock (c.leader s.channel) then v.bit 5 else o.key.note
        rhythm :=
          if r = .rhythm then (rhythmBit? s).elim o.key.rhythm fun i => v.bit 5 && v.bit i
          else o.key.rhythm } := by
  cases r with
  | operator kind t =>
    rw [if_neg (by simp), if_neg (by simp), putOperator]
    split
    · rw [Operator.key_put]
    · rfl
  | channel kind ch =>
    rw [if_neg (show Register.channel kind ch ≠ .rhythm by simp)]
    cases kind with
    | fnumLow =>
      rw [if_neg (by simp)]
      simp only [putOperator]
    | keyBlock =>
      simp only [putOperator, leads, Register.channel.injEq, true_and, decide_eq_true_eq,
        eq_comm (a := ch)]
      split
      · rw [Operator.key_setKey]
        rfl
      · rfl
    | connection =>
      rw [if_neg (by simp), putOperator]
      split <;> rfl
  | rhythm =>
    rw [if_neg (by simp), if_pos rfl, putOperator]
    cases rhythmBit? s with
    | none => rfl
    | some i =>
      simp only [Operator.key_setKey]
      rfl
  | _ =>
    rw [if_neg (by simp), if_neg (by simp)]
    simp only [putOperator]

structure KeyedBy (history : List Met) (c : Chip) : Prop where
  note : ∀ s, (c.operator s).key.note =
    (Met.last? (Met.KeysLed s.channel) history).any fun m => m.write.value.bit 5
  rhythm : ∀ s, (c.operator s).key.rhythm =
    (Met.last? Met.StoresRhythm history).any fun m =>
      (rhythmBit? s).any fun i => m.write.value.bit 5 && m.write.value.bit i

theorem KeyedBy.write {history : List Met} (h : KeyedBy history c) (coherent : c.Coherent)
    (w : RegisterWrite) : KeyedBy (history ++ [⟨c, w⟩]) (c.write w.address w.value) := by
  cases named : Register.ofAddress? w.address with
  | none =>
    rw [write_of_none named]
    constructor
    · intro s
      rw [h.note, Met.last?_concat, if_neg (by simp [Met.KeysLed, named])]
    · intro s
      rw [h.rhythm, Met.last?_concat, if_neg (by simp [Met.StoresRhythm, named])]
  | some r =>
    have key (s : Slot) : ((c.write w.address w.value).operator s).key =
        (c.putOperator r w.value s (c.operator s)).key := by
      rw [write_of_some named, store_eq coherent, operator_rederive, operator_put]
      rfl
    constructor
    · intro s
      have reaches : Met.KeysLed s.channel ⟨c, w⟩ ↔
          r = .channel .keyBlock (c.leader s.channel) := by
        rw [Met.KeysLed, named, Option.some.injEq]
      rw [key, key_putOperator, Met.last?_concat, h.note]
      simp only [reaches]
      split <;> rfl
    · intro s
      have reaches : Met.StoresRhythm ⟨c, w⟩ ↔ r = .rhythm := by
        rw [Met.StoresRhythm, named, Option.some.injEq]
      rw [key, key_putOperator, Met.last?_concat, h.rhythm]
      simp only [reaches]
      split
      · cases rhythmBit? s <;> simp
      · rfl

theorem traced_keyedBy (settings : Settings) : Traced settings KeyedBy where
  idle := by
    constructor <;>
    · intro s
      rw [operator_idle]
      rfl
  write := fun _ _ w coherent h => h.write coherent w
  latch := fun _ _ _ h => ⟨h.note, h.rhythm⟩

theorem keyedBy_run (actions : List Action) :
    KeyedBy ((fresh settings).history actions) ((fresh settings).run actions) := by
  apply traced_run (traced_keyedBy settings)
  intro before t _ h
  exact ⟨fun s => by rw [key_synthesize, h.note], fun s => by rw [key_synthesize, h.rhythm]⟩

/-- After every run, both operators of a channel have their note keyed as the last write that
reached the channel since the reset says, the drums as the last write to the rhythm register
says, and nothing else has a key. -/
theorem key_bits_run (settings : Settings) (actions : List Action)
    (bound : ∀ w, .write w ∈ actions → w.address.toNat ≤ 0x1FF) :
    let history := (fresh settings).history actions
    let mask (s : Slot) := (((fresh settings).run actions).operator s).key.mask
    let drums : List (Slot × Nat) := [(12, 4), (13, 4), (14, 0), (15, 3), (16, 2), (17, 1)]
    (∀ s : Slot,
      (mask s).testBit 0 =
        (Met.last? (Met.KeysNote s.channel) history).any fun m => m.write.value.bit 5) ∧
    (∀ s i, (s, i) ∈ drums →
      (mask s).testBit 1 =
        (Met.last? Met.KeysRhythm history).any fun m =>
          m.write.value.bit 5 && m.write.value.bit i) ∧
    (∀ s, (∀ i, (s, i) ∉ drums) → (mask s).testBit 1 = false) ∧
    ∀ s i, 2 ≤ i → (mask s).testBit i = false := by
  intro history mask drums
  have keyed : KeyedBy history ((fresh settings).run actions) := keyedBy_run actions
  have bounds : ∀ m ∈ history, m.write.address.toNat ≤ 0x1FF := address_history_le bound
  have notes (ch : ChannelId) :
      Met.last? (Met.KeysNote ch) history = Met.last? (Met.KeysLed ch) history := by
    apply Met.last?_congr
    intro m member
    rw [Met.keysNote_iff, Met.KeysLed,
      Register.ofAddress?_eq_iff (Nat.lt_succ_of_le (bounds m member)) (by simp) (by simp)]
    rfl
  have rhythms : Met.last? Met.KeysRhythm history = Met.last? Met.StoresRhythm history := by
    apply Met.last?_congr
    intro m member
    rw [Met.KeysRhythm, Met.StoresRhythm,
      Register.ofAddress?_eq_iff (Nat.lt_succ_of_le (bounds m member)) (by simp) (by simp)]
    rfl
  have drum (s : Slot) (i : Nat) : (s, i) ∈ drums ↔ rhythmBit? s = some i := by
    have listed : ∀ p ∈ drums, rhythmBit? p.1 = some p.2 := by decide
    have all : ∀ s, ∀ i ∈ rhythmBit? s, (s, i) ∈ drums := by decide
    exact ⟨listed (s, i), all s i⟩
  refine ⟨?_, ?_, ?_, ?_⟩
  · intro s
    rw [Keys.testBit_mask_zero, keyed.note, notes]
  · intro s i place
    rw [Keys.testBit_mask_one, keyed.rhythm, (drum s i).mp place, rhythms]
    rfl
  · intro s undrummed
    have other : rhythmBit? s = .none :=
      Option.eq_none_iff_forall_ne_some.mpr fun i own => undrummed i ((drum s i).mpr own)
    rw [Keys.testBit_mask_one, keyed.rhythm, other]
    simp
  · intro s i above
    exact Keys.testBit_mask_of_le _ above

/-- A pair is joined, keyed by its primary and split while it sounds. Its secondary has ignored
a key of its own, and now the release of the primary does not reach it. -/
theorem key_bits_run_split :
    let actions : List Action :=
      [.bus 2 0x05, .bus 1 1, .write ⟨0x104, 1⟩, .write ⟨0xB0, 0x20⟩, .write ⟨0xB3, 0⟩,
        .write ⟨0x104, 0⟩, .write ⟨0xB0, 0⟩]
    let mask (s : Slot) := (((fresh .default).run actions).operator s).key.mask
    (∀ w, .write w ∈ actions → w.address.toNat ≤ 0x1FF) ∧
      (mask 0).testBit 0 = false ∧ (mask 6).testBit 0 = true := by
  intro actions mask
  have bound : ∀ w, .write w ∈ actions → w.address.toNat ≤ 0x1FF := by simp [actions]
  obtain ⟨notes, -⟩ := key_bits_run .default actions bound
  refine ⟨bound, (notes 0).trans ?_, (notes 6).trans ?_⟩
  · rw [fresh_eq]
    decide +kernel
  · rw [fresh_eq]
    decide +kernel

end Chip

end Ymf262
