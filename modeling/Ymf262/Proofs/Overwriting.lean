import Ymf262.Proofs.Address
import Ymf262.Proofs.Commutation

/-! Writing to one register twice. The same value a second time changes nothing, and most registers
forget their first value altogether: only the halves of a block and F-number word, and the registers
that key, tell what was written to them before. So a mode that is left and entered again, or pairs
that are split and joined again, leave no trace. -/
namespace Ymf262

theorem Tuning.update_self (t : Tuning) (blockFnum : Nat) (noteSelect : Bool) :
    (t.update blockFnum noteSelect).update blockFnum noteSelect =
      t.update blockFnum noteSelect := by
  rw [update, blockFnum_update, if_pos rfl]

theorem Tuning.withLow_withLow (blockFnum : Nat) {low : Nat} (byte : low < 256) :
    withLow (withLow blockFnum low) low = withLow blockFnum low := by
  simp only [withLow]
  omega

theorem Tuning.withHigh_withHigh (blockFnum high : Nat) :
    withHigh (withHigh blockFnum high) high = withHigh blockFnum high := by
  simp only [withHigh]
  omega

theorem Operator.setKey_setKey (o : Operator) (source : KeySource) (on : Bool) :
    (o.setKey source on).setKey source on = o.setKey source on := by
  have keys : (o.key.set source on).set source on = o.key.set source on := by
    cases source <;> rfl
  have pressed : (o.key.set source true).held = true := by
    cases source <;> simp [Keys.set, Keys.held]
  rw [setKey_eq, setKey_eq]
  cases on with
  | true => simp [keys, pressed]
  | false => cases still : (o.key.set source false).held <;> simp [keys, still]

namespace Register

/-- A value written to the register can outlast the next one. -/
def Remembers : Register → Prop
  | channel kind _ => kind ≠ .connection
  | rhythm => True
  | _ => False

theorem not_steers_self (r : Register) : ¬ r.Steers r := by
  cases r with
  | channel kind ch => cases kind <;> exact id
  | _ => exact id

theorem Remembers.address {a : UInt16} (bound : a.toNat < 0x200) {r : Register} (h : r.Remembers)
    (named : ofAddress? a = some r) :
    (0xA0 ≤ a.toNat % 256 ∧ a.toNat % 256 ≤ 0xA8) ∨ (0xB0 ≤ a.toNat % 256 ∧ a.toNat % 256 ≤ 0xB8) ∨
      a = 0xBD := by
  cases r with
  | channel kind ch =>
    have own : a = (channel kind ch).address :=
      (ofAddress?_eq_iff bound (by simp) (by
        rintro d same
        cases same
        exact h rfl)).mp named
    have place := ch.inBank.isLt
    rw [own, toNat_address_channel]
    cases kind with
    | fnumLow =>
      simp only [ChannelRegister.base]
      omega
    | keyBlock =>
      simp only [ChannelRegister.base]
      omega
    | connection => exact (h rfl).elim
  | rhythm => exact .inr (.inr ((ofAddress?_eq_iff bound (by simp) (by simp)).mp named))
  | _ => exact h.elim

end Register

namespace Chip

variable {c : Chip} {r : Register} {v w : Byte}

/-! Field by field, a second value replaces the first where the register forgets it, and repeats it
where the values are the same. -/

theorem putOperator_putOperator (h : v = w ∨ ¬ r.Remembers) (s : Slot) (o : Operator) :
    c.putOperator r w s (c.putOperator r v s o) = c.putOperator r w s o := by
  cases r with
  | operator kind t =>
    by_cases hs : s = t
    · simp only [putOperator, if_pos hs, Operator.put_put]
    · simp only [putOperator, if_neg hs]
  | channel kind ch =>
    cases kind with
    | fnumLow => rfl
    | keyBlock =>
      have same : v = w := h.resolve_right (not_not_intro ChannelRegister.noConfusion)
      subst same
      by_cases led : c.leads ch s
      · simp only [putOperator, if_pos led, Operator.setKey_setKey]
      · simp only [putOperator, if_neg led]
    | connection =>
      by_cases hs : s = ch.modulator
      · simp only [putOperator, if_pos hs, Operator.writeFeedback_writeFeedback]
      · simp only [putOperator, if_neg hs]
  | rhythm =>
    have same : v = w := h.resolve_right (not_not_intro trivial)
    subst same
    cases drum : rhythmBit? s with
    | none => simp only [putOperator, drum]
    | some i => simp only [putOperator, drum, Operator.setKey_setKey]
  | _ => rfl

theorem putTuning_putTuning (h : v = w ∨ ¬ r.Remembers) (ch : ChannelId) (t : Tuning) :
    c.putTuning r w ch (c.putTuning r v ch t) = c.putTuning r w ch t := by
  cases r with
  | channel kind d =>
    by_cases hd : ch = d
    · cases kind with
      | fnumLow =>
        have same : v = w := h.resolve_right (not_not_intro ChannelRegister.noConfusion)
        simp only [putTuning, if_pos hd, same, Tuning.blockFnum_update,
          Tuning.withLow_withLow _ w.toNat_lt, Tuning.update_self]
      | keyBlock =>
        have same : v = w := h.resolve_right (not_not_intro ChannelRegister.noConfusion)
        simp only [putTuning, if_pos hd, same, Tuning.blockFnum_update, Tuning.withHigh_withHigh,
          Tuning.update_self]
      | connection => rfl
    · cases kind <;> simp only [putTuning, if_neg hd]
  | _ => rfl

theorem putMark_putMark (ch : ChannelId) (extended : Bool) :
    putMark r w ch (putMark r v ch extended) = putMark r w ch extended := by
  by_cases marks : r = .fourOpEnable
  · simp only [putMark, if_pos marks]
    cases Pair.startingAt? ch <;> rfl
  · simp only [putMark, if_neg marks]

theorem putPan_putPan (ch : ChannelId) (p : Pan) :
    c.putPan r w ch (c.putPan r v ch p) = c.putPan r w ch p := by
  by_cases own : r = .channel .connection ch
  · simp only [putPan, if_pos own]
  · simp only [putPan, if_neg own]

theorem put_put (h : v = w ∨ ¬ r.Remembers) : (c.put r v).put r w = c.put r w := by
  have apart := r.not_steers_self
  apply eq_of_fields
  · intro s
    rw [operator_put, operator_put, operator_put, putOperator_put apart, putOperator_putOperator h]
  · intro ch
    simp only [channel_put, tuning_put]
    rw [putTuning_put apart, putTuning_putTuning h, putMark_putMark]
  · intro ch
    rw [pan_put, pan_put, pan_put, putPan_put apart, putPan_putPan]
  · cases r <;> simp [globals, put]

theorem store_same_register (coherent : c.Coherent) (h : v = w ∨ ¬ r.Remembers) :
    (c.store r v).store r w = c.store r w := by
  rw [store_store coherent, store_eq coherent, put_put h]

theorem put_of_same_marks (same : ∀ p : Pair, (c.channel p.primary).extended = v.bit p) :
    c.put .fourOpEnable v = c := by
  apply eq_of_fields
  · intro s
    rw [operator_put]
    rfl
  · intro ch
    have mark : putMark .fourOpEnable v ch (c.channel ch).extended = (c.channel ch).extended := by
      rw [putMark, if_pos rfl]
      cases first : Pair.startingAt? ch with
      | none => rfl
      | some p => rw [Pair.eq_primary_of_startingAt? first, same, Option.elim_some]
    rw [channel_put, mark]
    rfl
  · intro ch
    rw [pan_put, putPan, if_neg (by simp)]
  · simp [globals, put]

theorem store_mode_of_same (coherent : c.Coherent) (same : c.opl3Mode = v.bit 0) :
    c.store .opl3Enable v = c := by
  rw [store_eq coherent, put_of_same_mode same, coherent.rederive_eq]

theorem store_marks_of_same (coherent : c.Coherent)
    (same : ∀ p : Pair, (c.channel p.primary).extended = v.bit p) :
    c.store .fourOpEnable v = c := by
  rw [store_eq coherent, put_of_same_marks same, coherent.rederive_eq]

/-- After every run, a value written a second time changes nothing, and outside the words, the keys
and the rhythm section it does not matter what was written before. To go back to the mode, or to the
pairs, that the chip had restores it to the last field. -/
theorem overwrite_run (settings : Settings) (actions : List Action) {a : UInt16}
    (bound : a.toNat ≤ 0x1FF) (v w : Byte) :
    let c := (fresh settings).run actions
    (c.write a v).write a v = c.write a v ∧
    (¬ (0xA0 ≤ a.toNat % 256 ∧ a.toNat % 256 ≤ 0xA8) →
      ¬ (0xB0 ≤ a.toNat % 256 ∧ a.toNat % 256 ≤ 0xB8) → a ≠ 0xBD →
      (c.write a v).write a w = c.write a w) ∧
    (w.bit 0 = c.opl3Mode → (c.write 0x105 v).write 0x105 w = c) ∧
    ((∀ p : Pair, w.bit p = (c.channel p.primary).extended) →
      (c.write 0x104 v).write 0x104 w = c) := by
  intro c
  have coherent : c.Coherent := coherent_run settings actions
  have twice (x : Byte) (h : ∀ r, Register.ofAddress? a = some r → v = x ∨ ¬ r.Remembers) :
      (c.write a v).write a x = c.write a x := by
    cases named : Register.ofAddress? a with
    | none => rw [write_of_none named, write_of_none named, write_of_none named]
    | some r =>
      rw [write_of_some named, write_of_some named, write_of_some named]
      exact store_same_register coherent (h r named)
  refine ⟨twice v fun _ _ => .inl rfl, ?_, ?_, ?_⟩
  · intro low high rhythm
    apply twice w
    intro r named
    right
    intro remembers
    rcases remembers.address (Nat.lt_succ_of_le bound) named with fnum | key | drums
    · exact low fnum
    · exact high key
    · exact rhythm drums
  · intro same
    have named : Register.ofAddress? 0x105 = some .opl3Enable := rfl
    rw [write_of_some named, write_of_some named, store_same_register coherent (.inr id)]
    exact store_mode_of_same coherent same.symm
  · intro same
    have named : Register.ofAddress? 0x104 = some .fourOpEnable := rfl
    rw [write_of_some named, write_of_some named, store_same_register coherent (.inr id)]
    exact store_marks_of_same coherent fun p => (same p).symm

/-- A joined pair sounds with a waveform of OPL3 mode. The mode is left and entered again, and the
pair split and joined again. -/
theorem overwrite_run_rejoined :
    let c := (fresh .default).run [.write ⟨0x105, 1⟩, .write ⟨0x104, 0x01⟩, .write ⟨0xE3, 5⟩,
      .write ⟨0xA0, 0x98⟩, .write ⟨0xB0, 0x31⟩]
    (c.write 0xC0 0x31).write 0xC0 0x0E = c.write 0xC0 0x0E ∧
      (c.write 0x105 0).write 0x105 1 = c ∧ (c.write 0x104 0).write 0x104 0x01 = c := by
  intro c
  have mode : (1 : Byte).bit 0 = c.opl3Mode := by
    simp only [c, fresh_eq]
    decide +kernel
  have marks : ∀ p : Pair, (0x01 : Byte).bit p = (c.channel p.primary).extended := by
    simp only [c, fresh_eq]
    decide +kernel
  have inBank : (0xC0 : UInt16).toNat ≤ 0x1FF := by decide
  obtain ⟨-, overwrite, -, -⟩ := overwrite_run .default _ inBank 0x31 0x0E
  obtain ⟨-, -, enter, -⟩ := overwrite_run .default _ inBank 0 1
  obtain ⟨-, -, -, join⟩ := overwrite_run .default _ inBank 0 0x01
  exact ⟨overwrite (by decide) (by decide) (by decide), enter mode, join marks⟩

end Chip

end Ymf262
