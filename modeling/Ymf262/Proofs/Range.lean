import Ymf262.Proofs.Coherence

/-! The ranges of stored values on every run: thirteen bits of block and F-number, a key code of
four bits, rate codes that come from a nibble, and a total level of six bits in steps of four.
With these no table is ever read past its end. -/
namespace Ymf262

structure Tuning.InRange (t : Tuning) : Prop where
  blockFnum : t.blockFnum < 8192
  keyCode : t.keyCode < 16
  kslBase : t.kslBase ≤ 224

structure Operator.InRange (o : Operator) : Prop where
  attackCode : ∃ n < 16, o.attackCode = Rate.code n
  decayCode : ∃ n < 16, o.decayCode = Rate.code n
  releaseCode : ∃ n < 16, o.releaseCode = Rate.code n
  totalLevel : o.totalLevel ≤ 252

theorem keyScaleLevel_le (index : Nat) : keyScaleLevel index ≤ 224 := by
  have top : ∀ n : Fin 16, topKeyScale.getD n 0 ≤ 224 := by decide
  exact Nat.le_trans (Nat.sub_le ..) (top ⟨index % 16, Nat.mod_lt _ (by decide)⟩)

namespace Tuning

theorem withLow_lt {blockFnum low : Nat} (h : blockFnum < 8192) (bound : low < 256) :
    withLow blockFnum low < 8192 := by
  rw [withLow]
  omega

theorem withHigh_lt (blockFnum high : Nat) : withHigh blockFnum high < 8192 := by
  rw [withHigh]
  omega

theorem inRange_of {blockFnum : Nat} (h : blockFnum < 8192) (noteSelect : Bool) :
    (of blockFnum noteSelect).InRange where
  blockFnum := h
  keyCode := by
    have := Bool.toNat_lt (blockFnum.testBit (if noteSelect then 8 else 9))
    show codeOf blockFnum noteSelect < 16
    rw [codeOf]
    omega
  kslBase := keyScaleLevel_le _

theorem InRange.update {t : Tuning} (h : t.InRange) {blockFnum : Nat} (bound : blockFnum < 8192)
    (noteSelect : Bool) : (t.update blockFnum noteSelect).InRange := by
  rw [Tuning.update]
  split
  · exact h
  · exact inRange_of bound noteSelect

/-! Key scaling takes bits away only. -/

theorem InRange.ksr_lt {t : Tuning} (h : t.InRange) (places : Nat) : t.keyCode >>> places < 16 := by
  rw [Nat.shiftRight_eq_div_pow]
  exact Nat.lt_of_le_of_lt (Nat.div_le_self ..) h.keyCode

theorem InRange.ksl_le {t : Tuning} (h : t.InRange) (places : Nat) :
    t.kslBase >>> places ≤ 224 := by
  rw [Nat.shiftRight_eq_div_pow]
  exact Nat.le_trans (Nat.div_le_self ..) h.kslBase

end Tuning

theorem Rate.code_le {n : Nat} (h : n < 16) : code n ≤ 76 := by
  rw [code]
  split <;> omega

namespace Operator

theorem InRange.put {o : Operator} (h : o.InRange) (kind : OperatorRegister) (k : UInt32)
    (v : Byte) : (o.put kind k v).InRange := by
  cases kind with
  | tone => exact ⟨h.attackCode, h.decayCode, h.releaseCode, h.totalLevel⟩
  | level =>
    refine ⟨h.attackCode, h.decayCode, h.releaseCode, ?_⟩
    show 4 * (v.toNat % 64) ≤ 252
    omega
  | attackDecay =>
    exact ⟨⟨_, v.high_lt, rfl⟩, ⟨_, v.low_lt, rfl⟩, h.releaseCode, h.totalLevel⟩
  | sustainRelease => exact ⟨h.attackCode, h.decayCode, ⟨_, v.low_lt, rfl⟩, h.totalLevel⟩
  | waveform => exact ⟨h.attackCode, h.decayCode, h.releaseCode, h.totalLevel⟩

theorem InRange.setKey {o : Operator} (h : o.InRange) (source : KeySource) (on : Bool) :
    (o.setKey source on).InRange := by
  rw [setKey_eq]
  exact ⟨h.attackCode, h.decayCode, h.releaseCode, h.totalLevel⟩

end Operator

namespace Chip

structure InRange (c : Chip) : Prop where
  operators : ∀ s, (c.operator s).InRange
  tunings : ∀ ch, (c.tuning ch).InRange

variable {c : Chip}

theorem InRange.putOperator (h : c.InRange) (r : Register) (v : Byte) (s : Slot) :
    (c.putOperator r v s (c.operator s)).InRange := by
  have operator := h.operators s
  have effect := c.effect_putOperator r v s
  generalize c.putOperator r v s = f at effect ⊢
  cases effect with
  | none field feedback => exact operator
  | field kind own => exact operator.put kind _ v
  | key source on keys => exact operator.setKey source on
  | feedback ch own place =>
    exact ⟨operator.attackCode, operator.decayCode, operator.releaseCode, operator.totalLevel⟩

theorem InRange.putTuning (h : c.InRange) (r : Register) (v : Byte) (ch : ChannelId) :
    (c.putTuning r v ch (c.tuning ch)).InRange := by
  have tuning := h.tunings ch
  cases r with
  | channel kind d =>
    cases kind with
    | fnumLow =>
      simp only [Chip.putTuning]
      split
      · exact tuning.update (Tuning.withLow_lt tuning.blockFnum v.toNat_lt) _
      · exact tuning
    | keyBlock =>
      simp only [Chip.putTuning]
      split
      · exact tuning.update (Tuning.withHigh_lt _ _) _
      · exact tuning
    | connection => exact tuning
  | _ => exact tuning

theorem inRange_idle (settings : Settings) : (idle settings).InRange where
  operators s := by
    rw [operator_idle]
    exact ⟨⟨0, by decide, rfl⟩, ⟨0, by decide, rfl⟩, ⟨0, by decide, rfl⟩, Nat.zero_le _⟩
  tunings ch := by
    rw [tuning, channel_idle]
    exact ⟨by decide, by decide, by decide⟩

theorem kept_inRange (settings : Settings) :
    Kept settings fun c => c.Coherent ∧ c.InRange where
  idle := ⟨coherent_idle settings, inRange_idle settings⟩
  store := by
    rintro c r v ⟨coherent, range⟩
    refine ⟨coherent.store r v, ?_⟩
    rw [store_eq coherent]
    constructor
    · intro s
      rw [operator_rederive, operator_put]
      have := range.putOperator r v s
      exact ⟨this.attackCode, this.decayCode, this.releaseCode, this.totalLevel⟩
    · intro ch
      rw [tuning, channel_rederive, ← tuning, tuning_put]
      exact range.putTuning r v ch
  latch := fun c a h => ⟨(kept_coherent settings).latch c a h.1, h.2.operators, h.2.tunings⟩
  synthesis := by
    rintro c t ⟨coherent, range⟩
    refine ⟨(kept_coherent settings).synthesis c t coherent, ?_, ?_⟩
    · intro s
      obtain ⟨phase, envelope, volume, same⟩ := operator_synthesize (c := c) t s
      have := range.operators s
      rw [same]
      exact ⟨this.attackCode, this.decayCode, this.releaseCode, this.totalLevel⟩
    · intro ch
      rw [tuning_synthesize]
      exact range.tunings ch

end Chip

end Ymf262
