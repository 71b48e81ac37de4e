import Mathlib.Algebra.Group.Nat.Defs
import Ymf262.Proofs.DerivedValues
import Ymf262.Proofs.Programmed

/-! Phase steps without loss. The step of an operator is computed in 32 bits, by a product that
wraps around and a shift that drops what leaves the word. Up to a pitch coefficient of 34986 neither
happens: the step is the exact quotient, so that it grows with multiplier, F-number and block. -/
namespace Ymf262

def exactStep (pitchCoef multiplier fnum block : Nat) : Nat :=
  4 * fnum * multiplier * pitchCoef / 2 ^ (7 - block)

section

variable {k m m' fnum fnum' block block' : Nat}

theorem exactStep_le_exactStep (multipliers : m ≤ m') (fnums : fnum ≤ fnum')
    (blocks : block ≤ block') : exactStep k m fnum block ≤ exactStep k m' fnum' block' := by
  unfold exactStep
  apply Nat.div_le_div
  · apply Nat.mul_le_mul_right
    exact Nat.mul_le_mul (Nat.mul_le_mul_left 4 fnums) multipliers
  · apply Nat.pow_le_pow_right (by decide)
    omega
  · exact Nat.ne_of_gt (Nat.two_pow_pos _)

/-- An octave up, the quotient gains the bit that the shift has cut off before. -/
theorem exactStep_succ (below : block < 7) :
    exactStep k m fnum (block + 1) = 2 * exactStep k m fnum block ∨
      exactStep k m fnum (block + 1) = 2 * exactStep k m fnum block + 1 := by
  have halved : exactStep k m fnum block = exactStep k m fnum (block + 1) / 2 := by
    unfold exactStep
    rw [Nat.div_div_eq_div_mul, ← Nat.pow_succ]
    congr 2
    omega
  omega

end

namespace Operator

theorem multiples_le (n : Nat) : multiples.getD n 0 ≤ 30 := by
  by_cases h : n < 16
  · have all : ∀ i : Fin 16, multiples.getD i 0 ≤ 30 := by decide
    exact all ⟨n, h⟩
  · have past : multiples.length ≤ n := Nat.le_of_not_lt h
    rw [List.getD_eq_getElem?_getD, List.getElem?_eq_none past]
    decide

theorem scaledMultiple_toNat {k : UInt32} {m : Nat} (small : k.toNat ≤ 34986) (bound : m ≤ 30) :
    (k * .ofNat m).toNat = m * k.toNat := by
  have product : k.toNat * m ≤ 34986 * 30 := Nat.mul_le_mul small bound
  have word : (UInt32.ofNat m).toNat = m :=
    UInt32.toNat_ofNat_of_lt' (by show _ < 4294967296; omega)
  rw [UInt32.toNat_mul, word, Nat.mod_eq_of_lt (by omega), Nat.mul_comm]

theorem phaseStep_of_lt {multiple : UInt32} {t : Tuning} (h : t.InRange)
    (room : 4 * (t.fnum * multiple.toNat) < 2 ^ 32) :
    (phaseStep multiple t).toNat = 4 * (t.fnum * multiple.toNat) / 2 ^ (7 - t.block) := by
  have fnum : t.blockFnum &&& 0x3FF = t.fnum := Nat.and_two_pow_sub_one_eq_mod _ 10
  have block : t.blockFnum >>> 10 = t.block := Nat.shiftRight_eq_div_pow ..
  have size : UInt32.size = 2 ^ 32 := rfl
  have product : t.fnum * multiple.toNat % 2 ^ 32 = t.fnum * multiple.toNat :=
    Nat.mod_eq_of_lt (by omega)
  rw [phaseStep_toNat multiple h, fnum, block, size, product, Nat.shiftLeft_eq,
    Nat.mul_comm _ (2 ^ 2), Nat.mod_eq_of_lt room, Nat.shiftRight_eq_div_pow]

end Operator

namespace Chip

structure Pace where
  multiplier : Nat
  fnum : Nat
  block : Nat
  deriving DecidableEq

/-- The multiplier by the last value written to the tone register of the slot, and the F-number and
the block of the channel that leads its voice. -/
def pace (settings : Settings) (actions : List Action) (s : Slot) : Pace :=
  let c := (fresh settings).run actions
  let t := c.tuning (c.leader s.channel)
  let tone := programmed ((fresh settings).history actions) (.operator .tone s)
  ⟨Operator.multiples.getD tone.low 0, t.fnum, t.block⟩

variable {settings : Settings}

theorem settings_run (actions : List Action) :
    ((fresh settings).run actions).settings = settings :=
  run_keeps (kept_settings settings) actions

theorem multiple_run (small : settings.pitchCoef.toNat ≤ 34986) (actions : List Action) (s : Slot) :
    (((fresh settings).run actions).operator s).multiple.toNat =
      (pace settings actions s).multiplier * settings.pitchCoef.toNat := by
  have decodes := Operator.decodes_of_put fun kind => (holds_run settings actions).operators kind s
  rw [decodes.multiple, settings_run]
  exact Operator.scaledMultiple_toNat small (Operator.multiples_le _)

theorem room_run (small : settings.pitchCoef.toNat ≤ 34986) (actions : List Action) (s : Slot) :
    4 * ((pace settings actions s).fnum *
      (((fresh settings).run actions).operator s).multiple.toNat) < 2 ^ 32 := by
  have fnum : (pace settings actions s).fnum ≤ 1023 :=
    Nat.le_of_lt_succ (Nat.mod_lt _ (by decide))
  have multiple : (((fresh settings).run actions).operator s).multiple.toNat ≤ 30 * 34986 := by
    rw [multiple_run small]
    exact Nat.mul_le_mul (Operator.multiples_le _) small
  have := Nat.mul_le_mul fnum multiple
  omega

theorem block_run (actions : List Action) (s : Slot) : (pace settings actions s).block ≤ 7 := by
  have range := (run_keeps (kept_inRange settings) actions).2
  have word := (range.tunings (((fresh settings).run actions).leader s.channel)).blockFnum
  show Tuning.block _ ≤ 7
  unfold Tuning.block
  omega

theorem increment_run (small : settings.pitchCoef.toNat ≤ 34986) (actions : List Action)
    (s : Slot) :
    let p := pace settings actions s
    (((fresh settings).run actions).operator s).increment.toNat =
      exactStep settings.pitchCoef.toNat p.multiplier p.fnum p.block := by
  intro p
  obtain ⟨coherent, range⟩ := run_keeps (kept_inRange settings) actions
  have drawn := congrArg Operator.increment (coherent s)
  have product : 4 * (p.fnum * (p.multiplier * settings.pitchCoef.toNat)) =
      4 * p.fnum * p.multiplier * settings.pitchCoef.toNat := by
    simp only [Nat.mul_assoc]
  rw [← drawn, exactStep, ← product, ← multiple_run small]
  exact Operator.phaseStep_of_lt (range.tunings _) (room_run small actions s)

/-- After every run with a pitch coefficient up to 34986, phase steps are exact: neither the scaled
multiple nor its product with the F-number leaves the word. So of two slots, be it after different
runs, the one with the larger multiplier, F-number and block has no smaller step, and an octave
doubles a step but for its last bit. One coefficient further there are registers that lose a bit. -/
theorem phase_steps_run :
    (∀ settings : Settings, settings.pitchCoef.toNat ≤ 34986 → ∀ actions s,
      let k := settings.pitchCoef.toNat
      let o := ((fresh settings).run actions).operator s
      let p := pace settings actions s
      p.block ≤ 7 ∧ o.multiple.toNat = p.multiplier * k ∧
      4 * (p.fnum * o.multiple.toNat) < 2 ^ 32 ∧
      o.increment.toNat = 4 * p.fnum * p.multiplier * k / 2 ^ (7 - p.block) ∧
      ∀ actions' s',
        let o' := ((fresh settings).run actions').operator s'
        let p' := pace settings actions' s'
        (p.multiplier ≤ p'.multiplier → p.fnum ≤ p'.fnum → p.block ≤ p'.block →
          o.increment.toNat ≤ o'.increment.toNat) ∧
        (p'.multiplier = p.multiplier → p'.fnum = p.fnum → p'.block = p.block + 1 →
          o'.increment.toNat = 2 * o.increment.toNat ∨
            o'.increment.toNat = 2 * o.increment.toNat + 1)) ∧
    ∃ actions s,
      let o := ((fresh ⟨34987⟩).run actions).operator s
      let p := pace ⟨34987⟩ actions s
      o.increment.toNat ≠ 4 * p.fnum * p.multiplier * 34987 / 2 ^ (7 - p.block) := by
  constructor
  · intro settings small actions s k o p
    refine ⟨block_run actions s, multiple_run small actions s, room_run small actions s,
      increment_run small actions s, fun actions' s' => ?_⟩
    intro o' p'
    have step : o.increment.toNat = exactStep k p.multiplier p.fnum p.block :=
      increment_run small actions s
    have step' : o'.increment.toNat = exactStep k p'.multiplier p'.fnum p'.block :=
      increment_run small actions' s'
    constructor
    · intro multipliers fnums blocks
      rw [step, step']
      exact exactStep_le_exactStep multipliers fnums blocks
    · intro multipliers fnums blocks
      have bound : p'.block ≤ 7 := block_run actions' s'
      rw [step, step', multipliers, fnums, blocks]
      apply exactStep_succ
      omega
  · refine ⟨[.write ⟨0x20, 0x0F⟩, .write ⟨0xA0, 0xFF⟩, .write ⟨0xB0, 0x1F⟩], 0, ?_⟩
    unfold pace
    rw [fresh_eq]
    decide +kernel

/-- The second half of a pair with the highest pitch and the largest coefficient that there is room
for, and the same an octave below. -/
theorem phase_steps_run_limit :
    let joined (high : Byte) : List Action :=
      [.write ⟨0x105, 1⟩, .write ⟨0x104, 1⟩, .write ⟨0x28, 0x0F⟩, .write ⟨0xA0, 0xFF⟩,
        .write ⟨0xB0, high⟩]
    let step (high : Byte) := (((fresh ⟨34986⟩).run (joined high)).operator 6).increment.toNat
    (34986 : UInt32).toNat ≤ 34986 ∧ step 0x1F = 4294881360 ∧ step 0x1B ≤ step 0x1F ∧
      (step 0x1F = 2 * step 0x1B ∨ step 0x1F = 2 * step 0x1B + 1) := by
  intro joined step
  have small : (34986 : UInt32).toNat ≤ 34986 := by decide
  have high : pace ⟨34986⟩ (joined 0x1F) 6 = ⟨30, 1023, 7⟩ := by
    unfold pace
    rw [fresh_eq]
    decide +kernel
  have low : pace ⟨34986⟩ (joined 0x1B) 6 = ⟨30, 1023, 6⟩ := by
    unfold pace
    rw [fresh_eq]
    decide +kernel
  obtain ⟨-, -, -, value, -⟩ := phase_steps_run.1 ⟨34986⟩ small (joined 0x1F) 6
  obtain ⟨-, -, -, -, compare⟩ := phase_steps_run.1 ⟨34986⟩ small (joined 0x1B) 6
  obtain ⟨grows, octave⟩ := compare (joined 0x1F) 6
  rw [high] at value grows octave
  rw [low] at grows octave
  exact ⟨small, value, grows (by decide) (by decide) (by decide), octave rfl rfl rfl⟩

end Chip

end Ymf262
