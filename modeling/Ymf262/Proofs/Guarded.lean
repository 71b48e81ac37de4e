import Ymf262.Proofs.Range

/-! The register engine with guards. It looks tables up with a bounds check, computes in words of
a fixed width and takes slots and channels as plain numbers, and it stops at the first step that
would leave a table or a word. On a chip whose values are in their ranges no guard ever stops it,
and what it does is what the engine does. -/
namespace Ymf262

/-- A number below the bound of its word, or a shift of less than a word's width. -/
def below? (bound n : Nat) : Option Nat := if n < bound then some n else none

def minus? (m n : Nat) : Option Nat := if n ≤ m then some (m - n) else none

theorem below?_eq {bound n : Nat} (h : n < bound) : below? bound n = some n := if_pos h

theorem minus?_eq {m n : Nat} (h : n ≤ m) : minus? m n = some (m - n) := if_pos h

theorem getElem?_eq_getD (table : List Nat) {i : Nat} (h : i < table.length) :
    table[i]? = some (table.getD i 0) := by
  rw [List.getElem?_eq_getElem h, List.getD_eq_getElem?_getD, List.getElem?_eq_getElem h,
    Option.getD_some]

namespace Rate

def ofIndex? (i : Nat) : Option Rate := do
  let shift ← shifts[i]?
  let select ← selects[i]?
  return ⟨shift, select⟩

def attackOfIndex? (i : Nat) : Option Rate :=
  if i < instant then ofIndex? i else some ⟨0, 13 * step⟩

/-- The index of a code at a key scale value is added up in a byte. -/
def scaled? (code ksr : Nat) : Option Rate := do ofIndex? (← below? 256 (code + ksr))

def attackScaled? (code ksr : Nat) : Option Rate := do attackOfIndex? (← below? 256 (code + ksr))

/-- The shift of the nibble stays within its byte, so that the sum alone is checked. -/
def code? (nibble : Nat) : Option Nat :=
  if nibble = 0 then some 0 else below? 256 (16 + 4 * nibble % 256)

theorem ofIndex?_eq {i : Nat} (h : i < 96) : ofIndex? i = some (ofIndex i) := by
  rw [ofIndex?, getElem?_eq_getD shifts (shifts_length ▸ h),
    getElem?_eq_getD selects (selects_length ▸ h)]
  rfl

theorem attackOfIndex?_eq (i : Nat) : attackOfIndex? i = some (attackOfIndex i) := by
  rw [attackOfIndex?, attackOfIndex]
  split
  · exact ofIndex?_eq (Nat.lt_trans ‹_› (by decide))
  · rfl

theorem scaled?_eq {code ksr : Nat} (hc : code ≤ 76) (hk : ksr < 16) :
    scaled? code ksr = some (ofIndex (code + ksr)) := by
  rw [scaled?, below?_eq (by omega)]
  exact ofIndex?_eq (by omega)

/-- A sum past a byte stops. -/
example : scaled? 252 15 = none := rfl

theorem attackScaled?_eq {code ksr : Nat} (hc : code ≤ 76) (hk : ksr < 16) :
    attackScaled? code ksr = some (attackOfIndex (code + ksr)) := by
  rw [attackScaled?, below?_eq (by omega)]
  exact attackOfIndex?_eq _

theorem code?_eq {nibble : Nat} (h : nibble < 16) : code? nibble = some (code nibble) := by
  have fits : 16 + 4 * nibble % 256 = 16 + 4 * nibble := by omega
  rw [code?, code, fits]
  split
  · rfl
  · exact below?_eq (by omega)

end Rate

namespace Tuning

def of? (blockFnum : Nat) (noteSelect : Bool) : Option Tuning := do
  let kslBase ← keyScaleLevels[blockFnum / 64]?
  return ⟨blockFnum, codeOf blockFnum noteSelect, kslBase⟩

theorem of?_eq {blockFnum : Nat} (h : blockFnum < 8192) (noteSelect : Bool) :
    of? blockFnum noteSelect = some (of blockFnum noteSelect) := by
  have level : keyScaleLevels[blockFnum / 64]? = some (keyScaleLevel (blockFnum / 64)) := by
    have bound : blockFnum / 64 < 128 := by omega
    simp [keyScaleLevels, bound]
  rw [of?, level]
  rfl

end Tuning

namespace Operator

/-- In range, with a key scale value and shifts that the guards let through. -/
structure Bounded (o : Operator) : Prop extends o.InRange where
  ksr : o.ksr < 16
  ksrShift : o.ksrShift < 8
  kslShift : o.kslShift < 32

def rescaleRates? (o : Operator) (ksr : Nat) : Option Operator := do
  let attack ← Rate.attackScaled? o.attackCode ksr
  let decay ← Rate.scaled? o.decayCode ksr
  let release ← Rate.scaled? o.releaseCode ksr
  return { o with ksr, attack, decay, release }

def phaseStep? (multiple : UInt32) (t : Tuning) : Option UInt32 := do
  let halvings ← below? 32 (← minus? 7 t.block)
  return ((UInt32.ofNat t.fnum * multiple) <<< 2) >>> UInt32.ofNat halvings

def retune? (o : Operator) (t : Tuning) : Option Operator := do
  let increment ← phaseStep? o.multiple t
  let places ← below? 8 o.ksrShift
  let ksr := t.keyCode >>> places
  let tuned := { o with increment }
  if o.ksr = ksr then return tuned else tuned.rescaleRates? ksr

/-- The sum is cut off below the tremolo bit. -/
def attenuate? (o : Operator) (t : Tuning) : Option Operator := do
  let places ← below? 32 o.kslShift
  let sum ← below? 65536 (o.totalLevel + t.kslBase >>> places)
  return { o with attenuation := sum % 32768 }

def follow? (o : Operator) (t : Tuning) : Option Operator := do
  (← o.attenuate? t).retune? t

def writeTone? (o : Operator) (pitchCoef : UInt32) (v : Byte) : Option Operator := do
  let multiple ← multiples[v.low]?
  return { o.writeTone pitchCoef v with multiple := pitchCoef * UInt32.ofNat multiple }

def writeLevel? (o : Operator) (v : Byte) : Option Operator := do
  let kslShift ← kslShifts[v.toNat / 64]?
  return { o.writeLevel v with kslShift }

def writeAttackDecay? (o : Operator) (v : Byte) : Option Operator := do
  let attackCode ← Rate.code? v.high
  let attack ← Rate.attackScaled? attackCode o.ksr
  let decayCode ← Rate.code? v.low
  let decay ← Rate.scaled? decayCode o.ksr
  return { o with attackCode, attack, decayCode, decay }

def writeSustainRelease? (o : Operator) (v : Byte) : Option Operator := do
  let level ← sustainLevels[v.high]?
  let releaseCode ← Rate.code? v.low
  let release ← Rate.scaled? releaseCode o.ksr
  return { o with sustainLevel := 2 * level, releaseCode, release }

def writeFeedback? (o : Operator) (v : Byte) : Option Operator := do
  let feedback := v.toNat / 2 % 8
  let shift ← if feedback = 0 then some 0 else minus? 9 feedback
  return { o with feedback := shift, connection := v.bit 0 }

variable {o : Operator} {t : Tuning}

theorem InRange.attackCode_le (h : o.InRange) : o.attackCode ≤ 76 := by
  obtain ⟨n, bound, code⟩ := h.attackCode
  exact code ▸ Rate.code_le bound

theorem InRange.decayCode_le (h : o.InRange) : o.decayCode ≤ 76 := by
  obtain ⟨n, bound, code⟩ := h.decayCode
  exact code ▸ Rate.code_le bound

theorem InRange.releaseCode_le (h : o.InRange) : o.releaseCode ≤ 76 := by
  obtain ⟨n, bound, code⟩ := h.releaseCode
  exact code ▸ Rate.code_le bound

theorem rescaleRates?_eq (h : o.InRange) {ksr : Nat} (bound : ksr < 16) :
    o.rescaleRates? ksr = some (o.rescaleRates ksr) := by
  rw [rescaleRates?, Rate.attackScaled?_eq h.attackCode_le bound,
    Rate.scaled?_eq h.decayCode_le bound, Rate.scaled?_eq h.releaseCode_le bound]
  rfl

theorem phaseStep?_eq (multiple : UInt32) (h : t.InRange) :
    phaseStep? multiple t = some (phaseStep multiple t) := by
  have block : t.block ≤ 7 := by
    have := h.blockFnum
    rw [Tuning.block]
    omega
  have places : 7 - t.block < 32 := by omega
  rw [phaseStep?, minus?_eq block]
  simp only [Option.bind_eq_bind, Option.bind_some, below?_eq places]
  rfl

/-- There is no block above the seventh. -/
example : phaseStep? 1154 ⟨8192, 0, 0⟩ = none := rfl

theorem retune?_eq (h : o.Bounded) (pitch : t.InRange) : o.retune? t = some (o.retune t) := by
  have tuned : ({ o with increment := phaseStep o.multiple t } : Operator).InRange :=
    ⟨h.attackCode, h.decayCode, h.releaseCode, h.totalLevel⟩
  simp only [retune?, phaseStep?_eq _ pitch, below?_eq h.ksrShift, Option.bind_eq_bind,
    Option.bind_some, rescaleRates?_eq tuned (pitch.ksr_lt _), retune]
  split <;> rfl

theorem attenuate?_eq (h : o.Bounded) (pitch : t.InRange) :
    o.attenuate? t = some (o.attenuate t) := by
  have level := h.totalLevel
  have ksl := pitch.ksl_le o.kslShift
  have clear : (o.totalLevel + t.kslBase >>> o.kslShift) % 32768 =
      o.totalLevel + t.kslBase >>> o.kslShift := Nat.mod_eq_of_lt (by omega)
  rw [attenuate?, below?_eq h.kslShift]
  simp only [Option.bind_eq_bind, Option.bind_some]
  rw [below?_eq (by omega), Option.bind_some, clear]
  rfl

theorem follow?_eq (h : o.Bounded) (pitch : t.InRange) : o.follow? t = some (o.follow t) := by
  have attenuated : (o.attenuate t).Bounded :=
    ⟨⟨h.attackCode, h.decayCode, h.releaseCode, h.totalLevel⟩, h.ksr, h.ksrShift, h.kslShift⟩
  rw [follow?, attenuate?_eq h pitch]
  exact retune?_eq attenuated pitch

theorem writeTone?_eq (o : Operator) (k : UInt32) (v : Byte) :
    o.writeTone? k v = some (o.writeTone k v) := by
  rw [writeTone?, getElem?_eq_getD multiples v.low_lt]
  rfl

theorem writeLevel?_eq (o : Operator) (v : Byte) : o.writeLevel? v = some (o.writeLevel v) := by
  have bound : v.toNat / 64 < 4 := by
    have := v.toNat_lt
    omega
  rw [writeLevel?, getElem?_eq_getD kslShifts bound]
  rfl

theorem writeAttackDecay?_eq (h : o.Bounded) (v : Byte) :
    o.writeAttackDecay? v = some (o.writeAttackDecay v) := by
  rw [writeAttackDecay?, Rate.code?_eq v.high_lt, Rate.code?_eq v.low_lt]
  simp only [Option.bind_eq_bind, Option.bind_some,
    Rate.attackScaled?_eq (Rate.code_le v.high_lt) h.ksr,
    Rate.scaled?_eq (Rate.code_le v.low_lt) h.ksr]
  rfl

theorem writeSustainRelease?_eq (h : o.Bounded) (v : Byte) :
    o.writeSustainRelease? v = some (o.writeSustainRelease v) := by
  rw [writeSustainRelease?, getElem?_eq_getD sustainLevels v.high_lt,
    Rate.code?_eq v.low_lt]
  simp only [Option.bind_eq_bind, Option.bind_some,
    Rate.scaled?_eq (Rate.code_le v.low_lt) h.ksr]
  rfl

theorem writeFeedback?_eq (o : Operator) (v : Byte) :
    o.writeFeedback? v = some (o.writeFeedback v) := by
  rw [writeFeedback?, writeFeedback]
  by_cases off : v.toNat / 2 % 8 = 0
  · simp only [off, if_true]
    rfl
  · simp only [if_neg off, minus?_eq (show v.toNat / 2 % 8 ≤ 9 by omega)]
    rfl

end Operator

end Ymf262
