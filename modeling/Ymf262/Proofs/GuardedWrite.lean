import Ymf262.Proofs.Guarded
import Ymf262.Proofs.Refresh

/-! Register writes with guards. The guarded chip decodes an address by the table of the slots and
finds slots and channels by their numbers; the halves of a pair are channels by their type, so that
nothing is left to guard there. As long as operators and tunings are in bounds, a guarded write
never stops and leaves the chip that a plain write leaves. -/
namespace Ymf262

def ChannelId.at? (n : Nat) : Option ChannelId := if h : n < 18 then some ⟨n, h⟩ else none

namespace Slot

def at? (n : Nat) : Option Slot := if h : n < 36 then some ⟨n, h⟩ else none

/-- The slots of a bank by the low five bits of an operator register. -/
def table : List (Option Nat) :=
  [some 0, some 2, some 4, some 1, some 3, some 5, none, none,
    some 6, some 8, some 10, some 7, some 9, some 11, none, none,
    some 12, some 14, some 16, some 13, some 15, some 17, none, none,
    none, none, none, none, none, none, none, none]

theorem table_eq (low : Nat) : table[low % 32]? = some ((ofOffset? low).map Fin.val) := by
  have all : ∀ n : Fin 32, table[n.val]? = some ((ofOffset? n).map Fin.val) := by decide
  have same : ofOffset? low = ofOffset? (low % 32) := by
    have place : low % 32 % 8 = low % 8 := by omega
    simp only [ofOffset?, Nat.mod_mod, place]
  rw [same]
  exact all ⟨low % 32, Nat.mod_lt _ (by decide)⟩

end Slot

namespace Operator

def write? (o : Operator) (x : Context) (kind : OperatorRegister) (k : UInt32) (v : Byte) :
    Option Operator :=
  match kind with
  | .tone => do (← o.writeTone? k v).retune? x.pitch
  | .level => do (← o.writeLevel? v).attenuate? x.pitch
  | .attackDecay => o.writeAttackDecay? v
  | .sustainRelease => o.writeSustainRelease? v
  | .waveform => some (o.writeWaveform x.opl3Mode v)

theorem Bounded.writeTone {o : Operator} (h : o.Bounded) (k : UInt32) (v : Byte) :
    (o.writeTone k v).Bounded where
  toInRange := ⟨h.attackCode, h.decayCode, h.releaseCode, h.totalLevel⟩
  ksr := h.ksr
  ksrShift := by
    show (if v.bit 4 then 0 else 2) < 8
    split <;> decide
  kslShift := h.kslShift

theorem kslShifts_lt (i : Nat) : kslShifts.getD i 0 < 32 := by
  by_cases bound : i < 4
  · have all : ∀ n : Fin 4, kslShifts.getD n 0 < 32 := by decide
    exact all ⟨i, bound⟩
  · rw [List.getD_eq_getElem?_getD, List.getElem?_eq_none (Nat.le_of_not_lt bound)]
    decide

theorem Bounded.writeLevel {o : Operator} (h : o.Bounded) (v : Byte) :
    (o.writeLevel v).Bounded where
  toInRange := h.toInRange.put .level 0 v
  ksr := h.ksr
  ksrShift := h.ksrShift
  kslShift := kslShifts_lt _

theorem Bounded.setKey {o : Operator} (h : o.Bounded) (source : KeySource) (on : Bool) :
    (o.setKey source on).Bounded := by
  have range := h.toInRange.setKey source on
  rw [setKey_eq] at range ⊢
  exact ⟨range, h.ksr, h.ksrShift, h.kslShift⟩

theorem write?_eq {o : Operator} (h : o.Bounded) {x : Context} (pitch : x.pitch.InRange)
    (kind : OperatorRegister) (k : UInt32) (v : Byte) :
    o.write? x kind k v = some (o.write x kind k v) := by
  cases kind with
  | tone =>
    rw [write?, writeTone?_eq]
    exact retune?_eq (h.writeTone k v) pitch
  | level =>
    rw [write?, writeLevel?_eq]
    exact attenuate?_eq (h.writeLevel v) pitch
  | attackDecay => exact writeAttackDecay?_eq h v
  | sustainRelease => exact writeSustainRelease?_eq h v
  | waveform => rfl

end Operator

namespace Chip

structure Bounded (c : Chip) : Prop where
  operators : ∀ s, (c.operator s).Bounded
  tunings : ∀ ch, (c.tuning ch).InRange

def mapOperators? (c : Chip) (f : Slot → Operator → Option Operator) : Option Chip := do
  let operators ← Vector.ofFnM fun s : Slot => f s (c.operator s)
  return { c with operators }

def modifyOperator? (c : Chip) (s : Slot) (f : Operator → Option Operator) : Option Chip := do
  let o ← f (c.operator s)
  return c.modifyOperator s fun _ => o

def writeOperator? (c : Chip) (kind : OperatorRegister) (slot : Nat) (v : Byte) : Option Chip := do
  let s ← Slot.at? slot
  c.modifyOperator? s fun o => o.write? (c.context s) kind c.settings.pitchCoef v

def setBlockFnum? (c : Chip) (ch : ChannelId) (blockFnum : Nat) : Option Chip := do
  if (c.tuning ch).blockFnum = blockFnum then return c
  let t ← Tuning.of? blockFnum c.noteSelect
  (c.setTuning ch t).mapOperators? fun s o => if c.leads ch s then o.follow? t else some o

def setConnection? (c : Chip) (ch : ChannelId) (v : Byte) : Option Chip := do
  let _ ← below? 32 ch
  let written ← (c.setPan ch (c.panOf v)).modifyOperator? ch.modulator (·.writeFeedback? v)
  return written.reroute (written.leads (written.leader ch))

def writeChannel? (c : Chip) (kind : ChannelRegister) (channel : Nat) (v : Byte) : Option Chip := do
  let ch ← ChannelId.at? channel
  let blockFnum := (c.tuning ch).blockFnum
  match kind with
  | .fnumLow => c.setBlockFnum? ch (Tuning.withLow blockFnum v.toNat)
  | .keyBlock => (c.setKey ch (v.bit 5)).setBlockFnum? ch (Tuning.withHigh blockFnum v.toNat)
  | .connection => c.setConnection? ch v

def settle? (before after : Chip) : Option Chip :=
  after.mapOperators? fun s o =>
    match toggled before after s.channel with
    | none => some o
    | some p =>
      let routed := { o with destination := after.route s }
      if s.channel = p.secondary then routed.follow? (after.pitch s.channel) else some routed

def setFourOpEnable? (c : Chip) (v : Byte) : Option Chip :=
  c.settle? { c with
    channels := .ofFn fun ch =>
      match Pair.startingAt? ch with
      | some p => { c.channel ch with extended := v.bit p }
      | none => c.channel ch }

def setOpl3Mode? (c : Chip) (on : Bool) : Option Chip :=
  if c.opl3Mode = on then some c
  else c.settle? ({ c with opl3Mode := on }.mapOperators fun _ o => o.selectWaveform on)

def writeOperatorAt? (c : Chip) (kind : OperatorRegister) (bank low : Nat) (v : Byte) :
    Option Chip := do
  match ← Slot.table[low % 32]? with
  | some n => c.writeOperator? kind (n + 2 * (9 * bank)) v
  | none => return c

def writeChannelAt? (c : Chip) (kind : ChannelRegister) (bank low : Nat) (v : Byte) : Option Chip :=
  if low % 16 ≤ 8 then c.writeChannel? kind (low % 16 + 9 * bank) v else some c

def writeInBank? (c : Chip) (bank low : Nat) (v : Byte) : Option Chip :=
  match low / 32 with
  | 0 => some (if low = 0x08 then { c with noteSelectValue := v } else c)
  | 1 => c.writeOperatorAt? .tone bank low v
  | 2 => c.writeOperatorAt? .level bank low v
  | 3 => c.writeOperatorAt? .attackDecay bank low v
  | 4 => c.writeOperatorAt? .sustainRelease bank low v
  | 5 =>
    if low = 0xBD then some (if bank = 0 then c.writeRhythm v else c)
    else if low < 0xB0 then c.writeChannelAt? .fnumLow bank low v
    else c.writeChannelAt? .keyBlock bank low v
  | 6 => c.writeChannelAt? .connection bank low v
  | 7 => c.writeOperatorAt? .waveform bank low v
  | _ => some c

def write? (c : Chip) (address : UInt16) (v : Byte) : Option Chip :=
  if address = 0x104 then c.setFourOpEnable? v
  else if address = 0x105 then c.setOpl3Mode? (v.bit 0)
  else c.writeInBank? (if address.toNat.testBit 8 then 1 else 0) (address.toNat % 256) v

variable {c : Chip}

theorem mapOperators?_eq {f : Slot → Operator → Option Operator} {g : Slot → Operator → Operator}
    (same : ∀ s, f s (c.operator s) = some (g s (c.operator s))) :
    c.mapOperators? f = some (c.mapOperators g) := by
  have all : (fun s => f s (c.operator s)) = fun s => pure (g s (c.operator s)) := funext same
  rw [mapOperators?, all, Vector.ofFnM_pure]
  rfl

theorem modifyOperator?_eq {s : Slot} {f : Operator → Option Operator} {g : Operator → Operator}
    (same : f (c.operator s) = some (g (c.operator s))) :
    c.modifyOperator? s f = some (c.modifyOperator s g) := by
  rw [modifyOperator?, same]
  rfl

theorem writeOperator?_eq (h : c.Bounded) (kind : OperatorRegister) (s : Slot) (v : Byte) :
    c.writeOperator? kind s v = some (c.writeOperator kind s v) := by
  have found : Slot.at? s = some s := dif_pos s.isLt
  rw [writeOperator?, found, writeOperator_eq_modify]
  simp only [Option.bind_eq_bind, Option.bind_some]
  apply modifyOperator?_eq
  exact Operator.write?_eq (h.operators s) (h.tunings _) kind _ v

theorem setBlockFnum?_eq (h : c.Bounded) (ch : ChannelId) {blockFnum : Nat}
    (bound : blockFnum < 8192) :
    c.setBlockFnum? ch blockFnum = some (c.setBlockFnum ch blockFnum) := by
  rw [setBlockFnum?, setBlockFnum]
  by_cases same : (c.tuning ch).blockFnum = blockFnum
  · rw [if_pos same, if_pos same]
    rfl
  · rw [if_neg same, if_neg same, Tuning.of?_eq bound]
    simp only [Option.bind_eq_bind, Option.bind_some]
    apply mapOperators?_eq
    intro s
    rw [operator_setTuning]
    split
    · exact Operator.follow?_eq (h.operators s) (Tuning.inRange_of bound _)
    · rfl

theorem setConnection?_eq (ch : ChannelId) (v : Byte) :
    c.setConnection? ch v = some (c.setConnection ch v) := by
  have side : ch.val < 32 := Nat.lt_trans ch.isLt (by decide)
  have written : (c.setPan ch (c.panOf v)).modifyOperator? ch.modulator (·.writeFeedback? v) =
      some ((c.setPan ch (c.panOf v)).modifyOperator ch.modulator (·.writeFeedback v)) := by
    apply modifyOperator?_eq
    exact Operator.writeFeedback?_eq ..
  rw [setConnection?, below?_eq side, written]
  rfl

theorem Bounded.setKey (h : c.Bounded) (ch : ChannelId) (on : Bool) : (c.setKey ch on).Bounded where
  operators s := by
    rw [Chip.setKey, operator_mapOperators]
    split
    · exact (h.operators s).setKey .note on
    · exact h.operators s
  tunings d := by
    rw [tuning, Chip.setKey, channel_mapOperators]
    exact h.tunings d

theorem writeChannel?_eq (h : c.Bounded) (kind : ChannelRegister) (ch : ChannelId) (v : Byte) :
    c.writeChannel? kind ch v = some (c.writeChannel kind ch v) := by
  have found : ChannelId.at? ch = some ch := dif_pos ch.isLt
  rw [writeChannel?, found]
  cases kind with
  | fnumLow => exact setBlockFnum?_eq h ch (Tuning.withLow_lt (h.tunings ch).blockFnum v.toNat_lt)
  | keyBlock => exact setBlockFnum?_eq (h.setKey ch _) ch (Tuning.withHigh_lt ..)
  | connection => exact setConnection?_eq ch v

theorem settle?_eq {before after : Chip} (h : after.Bounded) :
    settle? before after = some (settle before after) := by
  apply mapOperators?_eq
  intro s
  cases toggled before after s.channel with
  | none => rfl
  | some p =>
    have own := h.operators s
    simp only
    split
    · exact Operator.follow?_eq
        ⟨⟨own.attackCode, own.decayCode, own.releaseCode, own.totalLevel⟩, own.ksr, own.ksrShift,
          own.kslShift⟩ (h.tunings _)
    · rfl

theorem setFourOpEnable?_eq (h : c.Bounded) (v : Byte) :
    c.setFourOpEnable? v = some (c.setFourOpEnable v) := by
  apply settle?_eq
  constructor
  · intro s
    simp only [operator]
    exact h.operators s
  · intro ch
    have own := h.tunings ch
    simp only [tuning, channel, Fin.getElem_fin, Vector.getElem_ofFn]
    cases Pair.startingAt? ch <;> exact own

theorem setOpl3Mode?_eq (h : c.Bounded) (on : Bool) :
    c.setOpl3Mode? on = some (c.setOpl3Mode on) := by
  rw [setOpl3Mode?, setOpl3Mode]
  split
  · rfl
  · apply settle?_eq
    constructor
    · intro s
      have own := h.operators s
      rw [operator_mapOperators]
      exact ⟨⟨own.attackCode, own.decayCode, own.releaseCode, own.totalLevel⟩, own.ksr,
        own.ksrShift, own.kslShift⟩
    · intro ch
      rw [tuning, channel_mapOperators]
      exact h.tunings ch

theorem writeOperatorAt?_eq (h : c.Bounded) (kind : OperatorRegister) (bank : Bank) (low : Nat)
    (v : Byte) :
    c.writeOperatorAt? kind bank low v =
      some ((Register.operatorAt? kind bank low).elim c (c.store · v)) := by
  rw [writeOperatorAt?, Slot.table_eq, Register.operatorAt?]
  cases Slot.ofOffset? low with
  | none => rfl
  | some s =>
    have number : s.val + 2 * (9 * bank.val) = (Slot.ofBank bank s).val := by
      show _ = 18 * bank.val + s.val
      omega
    show c.writeOperator? kind (s.val + 2 * (9 * bank.val)) v = _
    rw [number]
    exact writeOperator?_eq h kind _ v

theorem writeChannelAt?_eq (h : c.Bounded) (kind : ChannelRegister) (bank : Bank) (low : Nat)
    (v : Byte) :
    c.writeChannelAt? kind bank low v =
      some ((Register.channelAt? kind bank low).elim c (c.store · v)) := by
  rw [writeChannelAt?, Register.channelAt?]
  by_cases place : low % 16 < 9
  · have number : low % 16 + 9 * bank.val = (ChannelId.ofBank bank ⟨low % 16, place⟩).val :=
      Nat.add_comm ..
    rw [if_pos (Nat.le_of_lt_succ place), dif_pos place, number]
    exact writeChannel?_eq h kind _ v
  · rw [if_neg (by omega), dif_neg place]
    rfl

theorem writeInBank?_eq (h : c.Bounded) (bank : Bank) (low : Nat) (v : Byte) :
    c.writeInBank? bank low v = some ((Register.inBank? bank low).elim c (c.store · v)) := by
  have first : bank.val = 0 ↔ bank = 0 := Fin.val_eq_zero_iff
  rw [writeInBank?, Register.inBank?]
  generalize low / 32 = group
  match group with
  | 0 =>
    by_cases noteSelect : low = 0x08
    · simp only [if_pos noteSelect]
      rfl
    · simp only [if_neg noteSelect]
      rfl
  | 1 => exact writeOperatorAt?_eq h .tone bank low v
  | 2 => exact writeOperatorAt?_eq h .level bank low v
  | 3 => exact writeOperatorAt?_eq h .attackDecay bank low v
  | 4 => exact writeOperatorAt?_eq h .sustainRelease bank low v
  | 5 =>
    by_cases rhythm : low = 0xBD
    · simp only [if_pos rhythm, first]
      split <;> rfl
    · simp only [if_neg rhythm]
      by_cases lower : low < 0xB0
      · simp only [if_pos lower]
        exact writeChannelAt?_eq h .fnumLow bank low v
      · simp only [if_neg lower]
        exact writeChannelAt?_eq h .keyBlock bank low v
  | 6 => exact writeChannelAt?_eq h .connection bank low v
  | 7 => exact writeOperatorAt?_eq h .waveform bank low v
  | _ + 8 => rfl

theorem write?_eq (h : c.Bounded) (a : UInt16) (v : Byte) : c.write? a v = some (c.write a v) := by
  have engine : c.write a v = (Register.ofAddress? a).elim c (c.store · v) := by
    rw [write]
    cases Register.ofAddress? a <;> rfl
  rw [write?, engine, Register.ofAddress?]
  split
  · exact setFourOpEnable?_eq h v
  · split
    · exact setOpl3Mode?_eq h (v.bit 0)
    · have bank : (if a.toNat.testBit 8 then 1 else 0) =
          (if a.toNat.testBit 8 then 1 else 0 : Bank).val := by
        split <;> rfl
      rw [bank]
      exact writeInBank?_eq h _ _ v

end Chip

end Ymf262
