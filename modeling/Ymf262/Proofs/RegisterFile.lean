import Ymf262.Proofs.Coherence

/-! The chip as a register file. It holds a file when its stored fields are those that the values
in the file give. A store changes the file at one register, whatever else of the chip the write
refreshes on its way, and an idle chip holds zeros. -/
namespace Ymf262

def written (file : Register → Byte) (r : Register) (v : Byte) : Register → Byte :=
  fun q => if q = r then v else file q

theorem written_self (file : Register → Byte) (r : Register) (v : Byte) :
    written file r v r = v := if_pos rfl

theorem written_of_ne {file : Register → Byte} {r q : Register} {v : Byte} (ne : q ≠ r) :
    written file r v q = file q := if_neg ne

/-- Only modulators keep feedback and a connection bit. -/
def connectionValue (file : Register → Byte) (s : Slot) : Byte :=
  if s = s.channel.modulator then file (.channel .connection s.channel) else 0

structure Operator.Decodes (pitchCoef : UInt32) (value : OperatorRegister → Byte)
    (o : Operator) : Prop where
  multiple : o.multiple = pitchCoef * .ofNat (multiples.getD (value .tone).low 0)
  ksrShift : o.ksrShift = if (value .tone).bit 4 then 0 else 2
  sustained : o.sustained = (value .tone).bit 5
  vibrato : o.vibrato = (value .tone).bit 6
  am : o.am = (value .tone).bit 7
  kslShift : o.kslShift = kslShifts.getD ((value .level).toNat / 64) 0
  totalLevel : o.totalLevel = 4 * ((value .level).toNat % 64)
  attackCode : o.attackCode = Rate.code (value .attackDecay).high
  decayCode : o.decayCode = Rate.code (value .attackDecay).low
  sustainLevel : o.sustainLevel = 2 * sustainLevels.getD (value .sustainRelease).high 0
  releaseCode : o.releaseCode = Rate.code (value .sustainRelease).low
  waveformNumber : o.waveformNumber = (value .waveform).toNat % 8

theorem Operator.decodes_of_put {o : Operator} {k : UInt32} {value : OperatorRegister → Byte}
    (h : ∀ kind, o.put kind k (value kind) = o) : o.Decodes k value where
  multiple := (congrArg Operator.multiple (h .tone)).symm
  ksrShift := (congrArg Operator.ksrShift (h .tone)).symm
  sustained := (congrArg Operator.sustained (h .tone)).symm
  vibrato := (congrArg Operator.vibrato (h .tone)).symm
  am := (congrArg Operator.am (h .tone)).symm
  kslShift := (congrArg Operator.kslShift (h .level)).symm
  totalLevel := (congrArg Operator.totalLevel (h .level)).symm
  attackCode := (congrArg Operator.attackCode (h .attackDecay)).symm
  decayCode := (congrArg Operator.decayCode (h .attackDecay)).symm
  sustainLevel := (congrArg Operator.sustainLevel (h .sustainRelease)).symm
  releaseCode := (congrArg Operator.releaseCode (h .sustainRelease)).symm
  waveformNumber := (congrArg Operator.waveformNumber (h .waveform)).symm

namespace Chip

/-- The chip holds the values of a register file in its stored fields: to store them once more
would change nothing. -/
structure Holds (file : Register → Byte) (c : Chip) : Prop where
  opl3Mode : c.opl3Mode = (file .opl3Enable).bit 0
  marks : ∀ ch, (c.channel ch).extended = putMark .fourOpEnable (file .fourOpEnable) ch false
  rhythmMode : c.rhythmMode = (file .rhythm).bit 5
  amDepth : c.amDepth = (file .rhythm).bit 7
  vibratoDepth : c.vibratoDepth = (file .rhythm).bit 6
  noteSelect : c.noteSelectValue = file .noteSelect
  words : ∀ ch, (c.tuning ch).blockFnum =
    (file (.channel .keyBlock ch)).toNat % 32 * 256 + (file (.channel .fnumLow ch)).toNat
  operators : ∀ kind s,
    (c.operator s).put kind c.settings.pitchCoef (file (.operator kind s)) = c.operator s
  connections : ∀ s, (c.operator s).writeFeedback (connectionValue file s) = c.operator s

variable {c : Chip} {file : Register → Byte}

theorem Holds.rederive (h : Holds file c) : Holds file c.rederive where
  opl3Mode := (opl3Mode_rederive c).trans h.opl3Mode
  marks ch := by rw [channel_rederive, h.marks]
  rhythmMode := by rw [Chip.rederive, mapOperators, h.rhythmMode]
  amDepth := by rw [Chip.rederive, mapOperators, h.amDepth]
  vibratoDepth := by rw [Chip.rederive, mapOperators, h.vibratoDepth]
  noteSelect := by rw [Chip.rederive, mapOperators, h.noteSelect]
  words ch := by rw [tuning, channel_rederive, ← tuning, h.words]
  operators kind s := by
    rw [operator_rederive, Chip.rederive, settings_mapOperators, ← h.operators kind s]
    exact Operator.put_derive_put ..
  connections s := by
    rw [operator_rederive, Operator.writeFeedback_derive, h.connections]

theorem Holds.operators_put (h : Holds file c) (r : Register) (v : Byte) (kind : OperatorRegister)
    (s : Slot) :
    (c.putOperator r v s (c.operator s)).put kind c.settings.pitchCoef
        (written file r v (.operator kind s)) =
      c.putOperator r v s (c.operator s) := by
  have own := h.operators kind s
  have effect := c.effect_putOperator r v s
  generalize c.putOperator r v s = f at effect ⊢
  cases effect with
  | none field feedback => rwa [written_of_ne (field kind).symm]
  | field other own =>
    subst own
    by_cases same : kind = other
    · rw [same, written_self, Operator.put_put]
    · rw [written_of_ne (by simp [same]), Operator.put_comm _ (Ne.symm same), h.operators]
  | key source on keys =>
    rw [written_of_ne (keys.ne_operator kind s).symm, ← Operator.setKey_put, own]
  | feedback ch other place =>
    rw [written_of_ne (by simp [other]), ← Operator.writeFeedback_put, own]

theorem connectionValue_of_ne {r : Register} {v : Byte} {s : Slot}
    (ne : ∀ ch, r = .channel .connection ch → s ≠ ch.modulator) :
    connectionValue (written file r v) s = connectionValue file s := by
  unfold connectionValue
  by_cases modulator : s = s.channel.modulator
  · rw [written_of_ne fun same => ne _ same.symm modulator]
  · rw [if_neg modulator, if_neg modulator]

theorem connectionValue_written (ch : ChannelId) (v : Byte) :
    connectionValue (written file (.channel .connection ch) v) ch.modulator = v := by
  rw [connectionValue, ChannelId.channel_modulator, if_pos rfl, written_self]

theorem Holds.connections_put (h : Holds file c) (r : Register) (v : Byte) (s : Slot) :
    (c.putOperator r v s (c.operator s)).writeFeedback (connectionValue (written file r v) s) =
      c.putOperator r v s (c.operator s) := by
  have own := h.connections s
  have effect := c.effect_putOperator r v s
  generalize c.putOperator r v s = f at effect ⊢
  cases effect with
  | none field feedback => rwa [connectionValue_of_ne feedback]
  | field kind own =>
    rw [connectionValue_of_ne (by simp [own]), Operator.writeFeedback_put, h.connections]
  | key source on keys =>
    rw [connectionValue_of_ne fun ch same => (keys.ne_connection ch same).elim,
      Operator.writeFeedback_setKey, own]
  | feedback ch other place =>
    rw [other, place, connectionValue_written, Operator.writeFeedback_writeFeedback]

theorem Holds.words_put (h : Holds file c) (r : Register) (v : Byte) (ch : ChannelId) :
    (c.putTuning r v ch (c.tuning ch)).blockFnum =
      (written file r v (.channel .keyBlock ch)).toNat % 32 * 256 +
        (written file r v (.channel .fnumLow ch)).toNat := by
  have word := h.words ch
  have low := (file (.channel .fnumLow ch)).toNat_lt
  cases r with
  | channel kind d =>
    by_cases hd : ch = d
    · subst hd
      cases kind with
      | fnumLow =>
        rw [written_self, written_of_ne (by simp)]
        simp only [putTuning, if_true, Tuning.blockFnum_update, Tuning.withLow]
        omega
      | keyBlock =>
        rw [written_self, written_of_ne (by simp)]
        simp only [putTuning, if_true, Tuning.blockFnum_update, Tuning.withHigh]
        omega
      | connection =>
        rw [written_of_ne (by simp), written_of_ne (by simp)]
        exact word
    · rw [written_of_ne (by simp [hd]), written_of_ne (by simp [hd])]
      cases kind with
      | connection => exact word
      | _ =>
        simp only [putTuning, if_neg hd]
        exact word
  | _ =>
    rw [written_of_ne (by simp), written_of_ne (by simp)]
    exact word

theorem putMark_written (r : Register) (v : Byte) (ch : ChannelId) :
    putMark r v ch (putMark .fourOpEnable (file .fourOpEnable) ch false) =
      putMark .fourOpEnable (written file r v .fourOpEnable) ch false := by
  by_cases hr : r = .fourOpEnable
  · rw [hr, written_self]
    simp only [putMark, if_true]
    cases Pair.startingAt? ch <;> rfl
  · rw [written_of_ne (Ne.symm hr), putMark, if_neg hr]

theorem Holds.put (h : Holds file c) (r : Register) (v : Byte) :
    Holds (written file r v) (c.put r v) where
  opl3Mode := by
    rw [opl3Mode_put, written, h.opl3Mode]
    simp only [eq_comm (a := r)]
    split <;> rfl
  marks ch := by rw [channel_put, h.marks, putMark_written]
  rhythmMode := by
    simp only [Chip.put, written, h.rhythmMode, eq_comm (a := r)]
    split <;> rfl
  amDepth := by
    simp only [Chip.put, written, h.amDepth, eq_comm (a := r)]
    split <;> rfl
  vibratoDepth := by
    simp only [Chip.put, written, h.vibratoDepth, eq_comm (a := r)]
    split <;> rfl
  noteSelect := by
    simp only [Chip.put, written, h.noteSelect, eq_comm (a := r)]
  words ch := by rw [tuning_put, h.words_put]
  operators kind s := by rw [operator_put, settings_put, h.operators_put]
  connections s := by rw [operator_put, h.connections_put]

theorem holds_idle (settings : Settings) : Holds (fun _ => 0) (idle settings) where
  opl3Mode := rfl
  marks ch := by
    have clear (p : Pair) : (0 : Byte).bit p = false := by simp [Byte.bit]
    rw [channel_idle, putMark, if_pos rfl]
    cases Pair.startingAt? ch with
    | none => rfl
    | some p => exact (clear p).symm
  rhythmMode := rfl
  amDepth := rfl
  vibratoDepth := rfl
  noteSelect := rfl
  words ch := by
    rw [tuning, channel_idle]
    rfl
  operators kind s := by
    rw [operator_idle]
    cases kind with
    | tone =>
      have one : settings.pitchCoef * 1 = settings.pitchCoef := UInt32.mul_one _
      exact congrArg (fun k => { Operator.idle settings s with multiple := k }) one
    | _ => rfl
  connections s := by
    have zero : connectionValue (fun _ => 0) s = 0 := ite_self _
    rw [operator_idle, zero]
    rfl

end Chip

end Ymf262
