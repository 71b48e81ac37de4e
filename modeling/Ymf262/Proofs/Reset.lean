import Ymf262.Chip.Reset
import Ymf262.Proofs.Address
import Ymf262.Proofs.Refresh

/-! A reset in closed form. It starts from a cleared chip and writes zeros; `swept` is what such
a chip holds once the registers in a list have been written, whatever their order. The reset
writes every register that a zero changes, so that it ends in `idle`. -/
namespace Ymf262

@[simp] theorem Tuning.keyCode_zero : zero.keyCode = 0 := rfl

@[simp] theorem Tuning.kslBase_zero : zero.kslBase = 0 := rfl

theorem Rate.ofIndex_zero : ofIndex 0 = ⟨0, 112⟩ := rfl

theorem Rate.attackOfIndex_zero : attackOfIndex 0 = ⟨0, 112⟩ := rfl

namespace Operator

/-- A slot of a cleared chip after zeros to some registers. -/
def swept (settings : Settings) (volume : UInt16) (done : List Register) (s : Slot) : Operator :=
  { zero with
    multiple := if .operator .tone s ∈ done then settings.pitchCoef else 0
    ksrShift := if .operator .tone s ∈ done then 2 else 0
    kslShift := if .operator .level s ∈ done then 31 else 0
    attack := ⟨0, if .operator .attackDecay s ∈ done then 112 else 0⟩
    decay := ⟨0, if .operator .attackDecay s ∈ done then 112 else 0⟩
    release := ⟨0, if .operator .sustainRelease s ∈ done then 112 else 0⟩
    volume
    destination :=
      if .channel .connection s.channel ∈ done then
        (Destination.twoOp s.channel false).get s.index
      else .phaseModA }

def idle (settings : Settings) (s : Slot) : Operator :=
  { zero with
    multiple := settings.pitchCoef
    ksrShift := 2
    kslShift := 31
    attack := ⟨0, 112⟩
    decay := ⟨0, 112⟩
    release := ⟨0, 112⟩
    volume := silentVolume
    destination := (Destination.twoOp s.channel false).get s.index }

@[simp] theorem phaseStep_zero (multiple : UInt32) : phaseStep multiple .zero = 0 := by
  simp [phaseStep, Tuning.zero, Tuning.fnum]

end Operator

namespace Chip

variable (settings : Settings) (volume : UInt16) (done : List Register)

def swept : Chip :=
  { zero settings with
    operators := .ofFn (Operator.swept settings volume done)
    pans := .ofFn fun ch =>
      let written := decide (.channel .connection ch ∈ done)
      ⟨written, written⟩ }

@[simp] theorem operator_swept (s : Slot) :
    (swept settings volume done).operator s = Operator.swept settings volume done s := by
  simp [swept, operator]

@[simp] theorem channel_swept (ch : ChannelId) :
    (swept settings volume done).channel ch = .zero := by
  simp [swept, channel, zero]

@[simp] theorem pan_swept (ch : ChannelId) :
    (swept settings volume done).pan ch =
      ⟨decide (.channel .connection ch ∈ done), decide (.channel .connection ch ∈ done)⟩ := by
  simp [swept, pan]

@[simp] theorem globals_swept : (swept settings volume done).globals = (zero settings).globals := by
  simp [swept, globals, zero]

@[simp] theorem tuning_swept (ch : ChannelId) : (swept settings volume done).tuning ch = .zero := by
  simp [tuning, Channel.zero]

@[simp] theorem connection_swept (ch : ChannelId) :
    (swept settings volume done).connection ch = false := by
  simp [connection, Operator.swept, Operator.zero]

@[simp] theorem settings_swept : (swept settings volume done).settings = settings := rfl

variable {settings volume done}

theorem leader_swept (ch : ChannelId) : (swept settings volume done).leader ch = ch :=
  leader_of_opl2 rfl ch

theorem pitch_swept (ch : ChannelId) : (swept settings volume done).pitch ch = .zero := by
  rw [pitch, tuning_swept]

theorem eq_swept {c : Chip} (operators : ∀ s, c.operator s = Operator.swept settings volume done s)
    (channels : ∀ ch, c.channel ch = .zero)
    (pans : ∀ ch, c.pan ch =
      ⟨decide (.channel .connection ch ∈ done), decide (.channel .connection ch ∈ done)⟩)
    (globals : c.globals = (zero settings).globals) : c = swept settings volume done := by
  apply eq_of_fields
  · simpa using operators
  · simpa using channels
  · simpa using pans
  · simpa using globals

theorem writeOperator_swept (kind : OperatorRegister) (t : Slot) :
    (swept settings volume done).writeOperator kind t 0 =
      swept settings volume (.operator kind t :: done) := by
  apply eq_swept
  · intro s
    rw [writeOperator, operator_modifyOperator, pitch_swept]
    by_cases hs : s = t
    · subst hs
      rw [if_pos rfl, operator_swept]
      cases kind with
      | tone =>
        simp [Operator.swept, Operator.writeTone, Operator.retune, Operator.multiples, Byte.low,
          Byte.bit, Operator.zero, Tuning.keyCode_zero]
      | level =>
        simp [Operator.swept, Operator.writeLevel, Operator.attenuate, Operator.kslShifts,
          Tuning.zero, Operator.zero]
      | attackDecay =>
        simp [Operator.swept, Operator.writeAttackDecay, Byte.low, Byte.high, Rate.code,
          Operator.zero, Rate.attackOfIndex_zero, Rate.ofIndex_zero]
      | sustainRelease =>
        simp [Operator.swept, Operator.writeSustainRelease, Operator.sustainLevels, Byte.low,
          Byte.high, Rate.code, Operator.zero, Rate.ofIndex_zero]
      | waveform =>
        simp [Operator.swept, Operator.writeWaveform, Operator.effectiveWaveform, Operator.zero]
    · simp [hs, Operator.swept]
  · intro ch
    exact (channel_modifyOperator ..).trans (channel_swept ..)
  · intro ch
    simp [writeOperator]
  · simp [writeOperator]

theorem swept_cons {r : Register} (operators : ∀ kind s, r ≠ .operator kind s)
    (connections : ∀ ch, r ≠ .channel .connection ch) :
    swept settings volume (r :: done) = swept settings volume done := by
  have operators (kind) (s : Slot) : Register.operator kind s ∈ r :: done ↔ .operator kind s ∈ done := by
    simp [(operators kind s).symm]
  have connections (ch : ChannelId) :
      Register.channel .connection ch ∈ r :: done ↔ .channel .connection ch ∈ done := by
    simp [(connections ch).symm]
  apply eq_swept <;> simp [Operator.swept, operators, connections]

theorem setBlockFnum_swept (ch : ChannelId) :
    (swept settings volume done).setBlockFnum ch 0 = swept settings volume done := by
  rw [setBlockFnum, tuning_swept]
  exact if_pos rfl

theorem setKey_swept (source : KeySource) (s : Slot) :
    (Operator.swept settings volume done s).setKey source false =
      Operator.swept settings volume done s := by
  rw [Operator.setKey_eq]
  cases source <;> rfl

theorem setConnection_swept (ch : ChannelId) :
    (swept settings volume done).setConnection ch 0 =
      swept settings volume (.channel .connection ch :: done) := by
  let r : Register := .channel .connection ch
  have mode : ((swept settings volume done).put r 0).opl3Mode = false := by
    rw [opl3Mode_put, if_neg (by simp [r])]
    rfl
  have connections (d : ChannelId) : ((swept settings volume done).put r 0).connection d = false := by
    rw [connection_put, connection_swept]
    exact ite_self _
  apply eq_swept
  · intro s
    have fed : (swept settings volume done).putOperator r 0 s (Operator.swept settings volume done s) =
        Operator.swept settings volume done s := by
      simp only [putOperator, r]
      exact ite_self _
    rw [operator_setConnection, operator_swept, fed, leader_swept, leader_swept,
      route_of_alone (activePair?_of_opl2 mode _), connections]
    by_cases hs : s.channel = ch
    · simp [Operator.swept, hs]
    · simp [Operator.swept, hs]
  · simp
  · intro d
    rw [pan_setConnection, pan_swept]
    by_cases hd : d = ch
    · have both : (swept settings volume done).panOf 0 = ⟨true, true⟩ := rfl
      simp [hd, both]
    · simp [hd]
  · simp

theorem writeRhythm_swept :
    (swept settings volume done).writeRhythm 0 = swept settings volume done := by
  apply eq_swept
  · intro s
    rw [writeRhythm, operator_mapOperators]
    cases rhythmBit? s with
    | none => simp [swept, operator]
    | some i =>
      have off : ((0 : Byte).bit 5 && (0 : Byte).bit i) = false := rfl
      simp only [off]
      rw [← setKey_swept .rhythm s]
      simp [swept, operator]
  · intro ch
    rw [writeRhythm, channel_mapOperators]
    exact channel_swept settings volume done ch
  · intro ch
    rw [writeRhythm, pan_mapOperators]
    exact pan_swept settings volume done ch
  · rw [writeRhythm, globals_mapOperators]
    simp [swept, globals, zero, Byte.bit]

theorem setFourOpEnable_swept :
    (swept settings volume done).setFourOpEnable 0 = swept settings volume done := by
  unfold setFourOpEnable settle
  apply eq_swept
  · intro s
    rw [operator_mapOperators, toggled_of_opl2 rfl rfl]
    simp only [operator]
    exact operator_swept ..
  · intro ch
    rw [channel_mapOperators]
    have off (p : Pair) : (0 : Byte).bit p = false := by simp [Byte.bit]
    simp only [channel, Fin.getElem_fin, Vector.getElem_ofFn]
    cases Pair.startingAt? ch <;> simp [swept, zero, Channel.zero, off]
  · intro ch
    rw [pan_mapOperators]
    simp only [pan]
    exact pan_swept ..
  · rw [globals_mapOperators]
    simp [globals, swept, zero]

theorem store_swept (r : Register) :
    (swept settings volume done).store r 0 = swept settings volume (r :: done) := by
  cases r with
  | noteSelect =>
    rw [swept_cons (by simp) (by simp)]
    rfl
  | operator kind s => exact writeOperator_swept kind s
  | channel kind ch =>
    cases kind with
    | fnumLow =>
      rw [swept_cons (by simp) (by simp), store, writeChannel, tuning_swept]
      exact setBlockFnum_swept ch
    | keyBlock =>
      have released : (swept settings volume done).setKey ch false = swept settings volume done := by
        apply eq_swept <;> simp [setKey, setKey_swept]
      rw [swept_cons (by simp) (by simp), store, writeChannel, tuning_swept]
      change ((swept settings volume done).setKey ch false).setBlockFnum ch 0 = _
      rw [released]
      exact setBlockFnum_swept ch
    | connection => exact setConnection_swept ch
  | rhythm =>
    rw [swept_cons (by simp) (by simp)]
    exact writeRhythm_swept
  | fourOpEnable =>
    rw [swept_cons (by simp) (by simp)]
    exact setFourOpEnable_swept
  | opl3Enable =>
    rw [swept_cons (by simp) (by simp)]
    rfl

/-- After zeros the registers written are all that counts, in whatever order. -/
theorem writeAll_swept {ws : List RegisterWrite} (zeros : ∀ w ∈ ws, w.value = 0) :
    ∃ all, (swept settings volume done).writeAll ws = swept settings volume all ∧
      ∀ r, r ∈ all ↔ r ∈ done ∨ ∃ w ∈ ws, Register.ofAddress? w.address = some r := by
  induction ws generalizing done with
  | nil => exact ⟨done, rfl, by simp⟩
  | cons w ws ih =>
    have zero : w.value = 0 := zeros w List.mem_cons_self
    have zeros : ∀ u ∈ ws, u.value = 0 := fun u hu => zeros u (List.mem_cons_of_mem _ hu)
    rw [writeAll_cons, write, zero]
    cases h : Register.ofAddress? w.address with
    | none =>
      obtain ⟨all, written, members⟩ := ih zeros
      refine ⟨all, written, fun r => ?_⟩
      simp [members, h]
    | some q =>
      obtain ⟨all, written, members⟩ := @ih (q :: done) zeros
      refine ⟨all, ?_, fun r => ?_⟩
      · simp only [store_swept, written]
      · simp only [members, List.mem_cons, exists_eq_or_imp, h, Option.some.injEq, eq_comm (a := q)]
        rw [or_assoc, or_left_comm]

theorem mem_downward {first last : Nat} (bound : last < 65536) {a : UInt16} :
    a ∈ downward first last ↔ first ≤ a.toNat ∧ a.toNat ≤ last := by
  simp only [downward, List.mem_reverse, List.mem_map, List.mem_range]
  constructor
  · rintro ⟨i, hi, rfl⟩
    rw [UInt16.toNat_ofNat_of_lt' (by show _ < 65536; omega)]
    omega
  · intro h
    refine ⟨a.toNat - first, by omega, ?_⟩
    rw [Nat.add_sub_cancel' h.1, UInt16.ofNat_toNat]

theorem mem_resetWrites {a : UInt16} :
    ⟨a, 0⟩ ∈ resetWrites ↔
      0x20 ≤ a.toNat ∧ a.toNat ≤ 0xFF ∨ 0x120 ≤ a.toNat ∧ a.toNat ≤ 0x1FF := by
  simp only [resetWrites, List.mem_map, List.mem_append, RegisterWrite.mk.injEq, and_true,
    exists_eq_right, mem_downward (show 0xFF < 65536 by decide),
    mem_downward (show 0x1FF < 65536 by decide)]

theorem address_operator_mem (kind : OperatorRegister) (s : Slot) :
    ⟨(Register.operator kind s).address, 0⟩ ∈ resetWrites := by
  rw [mem_resetWrites]
  revert s
  cases kind <;> decide

theorem address_connection_mem (ch : ChannelId) :
    ⟨(Register.channel .connection ch).address, 0⟩ ∈ resetWrites := by
  rw [mem_resetWrites]
  revert ch
  decide

/-- The chip that a reset leaves: every channel on both sides and routed by itself, every
operator silent, and all else clear but the values that a zero stands for. -/
def idle (settings : Settings) : Chip :=
  { zero settings with
    operators := .ofFn (Operator.idle settings)
    pans := .replicate 18 ⟨true, true⟩ }

@[simp] theorem operator_idle (s : Slot) :
    (idle settings).operator s = Operator.idle settings s := by
  simp [idle, operator]

@[simp] theorem channel_idle (ch : ChannelId) : (idle settings).channel ch = .zero := by
  simp [idle, channel, zero]

@[simp] theorem pan_idle (ch : ChannelId) : (idle settings).pan ch = ⟨true, true⟩ := by
  simp [idle, pan]

@[simp] theorem globals_idle : (idle settings).globals = (zero settings).globals := by
  simp [idle, globals, zero]

theorem swept_eq_idle (operators : ∀ kind s, .operator kind s ∈ done)
    (connections : ∀ ch, .channel .connection ch ∈ done) :
    swept settings Operator.silentVolume done = idle settings := by
  symm
  apply eq_swept
  · intro s
    simp only [operator_idle, Operator.idle, Operator.swept, operators, connections, if_true]
  · simp
  · simp [connections]
  · simp

theorem value_of_mem_resetWrites {w : RegisterWrite} (h : w ∈ resetWrites) : w.value = 0 := by
  obtain ⟨a, -, rfl⟩ := List.mem_map.mp h
  rfl

theorem swept_of_resetWrites (written : ∀ r : Register, ⟨r.address, 0⟩ ∈ resetWrites → r ∈ done) :
    swept settings Operator.silentVolume done = idle settings :=
  swept_eq_idle (fun kind s => written _ (address_operator_mem kind s))
    fun ch => written _ (address_connection_mem ch)

theorem store_idle (r : Register) : (idle settings).store r 0 = idle settings := by
  let done := resetWrites.filterMap fun w => Register.ofAddress? w.address
  have written (q : Register) (h : ⟨q.address, 0⟩ ∈ resetWrites) : q ∈ done :=
    List.mem_filterMap.mpr ⟨_, h, Register.ofAddress?_address q⟩
  calc
    (idle settings).store r 0 = (swept settings Operator.silentVolume done).store r 0 := by
      rw [swept_of_resetWrites written]
    _ = swept settings Operator.silentVolume (r :: done) := store_swept r
    _ = idle settings := swept_of_resetWrites fun q h => List.mem_cons_of_mem r (written q h)

theorem write_idle (a : UInt16) : (idle settings).write a 0 = idle settings := by
  cases named : Register.ofAddress? a with
  | none => rw [write_of_none named]
  | some r => rw [write_of_some named, store_idle]

theorem writeAll_idle {ws : List RegisterWrite} (zeros : ∀ w ∈ ws, w.value = 0) :
    (idle settings).writeAll ws = idle settings := by
  induction ws with
  | nil => rfl
  | cons w ws ih =>
    rw [writeAll_cons, zeros w List.mem_cons_self, write_idle,
      ih fun u member => zeros u (List.mem_cons_of_mem _ member)]

theorem zero_eq_swept : zero settings = swept settings 0 [] := by
  apply eq_swept
  · intro s
    simp [operator, zero, Operator.swept, Operator.zero]
  · intro ch
    simp [channel, zero]
  · intro ch
    simp [pan, zero]
  · rfl

theorem silence_swept :
    (swept settings volume done).silence = swept settings Operator.silentVolume done := by
  apply eq_swept
  · intro s
    rw [silence, operator_mapOperators, operator_swept]
    rfl
  · simp [silence]
  · simp [silence]
  · simp [silence]

theorem reset_eq (c : Chip) : c.reset = idle c.settings := by
  obtain ⟨all, holds, members⟩ :=
    @writeAll_swept c.settings 0 [] _ fun _ => value_of_mem_resetWrites
  rw [reset, zero_eq_swept, holds, silence_swept]
  exact swept_of_resetWrites fun r h =>
    (members r).mpr (.inr ⟨_, h, Register.ofAddress?_address r⟩)

theorem fresh_eq : fresh settings = idle settings :=
  reset_eq (zero settings)

/-- Whatever a chip was before, a reset leaves nothing of it but the settings. Every field has the
value given here, and zeros written to any registers, in any order, change none of them. -/
theorem reset_exact (c : Chip) :
    c.reset =
      { operators := .ofFn fun s : Slot =>
          { multiple := c.settings.pitchCoef
            ksrShift := 2
            sustained := false
            vibrato := false
            feedback := 0
            connection := false
            waveformNumber := 0
            waveform := 0
            attackCode := 0
            decayCode := 0
            releaseCode := 0
            sustainLevel := 0
            ksr := 0
            attack := ⟨0, 112⟩
            decay := ⟨0, 112⟩
            release := ⟨0, 112⟩
            totalLevel := 0
            kslShift := 31
            am := false
            attenuation := 0
            phase := 0
            increment := 0
            key := ⟨false, false⟩
            envelope := .off
            volume := 511
            destination := if s.index = 0 then .phaseModA else .output s.channel }
        channels := .replicate 18 ⟨⟨0, 0, 0⟩, false, 0⟩
        pans := .replicate 18 ⟨true, true⟩
        phaseModA := 0
        phaseModB := 0
        opl3Mode := false
        rhythmMode := false
        amDepth := false
        vibratoDepth := false
        noteSelectValue := 0
        address := 0
        settings := c.settings } ∧
    (∀ a : UInt16, c.reset.write a 0 = c.reset) ∧
    ∀ addresses : List UInt16, c.reset.writeAll (addresses.map (⟨·, 0⟩)) = c.reset := by
  rw [reset_eq]
  refine ⟨?_, write_idle, fun addresses => writeAll_idle fun w member => ?_⟩
  · apply eq_of_fields
    · intro s
      have routed (i : Fin 2) : (Destination.twoOp s.channel false).get i =
          if i = 0 then .phaseModA else .output s.channel := by
        match i with
        | 0 | 1 => rfl
      rw [operator_idle, Operator.idle, routed]
      simp only [operator, Fin.getElem_fin, Vector.getElem_ofFn]
      rfl
    · intro ch
      rw [channel_idle]
      simp [channel, Channel.zero, Tuning.zero]
    · intro ch
      rw [pan_idle]
      simp [pan]
    · simp [globals, idle, zero]
  · obtain ⟨a, -, rfl⟩ := List.mem_map.mp member
    rfl

end Chip

end Ymf262
