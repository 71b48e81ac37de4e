import Mathlib.Data.List.Induction
import Ymf262.Proofs.RegisterFile

/-! The last write wins. After any list of writes the chip holds the file of the last values,
where the second name of a register counts as the first and zero stands for a register that has
not been written. -/
namespace Ymf262

def lastValue (ws : List RegisterWrite) (a : UInt16) : Byte :=
  ((ws.filter fun w => Register.canonical w.address = Register.canonical a).getLast?.map
    RegisterWrite.value).getD 0

theorem lastValue_concat (ws : List RegisterWrite) (w : RegisterWrite) (a : UInt16) :
    lastValue (ws ++ [w]) a =
      if Register.canonical w.address = Register.canonical a then w.value else lastValue ws a := by
  rw [lastValue, List.filter_append]
  by_cases h : Register.canonical w.address = Register.canonical a
  · simp [h]
  · simp [h, lastValue]

namespace Chip

variable {c : Chip} {ws : List RegisterWrite}

theorem Holds.write (h : Holds (fun r => lastValue ws r.address) c) (coherent : c.Coherent)
    {w : RegisterWrite} (bound : w.address.toNat < 0x200) :
    Holds (fun r => lastValue (ws ++ [w]) r.address) (c.write w.address w.value) := by
  have reached (r : Register) : lastValue (ws ++ [w]) r.address =
      if Register.ofAddress? w.address = some r then w.value else lastValue ws r.address := by
    rw [lastValue_concat, Register.canonical_address]
    simp only [Register.canonical_eq_address_iff bound]
  rw [Chip.write]
  cases named : Register.ofAddress? w.address with
  | none => simpa only [reached, named, reduceCtorEq, if_false] using h
  | some q =>
    have file : (fun r => lastValue (ws ++ [w]) r.address) =
        written (fun r => lastValue ws r.address) q w.value := by
      ext r
      rw [reached, named, written]
      simp only [Option.some.injEq, eq_comm (a := q)]
    rw [file]
    simp only [store_eq coherent]
    exact (h.put q w.value).rederive

theorem holds_writeAll (settings : Settings) (bound : ∀ w ∈ ws, w.address.toNat < 0x200) :
    Holds (fun r => lastValue ws r.address) ((fresh settings).writeAll ws) := by
  -- From the end, where the write that counts is.
  induction ws using List.reverseRecOn with
  | nil =>
    rw [writeAll_nil, fresh_eq]
    exact holds_idle settings
  | append_singleton ws w ih =>
    have coherent : ((fresh settings).writeAll ws).Coherent := by
      rw [fresh_eq]
      exact (kept_coherent settings).writeAll (coherent_idle settings) ws
    rw [writeAll_append]
    exact (ih fun u hu => bound u (List.mem_append_left _ hu)).write coherent
      (bound w (List.mem_append_right _ (List.mem_singleton_self w)))

theorem Holds.word {file : Register → Byte} (h : Holds file c) (ch : ChannelId) :
    (c.tuning ch).blockFnum = ((file (.channel .keyBlock ch)).toNat &&& 0x1F) <<< 8 |||
      (file (.channel .fnumLow ch)).toNat := by
  have high : (file (.channel .keyBlock ch)).toNat &&& 0x1F =
      (file (.channel .keyBlock ch)).toNat % 32 := Nat.and_two_pow_sub_one_eq_mod _ 5
  rw [h.words, high, ← Nat.shiftLeft_add_eq_or_of_lt (file (.channel .fnumLow ch)).toNat_lt,
    Nat.shiftLeft_eq]

theorem Holds.modulator {file : Register → Byte} (h : Holds file c) (ch : ChannelId) :
    (c.operator ch.modulator).writeFeedback (file (.channel .connection ch)) =
      c.operator ch.modulator := by
  have value : connectionValue file ch.modulator = file (.channel .connection ch) := by
    simp [connectionValue]
  exact value ▸ h.connections ch.modulator

theorem Holds.carrier {file : Register → Byte} (h : Holds file c) (ch : ChannelId) :
    (c.operator ch.carrier).writeFeedback 0 = c.operator ch.carrier := by
  have value : connectionValue file ch.carrier = 0 := by
    rw [connectionValue, if_neg]
    intro same
    simpa using congrArg Slot.index same
  exact value ▸ h.connections ch.carrier

theorem Holds.mark {file : Register → Byte} (h : Holds file c) (p : Pair) :
    (c.channel p.primary).extended = (file .fourOpEnable).bit p := by
  rw [h.marks, putMark, if_pos rfl, Pair.startingAt?_primary]
  rfl

theorem Holds.unmarked {file : Register → Byte} (h : Holds file c) {ch : ChannelId}
    (other : ∀ p : Pair, ch ≠ p.primary) : (c.channel ch).extended = false := by
  rw [h.marks, putMark, if_pos rfl]
  cases first : Pair.startingAt? ch with
  | none => rfl
  | some p => exact (other p (Pair.eq_primary_of_startingAt? first)).elim

/-- After any list of writes, each stored field is the one that the last value of its register
gives, and the modulator alone keeps feedback and connection. -/
theorem last_write_wins (settings : Settings) (ws : List RegisterWrite)
    (bound : ∀ w ∈ ws, w.address.toNat ≤ 0x1FF) :
    let c := (fresh settings).writeAll ws
    let R := lastValue ws
    c.opl3Mode = (R 0x105).bit 0 ∧
    (∀ p : Pair, (c.channel p.primary).extended = (R 0x104).bit p) ∧
    (∀ ch, (∀ p : Pair, ch ≠ p.primary) → (c.channel ch).extended = false) ∧
    c.amDepth = (R 0xBD).bit 7 ∧
    c.vibratoOffset = (if (R 0xBD).bit 6 then 8 else 0) ∧
    c.rhythmMode = (R 0xBD).bit 5 ∧
    c.noteSelectValue = R 0x08 ∧
    (∀ (b : Bank) (n : Fin 9),
      let ch : ChannelId := .ofBank b n
      let feedback := (R (b.address (0xC0 + n))).toNat / 2 % 8
      (c.tuning ch).blockFnum = ((R (b.address (0xB0 + n))).toNat &&& 0x1F) <<< 8 |||
        (R (b.address (0xA0 + n))).toNat ∧
      (c.operator ch.modulator).feedback = (if feedback = 0 then 0 else 9 - feedback) ∧
      (c.operator ch.modulator).connection = (R (b.address (0xC0 + n))).bit 0 ∧
      (c.operator ch.carrier).feedback = 0 ∧
      (c.operator ch.carrier).connection = false) ∧
    (∀ s, ∃! place : Bank × Fin 32, (Slot.ofOffset? place.2).map (Slot.ofBank place.1) = some s) ∧
    ∀ (b : Bank) (o : Fin 32) (s : Slot), (Slot.ofOffset? o).map (Slot.ofBank b) = some s →
      (c.operator s).Decodes settings.pitchCoef fun kind => R (b.address (kind.base + o)) := by
  intro c R
  have h : Holds (fun r => R r.address) c :=
    holds_writeAll settings fun w hw => Nat.lt_succ_of_le (bound w hw)
  have own : c.settings = settings := by
    simp only [c, fresh_eq]
    exact (kept_settings settings).writeAll rfl ws
  refine ⟨h.opl3Mode, h.mark, fun _ => h.unmarked, h.amDepth, ?_, h.rhythmMode, h.noteSelect, ?_,
    Slot.place_unique, ?_⟩
  · rw [vibratoOffset, h.vibratoDepth]
    rfl
  · intro b n ch feedback
    have register (kind : ChannelRegister) :
        R (Register.channel kind ch).address = R (b.address (kind.base + n)) :=
      congrArg R (Register.address_channel kind b n)
    have modulator := h.modulator ch
    have carrier := h.carrier ch
    simp only [register] at modulator
    refine ⟨?_, (congrArg Operator.feedback modulator).symm,
      (congrArg Operator.connection modulator).symm, (congrArg Operator.feedback carrier).symm,
      (congrArg Operator.connection carrier).symm⟩
    rw [h.word, register, register]
    rfl
  · intro b o s place
    obtain ⟨t, offset, rfl⟩ := Option.map_eq_some_iff.mp place
    apply Operator.decodes_of_put
    intro kind
    rw [← Register.address_operator kind b offset, ← own]
    exact h.operators kind _

/-- The second name of a connection register overwrites the first. -/
theorem last_write_wins_alias :
    let ws : List RegisterWrite := [⟨0x105, 1⟩, ⟨0xC0, 0x31⟩, ⟨0xB0, 0x2A⟩, ⟨0xD0, 0x0E⟩]
    let o := ((fresh .default).writeAll ws).operator 0
    (∀ w ∈ ws, w.address.toNat ≤ 0x1FF) ∧ o.feedback = 2 ∧ o.connection = false := by
  intro ws o
  have bound : ∀ w ∈ ws, w.address.toNat ≤ 0x1FF := by decide
  obtain ⟨-, -, -, -, -, -, -, channels, -⟩ := last_write_wins .default ws bound
  obtain ⟨-, feedback, connection, -⟩ := channels 0 0
  exact ⟨bound, feedback.trans (by decide), connection.trans (by decide)⟩

end Chip

end Ymf262
