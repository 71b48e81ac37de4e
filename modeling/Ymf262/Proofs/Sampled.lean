import Ymf262.Proofs.Address
import Ymf262.Proofs.History
import Ymf262.Proofs.Range

/-! What a channel takes over at the time of a write. The key code is assembled with the note select
of the last write that changed the word, and panning with the mode of the last write to the
connection register; neither follows note select or the mode afterwards. So these fields are read
off the history of a run, and not off its registers. -/
namespace Ymf262

namespace Register

theorem ofAddress?_connection_iff {a : UInt16} (bound : a.toNat < 0x200) (ch : ChannelId) :
    ofAddress? a = some (.channel .connection ch) ↔
      a = ch.bank.address (0xC0 + ch.inBank) ∨ a = ch.bank.address (0xD0 + ch.inBank) := by
  have place := ch.inBank.isLt
  have bank := ch.bank.isLt
  have own : (channel .connection ch).address.toNat =
      256 * ch.bank.val + (0xC0 + ch.inBank.val) := toNat_address_channel .connection ch
  have other : (ch.bank.address (0xD0 + ch.inBank)).toNat =
      256 * ch.bank.val + (0xD0 + ch.inBank.val) :=
    UInt16.toNat_ofNat_of_lt' (by show _ < 65536; omega)
  have first : a = ch.bank.address (0xC0 + ch.inBank) ↔
      a.toNat = 256 * ch.bank.val + (0xC0 + ch.inBank.val) :=
    UInt16.toNat_inj.symm.trans (own ▸ Iff.rfl)
  have second : a = ch.bank.address (0xD0 + ch.inBank) ↔
      a.toNat = 256 * ch.bank.val + (0xD0 + ch.inBank.val) :=
    UInt16.toNat_inj.symm.trans (other ▸ Iff.rfl)
  rw [← canonical_eq_address_iff bound, ← UInt16.toNat_inj, own, first, second, canonical]
  split
  · rename_i upper
    rw [UInt16.toNat_sub_of_le _ _ (UInt16.le_iff_toNat_le.mpr (by show 16 ≤ _; omega))]
    show a.toNat - 16 = _ ↔ _
    omega
  · split
    · rename_i select
      have : a.toNat = 0x108 := congrArg UInt16.toNat select
      show 8 = _ ↔ _
      omega
    · omega

end Register

namespace Met

def Retunes (ch : ChannelId) (m : Met) : Prop :=
  (m.after.tuning ch).blockFnum ≠ (m.chip.tuning ch).blockFnum

instance (ch : ChannelId) : DecidablePred (Retunes ch) :=
  fun _ => inferInstanceAs (Decidable (_ ≠ _))

def Pans (ch : ChannelId) (m : Met) : Prop :=
  m.write.address = ch.bank.address (0xC0 + ch.inBank) ∨
    m.write.address = ch.bank.address (0xD0 + ch.inBank)

instance (ch : ChannelId) : DecidablePred (Pans ch) :=
  fun _ => inferInstanceAs (Decidable (_ ∨ _))

def StoresConnection (ch : ChannelId) (m : Met) : Prop :=
  Register.ofAddress? m.write.address = some (.channel .connection ch)

instance (ch : ChannelId) : DecidablePred (StoresConnection ch) :=
  fun _ => inferInstanceAs (Decidable (_ = _))

end Met

namespace Chip

variable {c : Chip} {settings : Settings}

theorem putTuning_eq_update (r : Register) (v : Byte) (ch : ChannelId) (t : Tuning) :
    c.putTuning r v ch t = t.update (c.putTuning r v ch t).blockFnum c.noteSelect := by
  have still : t = t.update t.blockFnum c.noteSelect := (if_pos rfl).symm
  cases r with
  | channel kind d =>
    by_cases hd : ch = d
    · cases kind with
      | connection => exact still
      | _ => simp only [putTuning, if_pos hd, Tuning.blockFnum_update]
    · cases kind <;> simpa only [putTuning, if_neg hd] using still
  | _ => exact still

structure Sampled (history : List Met) (c : Chip) : Prop where
  kslBase : ∀ ch, (c.tuning ch).kslBase = keyScaleLevel ((c.tuning ch).blockFnum / 64)
  keyCode : ∀ ch, (c.tuning ch).keyCode =
    match Met.last? (Met.Retunes ch) history with
    | some m => Tuning.codeOf (c.tuning ch).blockFnum m.chip.noteSelect
    | none => 0
  pan : ∀ ch, c.pan ch =
    match Met.last? (Met.StoresConnection ch) history with
    | some m => m.chip.panOf m.write.value
    | none => ⟨true, true⟩

variable {history : List Met}

theorem Sampled.idle (settings : Settings) : Sampled [] (idle settings) where
  kslBase ch := by
    rw [tuning, channel_idle]
    rfl
  keyCode ch := by
    rw [tuning, channel_idle]
    rfl
  pan ch := pan_idle ch

theorem tuning_write (coherent : c.Coherent) (w : RegisterWrite) (ch : ChannelId) :
    (c.write w.address w.value).tuning ch =
      (c.tuning ch).update ((c.write w.address w.value).tuning ch).blockFnum c.noteSelect := by
  cases named : Register.ofAddress? w.address with
  | none =>
    rw [write_of_none named]
    exact (if_pos rfl).symm
  | some r =>
    rw [write_of_some named, tuning_store coherent]
    exact putTuning_eq_update ..

theorem tuning_of_retunes (coherent : c.Coherent) {w : RegisterWrite} {ch : ChannelId}
    (another : Met.Retunes ch ⟨c, w⟩) :
    (c.write w.address w.value).tuning ch =
      .of ((c.write w.address w.value).tuning ch).blockFnum c.noteSelect :=
  (tuning_write coherent w ch).trans (if_neg (Ne.symm another))

theorem tuning_of_not_retunes (coherent : c.Coherent) {w : RegisterWrite} {ch : ChannelId}
    (same : ¬ Met.Retunes ch ⟨c, w⟩) :
    (c.write w.address w.value).tuning ch = c.tuning ch :=
  (tuning_write coherent w ch).trans (if_pos (not_not.mp same).symm)

theorem Sampled.write (h : Sampled history c) (coherent : c.Coherent) (w : RegisterWrite) :
    Sampled (history ++ [⟨c, w⟩]) (c.write w.address w.value) where
  kslBase ch := by
    by_cases another : Met.Retunes ch ⟨c, w⟩
    · exact congrArg Tuning.kslBase (tuning_of_retunes coherent another)
    · rw [tuning_of_not_retunes coherent another, h.kslBase]
  keyCode ch := by
    rw [Met.last?_concat]
    by_cases another : Met.Retunes ch ⟨c, w⟩
    · rw [if_pos another]
      exact congrArg Tuning.keyCode (tuning_of_retunes coherent another)
    · rw [if_neg another, tuning_of_not_retunes coherent another, h.keyCode]
  pan ch := by
    rw [Met.last?_concat]
    cases named : Register.ofAddress? w.address with
    | none =>
      rw [write_of_none named, if_neg (by simp [Met.StoresConnection, named]), h.pan]
    | some r =>
      have own : Met.StoresConnection ch ⟨c, w⟩ ↔ r = .channel .connection ch := by
        rw [Met.StoresConnection, named, Option.some.injEq]
      rw [write_of_some named, pan_store coherent, putPan, h.pan]
      simp only [own]
      split <;> rfl

theorem traced_sampled (settings : Settings) : Traced settings Sampled where
  idle := .idle settings
  write := fun _ _ w coherent h => h.write coherent w
  latch := fun _ _ _ h => ⟨h.kslBase, h.keyCode, h.pan⟩

theorem sampled_history (actions : List Action) :
    Sampled ((fresh settings).history actions) ((fresh settings).run actions) := by
  apply traced_run (traced_sampled settings)
  intro before t _ h
  constructor
  · intro ch
    rw [tuning_synthesize, h.kslBase]
  · intro ch
    rw [tuning_synthesize, h.keyCode]
  · intro ch
    rw [pan_synthesize, h.pan]

theorem switch_keeps (coherent : c.Coherent) {ws : List RegisterWrite}
    (switches : ∀ w ∈ ws, w.address = 0x08 ∨ w.address = 0x108 ∨ w.address = 0x105)
    (ch : ChannelId) :
    (c.writeAll ws).tuning ch = c.tuning ch ∧ (c.writeAll ws).pan ch = c.pan ch := by
  induction ws generalizing c with
  | nil => exact ⟨rfl, rfl⟩
  | cons w ws ih =>
    obtain ⟨r, named, other⟩ : ∃ r, Register.ofAddress? w.address = some r ∧
        (r = .noteSelect ∨ r = .opl3Enable) := by
      rcases switches w List.mem_cons_self with own | own | own
      · exact ⟨.noteSelect, own ▸ rfl, .inl rfl⟩
      · exact ⟨.noteSelect, own ▸ rfl, .inl rfl⟩
      · exact ⟨.opl3Enable, own ▸ rfl, .inr rfl⟩
    obtain ⟨tunings, pans⟩ := ih (coherent.write w.address w.value) fun u member =>
      switches u (List.mem_cons_of_mem _ member)
    rw [writeAll_cons, tunings, pans, write_of_some named, tuning_store coherent,
      pan_store coherent]
    rcases other with rfl | rfl
    · exact ⟨rfl, if_neg (by simp)⟩
    · exact ⟨rfl, if_neg (by simp)⟩

/-- After every run the key scale level of a channel belongs to its word; its key code was taken
with the note select that the last write to change the word met, and its panning with the mode that
the last write to its connection register met. To switch either afterwards changes nothing. -/
theorem sampled_run (settings : Settings) (actions : List Action)
    (bound : ∀ w, .write w ∈ actions → w.address.toNat ≤ 0x1FF) (ch : ChannelId) :
    let c := (fresh settings).run actions
    let history := (fresh settings).history actions
    let word := (c.tuning ch).blockFnum
    keyScaleLevels[word >>> 6]? = some (c.tuning ch).kslBase ∧
    (c.tuning ch).keyCode =
      (match Met.last? (Met.Retunes ch) history with
      | some m =>
        2 * (word >>> 10) + (word.testBit (if m.chip.noteSelect then 8 else 9)).toNat
      | none => 0) ∧
    c.pan ch =
      (match Met.last? (Met.Pans ch) history with
      | some m =>
        if m.chip.opl3Mode then ⟨m.write.value.bit 4, m.write.value.bit 5⟩ else ⟨true, true⟩
      | none => ⟨true, true⟩) ∧
    ∀ ws : List RegisterWrite,
      (∀ w ∈ ws, w.address = 0x08 ∨ w.address = 0x108 ∨ w.address = 0x105) →
      (c.writeAll ws).tuning ch = c.tuning ch ∧ (c.writeAll ws).pan ch = c.pan ch := by
  intro c history word
  obtain ⟨coherent, range⟩ := run_keeps (kept_inRange settings) actions
  have sampled : Sampled history c := sampled_history actions
  have pans : Met.last? (Met.Pans ch) history = Met.last? (Met.StoresConnection ch) history := by
    apply Met.last?_congr
    intro m member
    have within := Nat.lt_succ_of_le (address_history_le bound m member)
    exact (Register.ofAddress?_connection_iff within ch).symm
  refine ⟨?_, ?_, ?_, fun ws switches => switch_keeps coherent switches ch⟩
  · have inTable : word / 64 < 128 := by
      have : word < 8192 := (range.tunings ch).blockFnum
      omega
    rw [Nat.shiftRight_eq_div_pow, sampled.kslBase, keyScaleLevels, List.getElem?_map,
      List.getElem?_range inTable]
    rfl
  · rw [sampled.keyCode, Nat.shiftRight_eq_div_pow]
    rfl
  · rw [sampled.pan, pans]
    rfl

/-- Note select is switched after the word has been written and again after it has been repeated,
and the mode is left after panning to one side: the key code keeps bit 8 and the panning its side,
while a write outside the mode pans to both. -/
theorem sampled_run_switched :
    let actions : List Action :=
      [.write ⟨0x08, 0x40⟩, .write ⟨0xB0, 0x01⟩, .write ⟨0x08, 0⟩, .write ⟨0xB0, 0x01⟩,
        .write ⟨0x105, 1⟩, .write ⟨0xD0, 0x10⟩, .write ⟨0xC1, 0x10⟩, .write ⟨0x105, 0⟩,
        .write ⟨0xC1, 0x20⟩]
    let c := (fresh .default).run actions
    (∀ w, .write w ∈ actions → w.address.toNat ≤ 0x1FF) ∧
      (c.tuning 0).keyCode = 1 ∧ c.pan 0 = ⟨true, false⟩ ∧ c.pan 1 = ⟨true, true⟩ := by
  intro actions c
  have bound : ∀ w, .write w ∈ actions → w.address.toNat ≤ 0x1FF := by simp [actions]
  obtain ⟨-, code, first, -⟩ := sampled_run .default actions bound 0
  obtain ⟨-, -, second, -⟩ := sampled_run .default actions bound 1
  refine ⟨bound, code.trans ?_, first.trans ?_, second.trans ?_⟩
  · rw [fresh_eq]
    decide +kernel
  · rw [fresh_eq]
    decide +kernel
  · rw [fresh_eq]
    decide +kernel

end Chip

end Ymf262
