import Ymf262.Proofs.Coherence

/-! Register writes commute. On the stored fields alone, two registers only get in each other's
way where one is read by a write to the other, or where both key the same operators. `Steers`
lists these cases; all other writes can change places, and the derived values follow. -/
namespace Ymf262

namespace Tuning

theorem update_of_ne {t : Tuning} {blockFnum : Nat} (ne : t.blockFnum ≠ blockFnum)
    (noteSelect : Bool) : t.update blockFnum noteSelect = .of blockFnum noteSelect := if_neg ne

theorem update_update (t : Tuning) (a b : Nat) (noteSelect : Bool) :
    (t.update a noteSelect).update b noteSelect =
      if a = b then t.update b noteSelect else .of b noteSelect := by
  by_cases same : a = b
  · rw [if_pos same, same, update, blockFnum_update, if_pos rfl]
  · rw [if_neg same, update_of_ne (by rwa [blockFnum_update])]

/-- The halves of a word can be written in either order. If the word is the same in the end,
then neither half has changed it, and otherwise its key code is taken last. -/
theorem update_comm (t : Tuning) {low : Nat} (byte : low < 256) (high : Nat) (noteSelect : Bool) :
    (t.update (withLow t.blockFnum low) noteSelect).update
        (withHigh (withLow t.blockFnum low) high) noteSelect =
      (t.update (withHigh t.blockFnum high) noteSelect).update
        (withLow (withHigh t.blockFnum high) low) noteSelect := by
  have word : withLow (withHigh t.blockFnum high) low = withHigh (withLow t.blockFnum low) high := by
    simp only [withHigh, withLow]
    omega
  rw [update_update, update_update, word]
  by_cases same : t.blockFnum = withHigh (withLow t.blockFnum low) high
  · have lowSame : withLow t.blockFnum low = withHigh (withLow t.blockFnum low) high := by
      simp only [withHigh, withLow] at same ⊢
      omega
    have highSame : withHigh t.blockFnum high = withHigh (withLow t.blockFnum low) high := by
      simp only [withHigh, withLow] at same ⊢
      omega
    rw [if_pos lowSame, if_pos highSame]
  · rw [update_of_ne same, ite_self, ite_self]

end Tuning

namespace Register

/-- A write to the first register decides what a write to the second one does, or keys operators
that it keys, too. -/
def Steers : Register → Register → Prop
  | noteSelect, channel kind _ => kind ≠ .connection
  | fourOpEnable, channel .keyBlock ch => Pair.containing? ch ≠ none
  | opl3Enable, channel .keyBlock ch => Pair.containing? ch ≠ none
  | opl3Enable, channel .connection _ => True
  | rhythm, channel .keyBlock ch => 6 ≤ ch.val ∧ ch.val ≤ 8
  | _, _ => False

/-- `Steers` by addresses below 0x200. -/
def AddressSteers (a b : UInt16) : Prop :=
  let low := b.toNat % 256
  a = 0x08 ∧ (0xA0 ≤ low ∧ low ≤ 0xA8 ∨ 0xB0 ≤ low ∧ low ≤ 0xB8) ∨
  (a = 0x104 ∨ a = 0x105) ∧ 0xB0 ≤ low ∧ low ≤ 0xB5 ∨
  a = 0x105 ∧ 0xC0 ≤ low ∧ low ≤ 0xC8 ∨
  a = 0xBD ∧ 0xB6 ≤ b.toNat ∧ b.toNat ≤ 0xB8

theorem inBank_of_paired {ch : ChannelId} (paired : Pair.containing? ch ≠ none) :
    ch.inBank.val < 6 := by
  revert ch
  decide

theorem Steers.address {r q : Register} (h : r.Steers q) : AddressSteers r.address q.address := by
  cases q with
  | channel kind ch =>
    have bound := ch.inBank.isLt
    simp only [AddressSteers, toNat_address_channel]
    cases r with
    | noteSelect =>
      left
      cases kind with
      | connection => exact (h rfl).elim
      | _ => exact ⟨rfl, by simp only [ChannelRegister.base]; omega⟩
    | fourOpEnable =>
      cases kind with
      | keyBlock =>
        have paired := inBank_of_paired h
        simp only [ChannelRegister.base]
        exact .inr (.inl ⟨.inl rfl, by omega, by omega⟩)
      | _ => exact h.elim
    | opl3Enable =>
      cases kind with
      | fnumLow => exact h.elim
      | keyBlock =>
        have paired := inBank_of_paired h
        simp only [ChannelRegister.base]
        exact .inr (.inl ⟨.inr rfl, by omega, by omega⟩)
      | connection =>
        simp only [ChannelRegister.base]
        exact .inr (.inr (.inl ⟨rfl, by omega, by omega⟩))
    | rhythm =>
      cases kind with
      | keyBlock =>
        have range : 6 ≤ ch.val ∧ ch.val ≤ 8 := h
        simp only [ChannelRegister.base, ChannelId.bank, ChannelId.inBank]
        exact .inr (.inr (.inr ⟨rfl, by omega, by omega⟩))
      | _ => exact h.elim
    | _ => exact h.elim
  | _ => cases r <;> exact h.elim

def Conflict (a b : UInt16) : Prop := AddressSteers a b ∨ AddressSteers b a

end Register

namespace Chip

variable {c : Chip} {r q : Register}

theorem leader_eq_iff_of_single {ch d : ChannelId} (single : Pair.containing? ch = none) :
    c.leader d = ch ↔ d = ch := by
  cases active : c.activePair? d with
  | none => rw [leader_of_none active]
  | some p =>
    have ne : p.primary ≠ ch := by
      rintro rfl
      simp at single
    have other : d ≠ ch := by
      rintro rfl
      simp [activePair?, single] at active
    rw [leader_of_some active]
    exact iff_of_false ne other

/-! What a write reads is left alone by the writes that do not steer it. -/

theorem leads_put {ch : ChannelId} (apart : ¬ r.Steers (.channel .keyBlock ch)) (v : Byte)
    (s : Slot) : (c.put r v).leads ch s = c.leads ch s := by
  cases single : Pair.containing? ch with
  | none =>
    unfold leads
    simp only [leader_eq_iff_of_single single]
  | some p =>
    have joined : (c.put r v).joined = c.joined := by
      apply joined_put
      · rintro rfl
        simp [Register.Steers, single] at apart
      · rintro rfl
        simp [Register.Steers, single] at apart
    unfold leads
    rw [leader_congr joined]

theorem noteSelect_put (h : r ≠ .noteSelect) (v : Byte) :
    (c.put r v).noteSelect = c.noteSelect := by
  simp only [noteSelect, put, if_neg h]

theorem putOperator_put (apart : ¬ r.Steers q) (v w : Byte) (s : Slot) (o : Operator) :
    (c.put r v).putOperator q w s o = c.putOperator q w s o := by
  cases q with
  | operator kind t => simp only [putOperator, settings_put]
  | channel kind ch =>
    cases kind with
    | keyBlock => simp only [putOperator, leads_put apart]
    | _ => simp only [putOperator]
  | _ => simp only [putOperator]

theorem putTuning_put (apart : ¬ r.Steers q) (v w : Byte) (ch : ChannelId) (t : Tuning) :
    (c.put r v).putTuning q w ch t = c.putTuning q w ch t := by
  cases q with
  | channel kind d =>
    cases kind with
    | connection => simp only [putTuning]
    | _ =>
      have other : r ≠ .noteSelect := by
        rintro rfl
        simp [Register.Steers] at apart
      simp only [putTuning, noteSelect_put other]
  | _ => simp only [putTuning]

theorem putPan_put (apart : ¬ r.Steers q) (v w : Byte) (ch : ChannelId) (p : Pan) :
    (c.put r v).putPan q w ch p = c.putPan q w ch p := by
  unfold putPan
  by_cases own : q = .channel .connection ch
  · have other : r ≠ .opl3Enable := by
      rintro rfl
      simp [Register.Steers, own] at apart
    rw [if_pos own, if_pos own, panOf, panOf, opl3Mode_put, if_neg other]
  · rw [if_neg own, if_neg own]

/-! The writes themselves, field by field. -/

theorem steers_of_leads {ch : ChannelId} {s : Slot} (led : c.leads ch s)
    (rhythm : rhythmBit? s ≠ none) : Register.rhythm.Steers (.channel .keyBlock ch) := by
  obtain ⟨place, single⟩ := channel_of_rhythmBit? rhythm
  have alone : c.activePair? s.channel = none := by simp [activePair?, single]
  simp only [leads, leader_of_none alone, decide_eq_true_eq] at led
  exact led ▸ place

theorem Keys.eq_of_apart {s : Slot} (hr : c.Keys r s) (hq : c.Keys q s) (apart : ¬ r.Steers q)
    (apart' : ¬ q.Steers r) : r = q := by
  rcases hr with ⟨ch, rfl, led⟩ | ⟨rfl, rhythm⟩
  · rcases hq with ⟨d, rfl, other⟩ | ⟨rfl, rhythm⟩
    · simp only [leads, decide_eq_true_eq] at led other
      rw [← led, ← other]
    · exact (apart' (steers_of_leads led rhythm)).elim
  · rcases hq with ⟨d, rfl, led⟩ | ⟨rfl, -⟩
    · exact (apart (steers_of_leads led rhythm)).elim
    · rfl

theorem putOperator_comm (ne : r ≠ q) (apart : ¬ r.Steers q) (apart' : ¬ q.Steers r) (v w : Byte)
    (s : Slot) (o : Operator) :
    c.putOperator q w s (c.putOperator r v s o) = c.putOperator r v s (c.putOperator q w s o) := by
  have first := c.effect_putOperator r v s
  have second := c.effect_putOperator q w s
  generalize c.putOperator r v s = f at first ⊢
  generalize c.putOperator q w s = g at second ⊢
  cases first with
  | none => rfl
  | field kind hr =>
    cases second with
    | none => rfl
    | field other hq =>
      have kinds : kind ≠ other := by
        rintro rfl
        exact ne (hr.trans hq.symm)
      exact Operator.put_comm o kinds ..
    | key source on keys => exact Operator.setKey_put ..
    | feedback ch hq place => exact Operator.writeFeedback_put ..
  | key source on keys =>
    cases second with
    | none => rfl
    | field kind hq => exact (Operator.setKey_put ..).symm
    | key other off clash => exact absurd (keys.eq_of_apart clash apart apart') ne
    | feedback ch hq place => exact Operator.writeFeedback_setKey ..
  | feedback ch hr place =>
    cases second with
    | none => rfl
    | field kind hq => exact (Operator.writeFeedback_put ..).symm
    | key source on keys => exact (Operator.writeFeedback_setKey ..).symm
    | feedback d hq other =>
      have same : ch = d := ChannelId.modulator_inj.mp (place.symm.trans other)
      exact absurd (hr.trans (same ▸ hq.symm)) ne

theorem putTuning_halves_comm (ch : ChannelId) (v w : Byte) (t : Tuning) :
    c.putTuning (.channel .keyBlock ch) w ch (c.putTuning (.channel .fnumLow ch) v ch t) =
      c.putTuning (.channel .fnumLow ch) v ch (c.putTuning (.channel .keyBlock ch) w ch t) := by
  simp only [putTuning, if_true, Tuning.blockFnum_update]
  exact Tuning.update_comm t v.toNat_lt w.toNat c.noteSelect

theorem putTuning_comm (ne : r ≠ q) (v w : Byte) (ch : ChannelId) (t : Tuning) :
    c.putTuning q w ch (c.putTuning r v ch t) = c.putTuning r v ch (c.putTuning q w ch t) := by
  cases r with
  | channel kind d =>
    by_cases hd : ch = d
    · subst hd
      cases q with
      | channel other e =>
        by_cases he : ch = e
        · subst he
          cases kind with
          | fnumLow =>
            cases other with
            | fnumLow => exact absurd rfl ne
            | keyBlock => exact putTuning_halves_comm ch v w t
            | connection => simp only [putTuning]
          | keyBlock =>
            cases other with
            | fnumLow => exact (putTuning_halves_comm ch w v t).symm
            | keyBlock => exact absurd rfl ne
            | connection => simp only [putTuning]
          | connection => simp only [putTuning]
        · cases other <;> simp only [putTuning, if_neg he]
      | _ => simp only [putTuning]
    · cases kind <;> simp only [putTuning, if_neg hd]
  | _ => simp only [putTuning]

theorem putMark_comm (ne : r ≠ q) (v w : Byte) (ch : ChannelId) (extended : Bool) :
    putMark q w ch (putMark r v ch extended) = putMark r v ch (putMark q w ch extended) := by
  by_cases hr : r = .fourOpEnable
  · have hq : q ≠ .fourOpEnable := fun hq => ne (hr.trans hq.symm)
    simp only [putMark, if_neg hq]
  · simp only [putMark, if_neg hr]

theorem putPan_comm (ne : r ≠ q) (v w : Byte) (ch : ChannelId) (p : Pan) :
    c.putPan q w ch (c.putPan r v ch p) = c.putPan r v ch (c.putPan q w ch p) := by
  by_cases hr : r = .channel .connection ch
  · have hq : q ≠ .channel .connection ch := fun hq => ne (hr.trans hq.symm)
    simp only [putPan, if_neg hq]
  · simp only [putPan, if_neg hr]

theorem globals_put_comm (ne : r ≠ q) (v w : Byte) :
    ((c.put r v).put q w).globals = ((c.put q w).put r v).globals := by
  have flip {α : Type} (g : Register) (a b x : α) :
      (if q = g then b else if r = g then a else x) =
        if r = g then a else if q = g then b else x := by
    by_cases hr : r = g
    · have hq : q ≠ g := fun hq => ne (hr.trans hq.symm)
      rw [if_neg hq, if_pos hr, if_pos hr]
    · rw [if_neg hr, if_neg hr]
  simp only [globals, put, flip]

theorem put_comm (ne : r ≠ q) (apart : ¬ r.Steers q) (apart' : ¬ q.Steers r) (v w : Byte) :
    (c.put r v).put q w = (c.put q w).put r v := by
  -- First the reads, which each write takes from the other's result, then the writes.
  apply eq_of_fields
  · intro s
    rw [operator_put, operator_put, operator_put, operator_put, putOperator_put apart,
      putOperator_put apart', putOperator_comm ne apart apart']
  · intro ch
    simp only [channel_put, tuning_put]
    rw [putTuning_put apart, putTuning_put apart', putTuning_comm ne, putMark_comm ne]
  · intro ch
    rw [pan_put, pan_put, pan_put, pan_put, putPan_put apart, putPan_put apart', putPan_comm ne]
  · exact globals_put_comm ne v w

/-! Derived values have no part in this: a write takes none of them over. -/

theorem putOperator_derive_derive (v : Byte) (s : Slot) (o : Operator) (x y : Context) :
    (c.putOperator r v s (o.derive x)).derive y = (c.putOperator r v s o).derive y := by
  have effect := c.effect_putOperator r v s
  generalize c.putOperator r v s = f at effect ⊢
  cases effect with
  | none field feedback => rfl
  | field kind own => exact Operator.derive_put_derive ..
  | key source on keys => simp only [Operator.setKey_derive, Operator.derive_derive]
  | feedback ch own place => rfl

theorem putOperator_rederive (v : Byte) (s : Slot) (o : Operator) :
    c.rederive.putOperator r v s o = c.putOperator r v s o := by
  have leads (ch : ChannelId) : c.rederive.leads ch s = c.leads ch s := by
    unfold leads
    rw [leader_congr (joined_rederive c)]
  have settings : c.rederive.settings = c.settings := settings_mapOperators _
  cases r with
  | operator kind t => simp only [putOperator, settings]
  | channel kind ch => cases kind <;> simp only [putOperator, leads]
  | _ => simp only [putOperator]

theorem putTuning_rederive (v : Byte) (ch : ChannelId) (t : Tuning) :
    c.rederive.putTuning r v ch t = c.putTuning r v ch t := by
  have noteSelect : c.rederive.noteSelect = c.noteSelect := by
    simp only [noteSelect, rederive, mapOperators]
  cases r with
  | channel kind d => cases kind <;> simp only [putTuning, noteSelect]
  | _ => simp only [putTuning]

theorem channel_put_rederive (v : Byte) (ch : ChannelId) :
    (c.rederive.put r v).channel ch = (c.put r v).channel ch := by
  simp only [channel_put, channel_rederive, putTuning_rederive, tuning_rederive]

theorem context_put_rederive (v : Byte) : (c.rederive.put r v).context = (c.put r v).context := by
  have mode : (c.rederive.put r v).opl3Mode = (c.put r v).opl3Mode := by
    rw [opl3Mode_put, opl3Mode_put, opl3Mode_rederive]
  apply context_congr mode (joined_congr mode fun ch => congrArg _ (channel_put_rederive v ch))
  · ext ch
    unfold tuning
    rw [channel_put_rederive]
  · ext ch
    rw [connection_put, connection_put, connection_rederive]

theorem rederive_put (v : Byte) : (c.rederive.put r v).rederive = (c.put r v).rederive := by
  apply eq_rederive_put
  · intro s
    rw [operator_rederive, operator_put, putOperator_rederive, operator_rederive,
      context_put_rederive, putOperator_derive_derive]
  · intro ch
    rw [channel_rederive, channel_put_rederive]
  · intro ch
    have pan : c.rederive.pan ch = c.pan ch := pan_mapOperators ..
    rw [rederive, pan_mapOperators, pan_put, pan, putPan, putPan, panOf, panOf, opl3Mode_rederive]
  · rw [rederive, globals_mapOperators]
    simp only [globals, put, rederive, mapOperators]

theorem store_store (coherent : c.Coherent) (v w : Byte) :
    (c.store r v).store q w = ((c.put r v).put q w).rederive := by
  rw [store_eq (coherent.store r v), store_eq coherent, rederive_put]

theorem store_comm (coherent : c.Coherent) (ne : r ≠ q) (apart : ¬ r.Steers q)
    (apart' : ¬ q.Steers r) (v w : Byte) :
    (c.store r v).store q w = (c.store q w).store r v := by
  rw [store_store coherent, store_store coherent, put_comm ne apart apart']

/-- After any run, writes to two registers that do not conflict can change places, to the last
field of the chip. -/
theorem write_comm_run (settings : Settings) (actions : List Action) {a b : UInt16} (v w : Byte)
    (aBound : a.toNat ≤ 0x1FF) (bBound : b.toNat ≤ 0x1FF)
    (ne : Register.canonical a ≠ Register.canonical b)
    (apart : ¬ Register.Conflict (Register.canonical a) (Register.canonical b)) :
    let c := (fresh settings).run actions
    (c.write a v).write b w = (c.write b w).write a v := by
  intro c
  have coherent : c.Coherent := run_keeps (kept_coherent settings) actions
  cases first : Register.ofAddress? a with
  | none => rw [write_of_none first, write_of_none first]
  | some r =>
    cases second : Register.ofAddress? b with
    | none => rw [write_of_none second, write_of_none second]
    | some q =>
      rw [Register.canonical_of_ofAddress? (Nat.lt_succ_of_le aBound) first,
        Register.canonical_of_ofAddress? (Nat.lt_succ_of_le bBound) second] at ne apart
      rw [write_of_some first, write_of_some second, write_of_some second, write_of_some first]
      have other : r ≠ q := fun same => ne (congrArg _ same)
      exact store_comm coherent other (fun steers => apart (.inl steers.address))
        (fun steers => apart (.inr steers.address)) v w

/-- The connections of both halves of a joined pair, one under its second name. -/
theorem write_comm_run_pair :
    let c := (fresh .default).run [.write ⟨0x105, 1⟩, .write ⟨0x104, 1⟩]
    (c.write 0xC0 1).write 0xD3 0x2F = (c.write 0xD3 0x2F).write 0xC0 1 :=
  write_comm_run .default _ 1 0x2F (by decide) (by decide) (by decide) (by
    unfold Register.Conflict Register.AddressSteers
    decide)

end Chip

end Ymf262
