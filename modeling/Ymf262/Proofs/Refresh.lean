import Ymf262.Proofs.Put

/-! On a coherent chip a register write stores its fields and brings every derived value up to
date. Each register is taken by itself: a write refreshes a few operators, and the others keep
their context. The main statement is `store_eq`; with it a write keeps a chip coherent. -/
namespace Ymf262

namespace Operator

def write (o : Operator) (x : Context) (kind : OperatorRegister) (k : UInt32) (v : Byte) :
    Operator :=
  match kind with
  | .tone => (o.writeTone k v).retune x.pitch
  | .level => (o.writeLevel v).attenuate x.pitch
  | .attackDecay => o.writeAttackDecay v
  | .sustainRelease => o.writeSustainRelease v
  | .waveform => o.writeWaveform x.opl3Mode v

theorem write_derive (o : Operator) (x : Context) (kind : OperatorRegister) (k : UInt32)
    (v : Byte) : (o.derive x).write x kind k v = (o.put kind k v).derive x := by
  cases kind with
  | tone => exact retune_eq rfl x.pitch
  | _ => rfl

theorem derive_place {o : Operator} {x : Context} (h : o.derive x = o) (d : Destination) :
    o.derive { x with place := d } = { o with destination := d } :=
  congrArg (fun p : Operator => { p with destination := d }) h

theorem writeFeedback_derive (o : Operator) (x : Context) (v : Byte) :
    (o.derive x).writeFeedback v = (o.writeFeedback v).derive x := rfl

end Operator

namespace Chip

variable {c : Chip}

/-- Outside the registers that shape voices, a write reaches a context by the tuning of the
leader only. -/
theorem context_put {r : Register} {v : Byte} (mode : r ≠ .opl3Enable)
    (marks : r ≠ .fourOpEnable) (connections : ∀ ch, r ≠ .channel .connection ch) (s : Slot) :
    (c.put r v).context s =
      { c.context s with pitch := c.putTuning r v (c.leader s.channel) (c.pitch s.channel) } := by
  have joined := joined_put (c := c) (v := v) mode marks
  have routes : (c.put r v).route = c.route := by
    apply route_congr joined
    ext ch
    rw [connection_put, if_neg (connections ch)]
  rw [context, opl3Mode_put, if_neg mode, routes, pitch, leader_congr joined, tuning_put]
  rfl

theorem channel_put_of {r : Register} {v : Byte} {ch : ChannelId} (marks : r ≠ .fourOpEnable)
    (tunings : ∀ ch t, c.putTuning r v ch t = t) : (c.put r v).channel ch = c.channel ch := by
  rw [channel_put, tunings, putMark, if_neg marks, tuning]

theorem storeNoteSelect_eq (h : c.Coherent) (v : Byte) :
    { c with noteSelectValue := v } = (c.put .noteSelect v).rederive := by
  apply eq_rederive_put
  · intro s
    rw [context_put (by simp) (by simp) (by simp)]
    exact (h s).symm
  · intro ch
    rw [channel_put_of (by simp) fun _ _ => rfl]
    simp only [channel]
  · simp [pan, putPan]
  · simp [globals, put]

theorem writeOperator_eq_modify (kind : OperatorRegister) (s : Slot) (v : Byte) :
    c.writeOperator kind s v =
      c.modifyOperator s (·.write (c.context s) kind c.settings.pitchCoef v) := by
  cases kind <;> rfl

theorem writeOperator_eq (h : c.Coherent) (kind : OperatorRegister) (t : Slot) (v : Byte) :
    c.writeOperator kind t v = (c.put (.operator kind t) v).rederive := by
  apply eq_rederive_put
  · intro s
    rw [context_put (by simp) (by simp) (by simp), writeOperator_eq_modify,
      operator_modifyOperator, putOperator]
    change _ = Operator.derive _ (c.context s)
    by_cases hs : s = t
    · subst hs
      rw [if_pos rfl, if_pos rfl, ← Operator.write_derive, h s]
    · rw [if_neg hs, if_neg hs, h s]
  · intro ch
    rw [channel_put_of (by simp) fun _ _ => rfl]
    exact channel_modifyOperator ..
  · simp [pan, putPan, writeOperator, modifyOperator]
  · simp [globals, put, writeOperator, modifyOperator]

theorem context_mapOperators {f : Slot → Operator → Operator}
    (keeps : ∀ s o, (f s o).connection = o.connection) : (c.mapOperators f).context = c.context := by
  apply context_congr (opl3Mode_mapOperators c f) (joined_mapOperators c f)
  · ext ch
    unfold tuning
    rw [channel_mapOperators]
  · ext ch
    unfold connection
    rw [operator_mapOperators, keeps]

theorem operator_setBlockFnum (h : c.Coherent) (ch : ChannelId) (blockFnum : Nat) (s : Slot) :
    (c.setBlockFnum ch blockFnum).operator s =
      (c.operator s).derive
        { c.context s with
          pitch :=
            if c.leader s.channel = ch then (c.pitch s.channel).update blockFnum c.noteSelect
            else c.pitch s.channel } := by
  rw [setBlockFnum]
  by_cases led : c.leader s.channel = ch
  · have pitch : c.pitch s.channel = c.tuning ch := by rw [Chip.pitch, led]
    rw [if_pos led, pitch, Tuning.update]
    by_cases same : (c.tuning ch).blockFnum = blockFnum
    · rw [if_pos same, if_pos same, ← pitch]
      exact (h s).symm
    · rw [if_neg same, if_neg same, operator_mapOperators, operator_setTuning, leads,
        if_pos (by simpa using led), ← Operator.follow_derive, h s]
  · rw [if_neg led]
    by_cases same : (c.tuning ch).blockFnum = blockFnum
    · rw [if_pos same]
      exact (h s).symm
    · rw [if_neg same, operator_mapOperators, operator_setTuning, leads,
        if_neg (by simpa using led)]
      exact (h s).symm

theorem channel_setBlockFnum (ch d : ChannelId) (blockFnum : Nat) :
    (c.setBlockFnum ch blockFnum).channel d =
      { c.channel d with
        tuning :=
          if d = ch then (c.tuning d).update blockFnum c.noteSelect else c.tuning d } := by
  rw [setBlockFnum]
  by_cases same : (c.tuning ch).blockFnum = blockFnum
  · rw [if_pos same]
    by_cases hd : d = ch
    · rw [if_pos hd, Tuning.update, hd, if_pos same, tuning]
    · rw [if_neg hd, tuning]
  · rw [if_neg same, channel_mapOperators, channel_setTuning]
    by_cases hd : d = ch
    · rw [if_pos hd, if_pos hd, Tuning.update, hd, if_neg same]
    · rw [if_neg hd, if_neg hd, tuning]

@[simp] theorem pan_setBlockFnum (ch d : ChannelId) (blockFnum : Nat) :
    (c.setBlockFnum ch blockFnum).pan d = c.pan d := by
  rw [setBlockFnum]
  split
  · rfl
  · simp [pan, setTuning, mapOperators]

@[simp] theorem globals_setBlockFnum (ch : ChannelId) (blockFnum : Nat) :
    (c.setBlockFnum ch blockFnum).globals = c.globals := by
  rw [setBlockFnum]
  split
  · rfl
  · simp [globals, setTuning, mapOperators]

theorem storeFnumLow_eq (h : c.Coherent) (ch : ChannelId) (v : Byte) :
    c.setBlockFnum ch (Tuning.withLow (c.tuning ch).blockFnum v.toNat) =
      (c.put (.channel .fnumLow ch) v).rederive := by
  apply eq_rederive_put
  · intro s
    rw [context_put (by simp) (by simp) (by simp), operator_setBlockFnum h]
    simp only [putOperator, putTuning]
    by_cases led : c.leader s.channel = ch
    · rw [if_pos led, if_pos led, pitch, led]
    · rw [if_neg led, if_neg led]
  · intro d
    rw [channel_setBlockFnum, channel_put, putTuning, putMark]
    by_cases hd : d = ch
    · subst hd
      simp
    · simp [hd]
  · simp [putPan]
  · rw [globals_setBlockFnum]
    simp [globals, put]

theorem context_setKey (ch : ChannelId) (on : Bool) : (c.setKey ch on).context = c.context := by
  apply context_mapOperators
  intro s o
  split
  · exact Operator.connection_setKey ..
  · rfl

theorem coherent_setKey (h : c.Coherent) (ch : ChannelId) (on : Bool) :
    (c.setKey ch on).Coherent := by
  intro s
  rw [context_setKey, setKey, operator_mapOperators]
  split
  · rw [← Operator.setKey_derive, h s]
  · exact h s

theorem noteSelect_setKey (ch : ChannelId) (on : Bool) :
    (c.setKey ch on).noteSelect = c.noteSelect := by
  simp only [noteSelect, setKey, mapOperators]

theorem storeKeyBlock_eq (h : c.Coherent) (ch : ChannelId) (v : Byte) :
    (c.setKey ch (v.bit 5)).setBlockFnum ch
        (Tuning.withHigh (c.tuning ch).blockFnum v.toNat) =
      (c.put (.channel .keyBlock ch) v).rederive := by
  have joined : (c.setKey ch (v.bit 5)).joined = c.joined := joined_mapOperators c _
  apply eq_rederive_put
  · intro s
    rw [context_put (by simp) (by simp) (by simp), operator_setBlockFnum (coherent_setKey h ch _),
      context_setKey, leader_congr joined, noteSelect_setKey, setKey, pitch_mapOperators,
      operator_mapOperators]
    simp only [putOperator, putTuning]
    by_cases led : c.leader s.channel = ch
    · rw [if_pos led, if_pos led, pitch, led]
    · rw [if_neg led, if_neg led]
  · intro d
    rw [channel_setBlockFnum, noteSelect_setKey, tuning, setKey, channel_mapOperators,
      channel_put, putTuning, putMark]
    by_cases hd : d = ch
    · subst hd
      simp [tuning]
    · simp [hd, tuning]
  · simp [putPan, setKey]
  · rw [globals_setBlockFnum, setKey, globals_mapOperators]
    simp [globals, put]

theorem writeRhythm_eq (h : c.Coherent) (v : Byte) :
    c.writeRhythm v = (c.put .rhythm v).rederive := by
  apply eq_rederive_put
  · intro s
    rw [context_put (by simp) (by simp) (by simp), writeRhythm, operator_mapOperators,
      putOperator]
    change _ = Operator.derive _ (c.context s)
    cases rhythmBit? s with
    | none => exact (h s).symm
    | some i =>
      simp only
      rw [← Operator.setKey_derive, h s]
      rfl
  · intro ch
    rw [channel_put_of (by simp) fun _ _ => rfl, writeRhythm, channel_mapOperators]
    simp only [channel]
  · simp [putPan, pan, writeRhythm, mapOperators]
  · simp [globals, put, writeRhythm, mapOperators]

theorem operator_setConnection (ch : ChannelId) (v : Byte) (s : Slot) :
    (c.setConnection ch v).operator s =
      let o := c.putOperator (.channel .connection ch) v s (c.operator s)
      if c.leader s.channel = c.leader ch then
        { o with destination := (c.put (.channel .connection ch) v).route s }
      else o := by
  let written := (c.setPan ch (c.panOf v)).modifyOperator ch.modulator (·.writeFeedback v)
  have joined : written.joined = c.joined := by
    apply joined_congr rfl
    intro d
    rw [channel_modifyOperator]
  have operators (t : Slot) :
      written.operator t = c.putOperator (.channel .connection ch) v t (c.operator t) := by
    simp only [written, operator_modifyOperator, putOperator]
    by_cases ht : t = ch.modulator
    · rw [if_pos ht, if_pos ht, ht]
      simp only [operator, setPan]
    · rw [if_neg ht, if_neg ht]
      simp only [operator, setPan]
  have routes : written.route = (c.put (.channel .connection ch) v).route := by
    apply route_congr (joined.trans (joined_put (by simp) (by simp)).symm)
    ext d
    unfold connection
    rw [operators, operator_put]
  change (written.reroute _).operator s = _
  rw [reroute, operator_mapOperators, leads, leader_congr joined, operators, routes]
  simp only [decide_eq_true_eq]

@[simp] theorem channel_setConnection (ch d : ChannelId) (v : Byte) :
    (c.setConnection ch v).channel d = c.channel d := by
  rw [setConnection, reroute, channel_mapOperators, channel_modifyOperator]
  simp only [channel, setPan]

theorem pan_setConnection (ch d : ChannelId) (v : Byte) :
    (c.setConnection ch v).pan d = if d = ch then c.panOf v else c.pan d := by
  rw [setConnection, reroute, pan_mapOperators, pan_modifyOperator, pan_setPan]

@[simp] theorem globals_setConnection (ch : ChannelId) (v : Byte) :
    (c.setConnection ch v).globals = c.globals := by
  rw [setConnection, reroute, globals_mapOperators, globals_modifyOperator]
  simp only [globals, setPan]

theorem setConnection_eq (h : c.Coherent) (ch : ChannelId) (v : Byte) :
    c.setConnection ch v = (c.put (.channel .connection ch) v).rederive := by
  let r : Register := .channel .connection ch
  have joined : (c.put r v).joined = c.joined := joined_put (by simp [r]) (by simp [r])
  apply eq_rederive_put
  · intro s
    let o := c.putOperator r v s (c.operator s)
    have coherent : o.derive (c.context s) = o := by
      simp only [o, putOperator, r]
      split
      · rw [← Operator.writeFeedback_derive, h s]
      · exact h s
    have context : (c.put r v).context s = { c.context s with place := (c.put r v).route s } := by
      rw [context, opl3Mode_put, if_neg (by simp [r]), pitch, leader_congr joined, tuning_put]
      rfl
    rw [operator_setConnection, context]
    by_cases led : c.leader s.channel = c.leader ch
    · exact (if_pos led).trans (Operator.derive_place coherent _).symm
    · have still : (c.put r v).route s = c.route s := by
        apply route_of_voice joined
        intro d hd
        rw [connection_put, if_neg]
        simp only [r, Register.channel.injEq, true_and]
        rintro rfl
        exact led hd.symm
      rw [still]
      exact (if_neg led).trans coherent.symm
  · intro d
    rw [channel_setConnection, channel_put_of (by simp) fun _ _ => rfl]
  · intro d
    rw [pan_setConnection]
    simp [putPan, eq_comm]
  · rw [globals_setConnection]
    simp [globals, put]

theorem operator_settle {before after : Chip} (tunings : after.tuning = before.tuning)
    (connections : after.connection = before.connection) {s : Slot} {o : Operator}
    (drawn : after.operator s =
      o.derive { before.context s with opl3Mode := after.opl3Mode }) :
    (settle before after).operator s = o.derive (after.context s) := by
  rw [settle, operator_mapOperators]
  cases h : toggled before after s.channel with
  | none =>
    have active := activePair?_of_not_toggled h
    have pitch : before.pitch s.channel = after.pitch s.channel := by
      unfold pitch
      rw [leader, leader, active, tunings]
    have route : before.route s = after.route s := by
      simp only [route, active, connectionCode, connections]
    rw [context, ← pitch, ← route]
    exact drawn
  | some p =>
    simp only [drawn]
    by_cases second : s.channel = p.secondary
    · rw [if_pos second]
      exact Operator.follow_derive _ { before.context s with
        opl3Mode := after.opl3Mode, place := after.route s } _
    · have first : s.channel = p.primary := (toggled_eq_some h).resolve_right second
      have pitch : before.pitch s.channel = after.pitch s.channel := by
        unfold pitch
        rw [first, leader_primary, leader_primary, tunings]
      have context : after.context s =
          { before.context s with opl3Mode := after.opl3Mode, place := after.route s } := by
        rw [context, ← pitch]
        rfl
      rw [if_neg second, context]
      rfl

/-- A register that shapes voices, by a chip that has its fields but is not settled yet. -/
theorem settle_eq_rederive_put {after : Chip} {r : Register} {v : Byte}
    (shapes : r = .fourOpEnable ∨ r = .opl3Enable)
    (operators : ∀ s, after.operator s =
      (c.operator s).derive { c.context s with opl3Mode := after.opl3Mode })
    (channels : ∀ ch, after.channel ch = (c.put r v).channel ch)
    (pans : ∀ ch, after.pan ch = c.pan ch) (globals : after.globals = (c.put r v).globals) :
    c.settle after = (c.put r v).rederive := by
  have connection : ∀ ch, r ≠ .channel .connection ch := by
    rcases shapes with rfl | rfl <;> simp
  have tunings (ch : ChannelId) (t : Tuning) : c.putTuning r v ch t = t := by
    rcases shapes with rfl | rfl <;> rfl
  have unmoved (s : Slot) (o : Operator) : c.putOperator r v s o = o := by
    rcases shapes with rfl | rfl <;> rfl
  have mode : after.opl3Mode = (c.put r v).opl3Mode := by
    simpa only [Chip.globals] using congrArg Chip.opl3Mode globals
  have sameTuning : after.tuning = c.tuning := by
    ext ch
    rw [tuning, channels, channel_put, tunings]
  have sameConnection : after.connection = c.connection := by
    ext ch
    rw [Chip.connection, operators, Operator.connection_derive, Chip.connection]
  have context : (c.put r v).context = after.context := by
    apply context_congr mode.symm (joined_congr mode.symm fun ch => congrArg _ (channels ch).symm)
    · ext ch
      unfold tuning
      rw [channels]
    · ext ch
      rw [connection_put, if_neg (connection ch), sameConnection]
  apply eq_rederive_put
  · intro s
    rw [unmoved, context]
    exact operator_settle sameTuning sameConnection (operators s)
  · intro ch
    rw [settle, channel_mapOperators, channels]
  · intro ch
    rw [settle, pan_mapOperators, pans, putPan, if_neg (connection ch)]
  · rw [settle, globals_mapOperators, globals]

theorem setFourOpEnable_eq (h : c.Coherent) (v : Byte) :
    c.setFourOpEnable v = (c.put .fourOpEnable v).rederive := by
  apply settle_eq_rederive_put (.inl rfl)
  · intro s
    simp only [operator]
    exact (h s).symm
  · intro ch
    rw [channel_put, putMark, if_pos rfl]
    simp only [channel, Fin.getElem_fin, Vector.getElem_ofFn]
    cases Pair.startingAt? ch <;> rfl
  · intro ch
    simp only [pan]
  · simp [globals, put]

theorem put_of_same_mode {v : Byte} (same : c.opl3Mode = v.bit 0) :
    c.put .opl3Enable v = c := by
  apply eq_of_fields
  · intro s
    rw [operator_put]
    rfl
  · intro ch
    rw [channel_put_of (by simp) fun _ _ => rfl]
  · intro ch
    rw [pan_put, putPan, if_neg (by simp)]
  · simp [globals, put, same]

theorem setOpl3Mode_eq (h : c.Coherent) (v : Byte) :
    c.setOpl3Mode (v.bit 0) = (c.put .opl3Enable v).rederive := by
  unfold setOpl3Mode
  by_cases same : c.opl3Mode = v.bit 0
  · rw [if_pos same, put_of_same_mode same, h.rederive_eq]
  · rw [if_neg same]
    apply settle_eq_rederive_put (.inr rfl)
    · intro s
      rw [operator_mapOperators, opl3Mode_mapOperators]
      simp only [operator]
      exact congrArg (fun o : Operator => o.selectWaveform (v.bit 0)) (h s).symm
    · intro ch
      rw [channel_mapOperators, channel_put_of (by simp) fun _ _ => rfl]
      simp only [channel]
    · intro ch
      rw [pan_mapOperators]
      simp only [pan]
    · rw [globals_mapOperators]
      simp [globals, put]

theorem store_eq (h : c.Coherent) (r : Register) (v : Byte) :
    c.store r v = (c.put r v).rederive := by
  cases r with
  | noteSelect => exact storeNoteSelect_eq h v
  | operator kind s => exact writeOperator_eq h kind s v
  | channel kind ch =>
    cases kind with
    | fnumLow => exact storeFnumLow_eq h ch v
    | keyBlock => exact storeKeyBlock_eq h ch v
    | connection => exact setConnection_eq h ch v
  | rhythm => exact writeRhythm_eq h v
  | fourOpEnable => exact setFourOpEnable_eq h v
  | opl3Enable => exact setOpl3Mode_eq h v

theorem write_of_none {a : UInt16} (h : Register.ofAddress? a = none) (v : Byte) :
    c.write a v = c := by
  simp only [write, h]

theorem write_of_some {a : UInt16} {r : Register} (h : Register.ofAddress? a = some r)
    (v : Byte) : c.write a v = c.store r v := by
  simp only [write, h]

theorem Coherent.store (h : c.Coherent) (r : Register) (v : Byte) : (c.store r v).Coherent := by
  rw [store_eq h]
  exact coherent_rederive _

theorem tuning_store (h : c.Coherent) (r : Register) (v : Byte) (ch : ChannelId) :
    (c.store r v).tuning ch = c.putTuning r v ch (c.tuning ch) := by
  rw [store_eq h, tuning_rederive, tuning_put]

theorem pan_store (h : c.Coherent) (r : Register) (v : Byte) (ch : ChannelId) :
    (c.store r v).pan ch = c.putPan r v ch (c.pan ch) := by
  rw [store_eq h, rederive, pan_mapOperators, pan_put]

end Chip

end Ymf262
