import Ymf262.Proofs.Range

/-! Derived values on every run, spelled out. The values that depend on pitch follow the channel
that leads the voice; destinations follow the signal graph of the voice, and waveforms the mode
of the chip. -/
namespace Ymf262

theorem Operator.phaseStep_toNat (multiple : UInt32) {t : Tuning} (h : t.InRange) :
    (phaseStep multiple t).toNat =
      (((t.blockFnum &&& 0x3FF) * multiple.toNat % UInt32.size) <<< 2 % UInt32.size) >>>
        (7 - t.blockFnum >>> 10) := by
  have bound := h.blockFnum
  have fnum : t.blockFnum &&& 0x3FF = t.fnum := Nat.and_two_pow_sub_one_eq_mod _ 10
  have block : t.blockFnum >>> 10 = t.block := Nat.shiftRight_eq_div_pow ..
  have fnumWord : (UInt32.ofNat t.fnum).toNat = t.fnum :=
    UInt32.toNat_ofNat_of_lt' (by show _ < 4294967296; rw [Tuning.fnum]; omega)
  have shift : (UInt32.ofNat (7 - t.block)).toNat % 32 = 7 - t.block := by
    rw [UInt32.toNat_ofNat_of_lt' (by show _ < 4294967296; omega)]
    omega
  rw [phaseStep, fnum, block, UInt32.toNat_shiftRight, UInt32.toNat_shiftLeft, UInt32.toNat_mul,
    fnumWord, shift]
  rfl

/-- The primary's connection bit is the upper one of the code. -/
theorem Destination.connectionCode_eq (primary secondary : Bool) :
    connectionCode primary secondary = .ofNat 4 (2 * primary.toNat + secondary.toNat) := by
  cases primary <;> cases secondary <;> rfl

namespace Chip

/-- Attenuation, phase step and rates follow the pitch of the voice, within the tables. -/
theorem pitch_values_run (settings : Settings) (actions : List Action) (s : Slot) :
    let c := (fresh settings).run actions
    let o := c.operator s
    let f := c.tuning (c.leader s.channel)
    o.attenuation = o.totalLevel + f.kslBase >>> o.kslShift ∧
    f.blockFnum >>> 10 ≤ 7 ∧
    o.increment.toNat =
      (((f.blockFnum &&& 0x3FF) * o.multiple.toNat % UInt32.size) <<< 2 % UInt32.size) >>>
        (7 - f.blockFnum >>> 10) ∧
    o.ksr = f.keyCode >>> o.ksrShift ∧
    o.attack =
      (if o.attackCode + o.ksr < 76 then Rate.ofIndex (o.attackCode + o.ksr) else ⟨0, 104⟩) ∧
    o.decayCode + o.ksr < 96 ∧ o.decay = Rate.ofIndex (o.decayCode + o.ksr) ∧
    o.releaseCode + o.ksr < 96 ∧ o.release = Rate.ofIndex (o.releaseCode + o.ksr) := by
  intro c o f
  obtain ⟨coherent, range⟩ := run_keeps (kept_inRange settings) actions
  -- Coherence gives every value; the ranges keep the table indices in bounds.
  have drawn : o = o.derive (c.context s) := (coherent s).symm
  have ksr : o.ksr = f.keyCode >>> o.ksrShift := congrArg Operator.ksr drawn
  have scale : o.ksr < 16 := by
    rw [ksr, Nat.shiftRight_eq_div_pow]
    exact Nat.lt_of_le_of_lt (Nat.div_le_self ..) (range.tunings _).keyCode
  have decayCode : o.decayCode ≤ 76 := by
    obtain ⟨n, bound, code⟩ := (range.operators s).decayCode
    exact code ▸ Rate.code_le bound
  have releaseCode : o.releaseCode ≤ 76 := by
    obtain ⟨n, bound, code⟩ := (range.operators s).releaseCode
    exact code ▸ Rate.code_le bound
  have attack : o.attack = Rate.attackOfIndex (o.attackCode + o.ksr) :=
    ksr ▸ congrArg Operator.attack drawn
  have decay : o.decay = Rate.ofIndex (o.decayCode + o.ksr) :=
    ksr ▸ congrArg Operator.decay drawn
  have release : o.release = Rate.ofIndex (o.releaseCode + o.ksr) :=
    ksr ▸ congrArg Operator.release drawn
  have increment : o.increment = Operator.phaseStep o.multiple f :=
    congrArg Operator.increment drawn
  refine ⟨congrArg Operator.attenuation drawn, ?_, ?_, ksr, attack, by omega, decay, by omega,
    release⟩
  · have bound : f.blockFnum < 8192 := (range.tunings _).blockFnum
    show f.blockFnum >>> 10 ≤ 7
    rw [Nat.shiftRight_eq_div_pow]
    omega
  · rw [increment]
    exact Operator.phaseStep_toNat _ (range.tunings _)

/-- Every operator stands where the signal graph of its voice has it. -/
theorem signal_graph_run (settings : Settings) (actions : List Action) :
    let c := (fresh settings).run actions
    (∀ ch : ChannelId, c.activePair? ch = none →
      #v[(c.operator ch.modulator).destination, (c.operator ch.carrier).destination] =
        Destination.twoOp ch (c.connection ch)) ∧
    (∀ p : Pair, c.joined p →
      #v[(c.operator p.primary.modulator).destination,
        (c.operator p.primary.carrier).destination,
        (c.operator p.secondary.modulator).destination,
        (c.operator p.secondary.carrier).destination] =
        Destination.fourOp p
          (.ofNat 4 (2 * (c.connection p.primary).toNat + (c.connection p.secondary).toNat))) ∧
    (∀ s, (c.operator s).waveform =
      if c.opl3Mode then (c.operator s).waveformNumber else (c.operator s).waveformNumber &&& 3) ∧
    (∀ s, (c.operator s).destination = .phaseModB → ∃ p, c.joined p ∧ s = p.primary.carrier) := by
  intro c
  have coherent : c.Coherent := run_keeps (kept_coherent settings) actions
  have placed (s : Slot) : (c.operator s).destination = c.route s :=
    (congrArg Operator.destination (coherent s)).symm
  refine ⟨?_, ?_, ?_, ?_⟩
  · intro ch alone
    have modulator : c.activePair? ch.modulator.channel = none := by
      rwa [ChannelId.channel_modulator]
    have carrier : c.activePair? ch.carrier.channel = none := by
      rwa [ChannelId.channel_carrier]
    rw [placed, placed, route_of_alone modulator, route_of_alone carrier]
    simp only [ChannelId.channel_modulator, ChannelId.channel_carrier, ChannelId.index_modulator,
      ChannelId.index_carrier]
    rfl
  · intro p h
    rw [placed, placed, placed, placed, route_of_primary h (ChannelId.channel_modulator _),
      route_of_primary h (ChannelId.channel_carrier _),
      route_of_secondary h (ChannelId.channel_modulator _),
      route_of_secondary h (ChannelId.channel_carrier _), ← Destination.connectionCode_eq]
    simp only [ChannelId.index_modulator, ChannelId.index_carrier]
    change _ = Destination.fourOp p (c.connectionCode p)
    generalize c.connectionCode p = code
    match code with
    | 0 | 1 | 2 | 3 => rfl
  · intro s
    have drawn := congrArg Operator.waveform (coherent s)
    rw [Nat.and_two_pow_sub_one_eq_mod _ 2]
    exact drawn.symm
  · intro s h
    exact eq_carrier_of_route ((placed s).symm.trans h)

/-- Channels 0 and 3 are joined, with the primary's modulator beside the others, and channel 1 is
by itself. -/
theorem signal_graph_run_joined :
    let c := (fresh .default).run [.write ⟨0x105, 1⟩, .write ⟨0x104, 1⟩, .write ⟨0xC0, 1⟩]
    c.joined 0 ∧ c.activePair? 1 = none ∧
      #v[(c.operator 0).destination, (c.operator 1).destination, (c.operator 6).destination,
        (c.operator 7).destination] = #v[.output 0, .phaseModB, .phaseModA, .output 3] ∧
      #v[(c.operator 2).destination, (c.operator 3).destination] = #v[.phaseModA, .output 1] ∧
      ∃ p, c.joined p ∧ 1 = p.primary.carrier := by
  intro c
  obtain ⟨single, pairs, -, second⟩ := signal_graph_run .default
    [.write ⟨0x105, 1⟩, .write ⟨0x104, 1⟩, .write ⟨0xC0, 1⟩]
  have joined : c.joined 0 := by
    simp only [c, fresh_eq]
    decide +kernel
  have alone : c.activePair? (1 : ChannelId) = none := by
    simp only [c, fresh_eq]
    decide +kernel
  have connections : (c.connection 0, c.connection 3, c.connection 1) = (true, false, false) := by
    simp only [c, fresh_eq]
    decide +kernel
  simp only [Prod.mk.injEq] at connections
  obtain ⟨primary, secondary, own⟩ := connections
  have graph := pairs 0 joined
  rw [show Pair.primary 0 = 0 from rfl, show Pair.secondary 0 = 3 from rfl, primary, secondary]
    at graph
  have series := single 1 alone
  rw [own] at series
  have feeds : (c.operator (ChannelId.carrier 0)).destination = .phaseModB := by
    generalize (c.operator (ChannelId.carrier 0)).destination = d at graph ⊢
    exact congrArg (fun v : Vector Destination 4 => v[1]) graph
  exact ⟨joined, alone, graph, series, second 1 feeds⟩

end Chip

end Ymf262
