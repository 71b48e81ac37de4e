import Ymf262.Proofs.History

/-! Key edges. A register write moves the phase and the envelope of an operator only when its last
key goes or its first one comes, and never its volume. From this follows what a run leaves: a
held operator is not off unless synthesis has turned it off while it was held, and without
synthesis the envelope tells whether an operator is held, has been held, or neither. -/
namespace Ymf262

namespace Operator

/-- The moves of phase and envelope from one operator to the next. -/
structure KeyEdge (o o' : Operator) : Prop where
  pressed : o.key.mask = 0 → o'.key.mask ≠ 0 → o'.phase = 0 ∧ o'.envelope = .attack
  released : o.key.mask ≠ 0 → o'.key.mask = 0 →
    o'.envelope.level = min o.envelope.level EnvelopePhase.release.level ∧ o'.phase = o.phase
  still : (o.key.mask = 0 ↔ o'.key.mask = 0) → o'.phase = o.phase ∧ o'.envelope = o.envelope
  volume : o'.volume = o.volume

variable {o o' : Operator}

theorem KeyEdge.of_still (key : o.key.mask = 0 ↔ o'.key.mask = 0) (phase : o'.phase = o.phase)
    (envelope : o'.envelope = o.envelope) (volume : o'.volume = o.volume) : KeyEdge o o' where
  pressed before after := (after (key.mp before)).elim
  released before after := (before (key.mpr after)).elim
  still _ := ⟨phase, envelope⟩
  volume := volume

theorem KeyEdge.of_pressed (before : o.key.mask = 0) (after : o'.key.mask ≠ 0)
    (phase : o'.phase = 0) (envelope : o'.envelope = .attack) (volume : o'.volume = o.volume) :
    KeyEdge o o' where
  pressed _ _ := ⟨phase, envelope⟩
  released held := (held before).elim
  still same := (after (same.mp before)).elim
  volume := volume

theorem KeyEdge.of_released (before : o.key.mask ≠ 0) (after : o'.key.mask = 0)
    (phase : o'.phase = o.phase) (envelope : o'.envelope = o.envelope.released)
    (volume : o'.volume = o.volume) : KeyEdge o o' where
  pressed free := (before free).elim
  released _ _ := by
    rw [envelope, EnvelopePhase.level_released, Nat.min_comm]
    exact ⟨rfl, phase⟩
  still same := (before (same.mpr after)).elim
  volume := volume

theorem keyEdge_setKey (o : Operator) (source : KeySource) (on : Bool) :
    KeyEdge o (o.setKey source on) := by
  have free (k : Keys) : k.mask = 0 ↔ k.held = false := k.mask_eq_zero_iff
  have pressed : (o.key.set source true).held = true := by
    cases source <;> simp [Keys.set, Keys.held]
  have unheld (h : o.key.held = false) : (o.key.set source false).held = false := by
    simp only [Keys.held, Bool.or_eq_false_iff] at h
    cases source <;> simp [Keys.set, Keys.held, h]
  rw [setKey_eq]
  cases held : o.key.held <;> cases on
  · exact .of_still (by simp [free, held, unheld held]) rfl (by simp) rfl
  · exact .of_pressed (by simp [free, held]) (by simp [free, pressed]) rfl (by simp) rfl
  · cases still : (o.key.set source false).held
    · exact .of_released (by simp [free, held]) (by simp [free, still]) rfl (by simp) rfl
    · exact .of_still (by simp [free, held, still]) rfl (by simp) rfl
  · exact .of_still (by simp [free, held, pressed]) rfl (by simp) rfl

theorem keyEdge_put (o : Operator) (kind : OperatorRegister) (k : UInt32) (v : Byte) :
    KeyEdge o (o.put kind k v) := by
  cases kind <;> exact .of_still Iff.rfl rfl rfl rfl

/-- What an operator is like that synthesis has left alone since the reset, by whether it has ever
been keyed since. -/
structure Undisturbed (ever : Prop) (o : Operator) : Prop where
  phase : o.phase = 0
  volume : o.volume = silentVolume
  ever_of_held : o.key.mask ≠ 0 → ever
  attack : o.key.mask ≠ 0 → o.envelope = .attack
  release : o.key.mask = 0 → ever → o.envelope = .release
  off : ¬ ever → o.envelope = .off

theorem Undisturbed.edge {ever : Prop} (h : o.Undisturbed ever) (edge : KeyEdge o o') :
    o'.Undisturbed (ever ∨ o'.key.mask ≠ 0) := by
  have volume : o'.volume = silentVolume := edge.volume.trans h.volume
  by_cases before : o.key.mask = 0
  · by_cases after : o'.key.mask = 0
    · obtain ⟨phase, envelope⟩ := edge.still (iff_of_true before after)
      refine ⟨phase.trans h.phase, volume, .inr, fun held => (held after).elim, ?_, ?_⟩
      · rintro - (ever | held)
        · exact envelope.trans (h.release before ever)
        · exact (held after).elim
      · exact fun never => envelope.trans (h.off fun ever => never (.inl ever))
    · obtain ⟨phase, envelope⟩ := edge.pressed before after
      exact ⟨phase, volume, .inr, fun _ => envelope, fun free => (after free).elim,
        fun never => (never (.inr after)).elim⟩
  · have ever := h.ever_of_held before
    by_cases after : o'.key.mask = 0
    · obtain ⟨level, phase⟩ := edge.released before after
      rw [h.attack before] at level
      have envelope : o'.envelope = .release := EnvelopePhase.level_injective level
      exact ⟨phase.trans h.phase, volume, .inr, fun held => (held after).elim,
        fun _ _ => envelope, fun never => (never (.inl ever)).elim⟩
    · obtain ⟨phase, envelope⟩ := edge.still (iff_of_false before after)
      exact ⟨phase.trans h.phase, volume, .inr, fun _ => envelope.trans (h.attack before),
        fun free => (after free).elim, fun never => (never (.inl ever)).elim⟩

/-! The envelope tells the three cases apart. -/

theorem Undisturbed.attack_iff {ever : Prop} (h : o.Undisturbed ever) :
    o.envelope = .attack ↔ o.key.mask ≠ 0 := by
  refine ⟨fun attack free => ?_, h.attack⟩
  by_cases was : ever
  · exact EnvelopePhase.noConfusion (attack.symm.trans (h.release free was))
  · exact EnvelopePhase.noConfusion (attack.symm.trans (h.off was))

theorem Undisturbed.off_iff {ever : Prop} (h : o.Undisturbed ever) :
    o.envelope = .off ↔ ¬ ever := by
  refine ⟨fun off was => ?_, h.off⟩
  by_cases free : o.key.mask = 0
  · exact EnvelopePhase.noConfusion (off.symm.trans (h.release free was))
  · exact EnvelopePhase.noConfusion (off.symm.trans (h.attack free))

theorem Undisturbed.release_iff {ever : Prop} (h : o.Undisturbed ever) :
    o.envelope = .release ↔ o.key.mask = 0 ∧ ever := by
  refine ⟨fun release => ⟨?_, ?_⟩, fun ⟨free, was⟩ => h.release free was⟩
  · by_contra held
    exact EnvelopePhase.noConfusion (release.symm.trans (h.attack held))
  · by_contra never
    exact EnvelopePhase.noConfusion (release.symm.trans (h.off never))

end Operator

namespace Chip

open Operator (KeyEdge Undisturbed)

variable {c : Chip} {settings : Settings}

theorem keyEdge_write (coherent : c.Coherent) (a : UInt16) (v : Byte) (s : Slot) :
    KeyEdge (c.operator s) ((c.write a v).operator s) := by
  cases named : Register.ofAddress? a with
  | none =>
    rw [write_of_none named]
    exact .of_still Iff.rfl rfl rfl rfl
  | some r =>
    have effect := c.effect_putOperator r v s
    rw [write_of_some named, store_eq coherent, operator_rederive, operator_put]
    -- Derived values have no part in an edge.
    suffices KeyEdge (c.operator s) (c.putOperator r v s (c.operator s)) from
      ⟨this.pressed, this.released, this.still, this.volume⟩
    generalize c.putOperator r v s = f at effect ⊢
    cases effect with
    | none field feedback => exact .of_still Iff.rfl rfl rfl rfl
    | field kind own => exact Operator.keyEdge_put ..
    | key source on keys => exact Operator.keyEdge_setKey ..
    | feedback ch own place => exact .of_still Iff.rfl rfl rfl rfl

theorem envelope_modifyOperator {f : Operator → Operator}
    (keeps : ∀ o, (f o).envelope = o.envelope) (u s : Slot) :
    ((c.modifyOperator u f).operator s).envelope = (c.operator s).envelope := by
  rw [operator_modifyOperator]
  by_cases h : s = u
  · rw [if_pos h, keeps, h]
  · rw [if_neg h]

theorem envelope_synthesize (t : Synthesis) (s : Slot) :
    ((c.synthesize t).operator s).envelope = (c.operator s).envelope ∨
      t = .envelope s ((c.synthesize t).operator s).envelope := by
  cases t with
  | envelope u envelope =>
    rw [synthesize, setEnvelope, operator_modifyOperator]
    by_cases h : s = u
    · right
      rw [if_pos h, h]
    · left
      rw [if_neg h]
  | phase u phase =>
    left
    rw [synthesize, setPhase]
    apply envelope_modifyOperator
    exact fun _ => rfl
  | volume u volume =>
    left
    rw [synthesize, setVolume]
    apply envelope_modifyOperator
    exact fun _ => rfl
  | accumulator d v =>
    left
    cases d with
    | output n =>
      simp only [synthesize, setAccumulator?]
      split <;> rfl
    | _ => rfl
  | clear => exact .inl rfl

/-- No held operator is off. -/
def Sounding (c : Chip) : Prop :=
  ∀ s, (c.operator s).key.mask ≠ 0 → (c.operator s).envelope ≠ .off

theorem traced_sounding (settings : Settings) : Traced settings fun _ c => c.Sounding where
  idle := by
    intro s held
    rw [operator_idle] at held
    exact (held rfl).elim
  write := by
    intro _ c w coherent h s held
    have edge := keyEdge_write coherent w.address w.value s
    by_cases before : (c.operator s).key.mask = 0
    · rw [(edge.pressed before held).2]
      exact EnvelopePhase.noConfusion
    · rw [(edge.still (iff_of_false before held)).2]
      exact h s before
  latch := fun _ _ _ h => h

def KeyedSince (history : List Met) (s : Slot) : Prop :=
  ∃ m ∈ history, (m.after.operator s).key.mask ≠ 0

theorem keyedSince_concat (history : List Met) (m : Met) (s : Slot) :
    KeyedSince (history ++ [m]) s ↔
      KeyedSince history s ∨ (m.after.operator s).key.mask ≠ 0 := by
  simp only [KeyedSince, List.mem_append, List.mem_singleton, or_and_right, exists_or,
    exists_eq_left]

theorem traced_undisturbed (settings : Settings) :
    Traced settings fun history c => ∀ s, (c.operator s).Undisturbed (KeyedSince history s) where
  idle := by
    intro s
    have never : ¬ KeyedSince [] s := by simp [KeyedSince]
    rw [operator_idle]
    exact ⟨rfl, rfl, fun held => (held rfl).elim, fun held => (held rfl).elim,
      fun _ ever => (never ever).elim, fun _ => rfl⟩
  write := by
    intro history c w coherent h s
    rw [keyedSince_concat]
    exact (h s).edge (keyEdge_write coherent w.address w.value s)
  latch := fun _ _ _ h => h

/-- After every run a register write moves an operator on its key edges alone. So no held operator
is off, as long as synthesis only turns off operators that nobody holds; and as long as it does
nothing, phase and volume stay as after the reset, an operator attacks exactly while it is held,
is released once it has been held, and is off before. -/
theorem key_edges_run (settings : Settings) (actions : List Action) :
    let c := (fresh settings).run
    (∀ (a : UInt16) (v : Byte) (s : Slot),
      KeyEdge ((c actions).operator s) (((c actions).write a v).operator s)) ∧
    ((∀ before s, before ++ [.synthesis (.envelope s .off)] <+: actions →
        ((c before).operator s).key.mask = 0) →
      ∀ s, ((c actions).operator s).key.mask ≠ 0 → ((c actions).operator s).envelope ≠ .off) ∧
    ((∀ t, .synthesis t ∉ actions) → ∀ s,
      let o := (c actions).operator s
      let ever := KeyedSince ((fresh settings).history actions) s
      o.phase = 0 ∧ o.volume = 511 ∧ (o.envelope = .attack ↔ o.key.mask ≠ 0) ∧
      (o.envelope = .release ↔ o.key.mask = 0 ∧ ever) ∧ (o.envelope = .off ↔ ¬ ever)) := by
  intro c
  have coherent : (c actions).Coherent := coherent_run settings actions
  refine ⟨fun a v s => keyEdge_write coherent a v s, ?_, ?_⟩
  · intro quiet
    show (c actions).Sounding
    apply traced_run (traced_sounding settings)
    intro before t start h s held
    rw [key_synthesize] at held
    rcases envelope_synthesize (c := c before) t s with same | set
    · rw [same]
      exact h s held
    · intro off
      rw [off] at set
      exact held (quiet before s (set ▸ start))
  · intro silent s o ever
    have h : o.Undisturbed ever := by
      apply traced_run (traced_undisturbed settings)
      intro before t start
      exact (silent t (start.subset (by simp))).elim
    exact ⟨h.phase, h.volume, h.attack_iff, h.release_iff, h.off_iff⟩

/-- The bass drum is held by the rhythm section and by the note of its channel, let go by both,
turned off by synthesis and struck again. -/
theorem key_edges_run_drum :
    let c := (fresh .default).run
    let released : List Action :=
      [.write ⟨0xBD, 0x30⟩, .write ⟨0xB6, 0x20⟩, .write ⟨0xBD, 0x20⟩, .write ⟨0xB6, 0⟩]
    let struck := released ++ [.synthesis (.envelope 12 .off), .write ⟨0xBD, 0x30⟩]
    (∀ t, .synthesis t ∉ released) ∧ ((c released).operator 12).envelope = .release ∧
    (∀ before s, before ++ [.synthesis (.envelope s .off)] <+: struck →
      ((c before).operator s).key.mask = 0) ∧
    ((c struck).operator 12).key.mask ≠ 0 ∧ ((c struck).operator 12).envelope ≠ .off := by
  intro c released struck
  have silent : ∀ t, .synthesis t ∉ released := by simp [released]
  have quiet : ∀ before s, before ++ [.synthesis (.envelope s .off)] <+: struck →
      ((c before).operator s).key.mask = 0 := by
    intro before s start
    have place : before = released ∧ s = 12 := by
      obtain ⟨rest, h⟩ := start
      match before with
      | [] | [_] | [_, _] | [_, _, _] | [_, _, _, _, _] | _ :: _ :: _ :: _ :: _ :: _ :: _ =>
        simp [struck, released] at h
      | [_, _, _, _] => simp_all [struck, released]
    rw [place.1, place.2]
    show (((fresh .default).run released).operator 12).key.mask = 0
    rw [fresh_eq]
    decide +kernel
  have held : ((c struck).operator 12).key.mask ≠ 0 := by
    show (((fresh .default).run struck).operator 12).key.mask ≠ 0
    rw [fresh_eq]
    decide +kernel
  have free : ((c released).operator 12).key.mask = 0 ∧
      KeyedSince ((fresh .default).history released) 12 := by
    show (((fresh .default).run released).operator 12).key.mask = 0 ∧ _
    rw [fresh_eq]
    refine ⟨by decide +kernel, ?_⟩
    unfold KeyedSince
    decide +kernel
  obtain ⟨-, -, undisturbed⟩ := key_edges_run .default released
  obtain ⟨-, sounding, -⟩ := key_edges_run .default struck
  obtain ⟨-, -, -, release, -⟩ := undisturbed silent 12
  exact ⟨silent, release.mpr free, quiet, held, sounding quiet 12 held⟩

end Chip

end Ymf262
