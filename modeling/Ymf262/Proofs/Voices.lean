import Ymf262.Chip.Voice

/-! Which channels make a voice, and what a voice depends on. The leader of a channel and its
place in the signal graph only depend on the joined pairs and on the connection bits of the
channels under the same leader. -/
namespace Ymf262

@[simp] theorem ChannelId.index_modulator (ch : ChannelId) : ch.modulator.index = 0 := by
  simp [modulator, Slot.index]

@[simp] theorem ChannelId.index_carrier (ch : ChannelId) : ch.carrier.index = 1 := by
  ext
  show (2 * ch.val + 1) % 2 = 1
  omega

theorem Slot.eq_carrier {s : Slot} {ch : ChannelId} (channel : s.channel = ch)
    (index : s.index = 1) : s = ch.carrier := by
  subst channel
  ext
  have : s.val % 2 = 1 := congrArg Fin.val index
  show s.val = 2 * (s.val / 2) + 1
  omega

theorem Pair.primary_ne_secondary_of (p q : Pair) : p.primary ≠ q.secondary := by
  revert p q
  decide

theorem Pair.eq_primary_of_startingAt? {ch : ChannelId} {p : Pair}
    (h : startingAt? ch = some p) : ch = p.primary := by
  revert ch p
  decide

theorem Destination.twoOp_ne_phaseModB (n : Nat) (connection : Bool) (i : Fin 2) :
    (twoOp n connection).get i ≠ .phaseModB := by
  match connection, i with
  | false, 0 | false, 1 | true, 0 | true, 1 => exact Destination.noConfusion

namespace Chip

variable {b c : Chip}

theorem activePair?_eq_some_iff {ch : ChannelId} {p : Pair} :
    c.activePair? ch = some p ↔ c.joined p ∧ (ch = p.primary ∨ ch = p.secondary) := by
  rw [activePair?, Option.filter_eq_some_iff, Pair.containing?_eq_some_iff, and_comm]

theorem activePair?_primary {p : Pair} (h : c.joined p) : c.activePair? p.primary = some p :=
  activePair?_eq_some_iff.mpr ⟨h, .inl rfl⟩

theorem activePair?_secondary {p : Pair} (h : c.joined p) : c.activePair? p.secondary = some p :=
  activePair?_eq_some_iff.mpr ⟨h, .inr rfl⟩

theorem leader_of_some {ch : ChannelId} {p : Pair} (h : c.activePair? ch = some p) :
    c.leader ch = p.primary := by
  rw [leader, h]

theorem leader_of_none {ch : ChannelId} (h : c.activePair? ch = none) : c.leader ch = ch := by
  rw [leader, h]

@[simp] theorem leader_primary (p : Pair) : c.leader p.primary = p.primary := by
  by_cases h : c.joined p
  · exact leader_of_some (activePair?_primary h)
  · apply leader_of_none
    rw [activePair?, Pair.containing?_primary, Option.filter_some, if_neg h]

theorem activePair?_of_opl2 (h : c.opl3Mode = false) (channel : Nat) :
    c.activePair? channel = none := by
  simp [activePair?, Option.filter_eq_none_iff, joined, h]

theorem leader_of_opl2 (h : c.opl3Mode = false) (ch : ChannelId) : c.leader ch = ch :=
  leader_of_none (activePair?_of_opl2 h ch)

theorem joined_congr (mode : b.opl3Mode = c.opl3Mode)
    (marks : ∀ ch, (b.channel ch).extended = (c.channel ch).extended) : b.joined = c.joined := by
  ext p
  unfold joined
  rw [mode, marks]

theorem activePair?_congr (joined : b.joined = c.joined) : b.activePair? = c.activePair? := by
  ext channel
  unfold activePair?
  rw [joined]

theorem pitch_congr (joined : b.joined = c.joined) (tunings : b.tuning = c.tuning) :
    b.pitch = c.pitch := by
  ext ch
  unfold pitch
  rw [leader_congr joined, tunings]

theorem route_congr (joined : b.joined = c.joined) (connections : b.connection = c.connection) :
    b.route = c.route := by
  ext s
  simp only [route, connectionCode, activePair?_congr joined, connections]

theorem route_of_alone {s : Slot} (alone : c.activePair? s.channel = none) :
    c.route s = (Destination.twoOp s.channel (c.connection s.channel)).get s.index := by
  simp only [route, alone]
  rfl

theorem route_of_primary {p : Pair} (h : c.joined p) {s : Slot} (first : s.channel = p.primary) :
    c.route s = (Destination.fourOp p (c.connectionCode p)).get (Fin.castAdd 2 s.index) := by
  have active : c.activePair? s.channel = some p := first ▸ activePair?_primary h
  simp only [route, active, if_pos first]
  rfl

theorem route_of_secondary {p : Pair} (h : c.joined p) {s : Slot}
    (second : s.channel = p.secondary) :
    c.route s = (Destination.fourOp p (c.connectionCode p)).get (Fin.natAdd 2 s.index) := by
  have active : c.activePair? s.channel = some p := second ▸ activePair?_secondary h
  have other : s.channel ≠ p.primary := fun first =>
    p.primary_ne_secondary_of p (first.symm.trans second)
  simp only [route, active, if_neg other]
  rfl

/-- Only the second operator of a joined voice feeds the second phase modulation sum. -/
theorem eq_carrier_of_route {s : Slot} (h : c.route s = .phaseModB) :
    ∃ p, c.joined p ∧ s = p.primary.carrier := by
  have graph : ∀ (p : Pair) (code : Fin 4) (i : Fin 4),
      (Destination.fourOp p code).get i = .phaseModB → i = 1 := by decide
  cases active : c.activePair? s.channel with
  | none =>
    rw [route_of_alone active] at h
    exact (Destination.twoOp_ne_phaseModB _ _ _ h).elim
  | some p =>
    obtain ⟨joined, first | second⟩ := activePair?_eq_some_iff.mp active
    · rw [route_of_primary joined first] at h
      have place := congrArg Fin.val (graph _ _ _ h)
      exact ⟨p, joined, Slot.eq_carrier first (Fin.ext place)⟩
    · rw [route_of_secondary joined second] at h
      have place : 2 + s.index.val = 1 := congrArg Fin.val (graph _ _ _ h)
      omega

theorem route_of_voice {s : Slot} (joined : b.joined = c.joined)
    (connections : ∀ d, c.leader d = c.leader s.channel → b.connection d = c.connection d) :
    b.route s = c.route s := by
  unfold route
  rw [activePair?_congr joined]
  cases h : c.activePair? s.channel with
  | none => rw [connections _ rfl]
  | some p =>
    have active := (activePair?_eq_some_iff.mp h).1
    have led := leader_of_some h
    have second := leader_of_some (activePair?_secondary active)
    have code : b.connectionCode p = c.connectionCode p := by
      rw [connectionCode, connectionCode, connections _ ((leader_primary p).trans led.symm),
        connections _ (second.trans led.symm)]
    simp only [code]

theorem activePair?_of_not_toggled {ch : ChannelId} (h : toggled b c ch = none) :
    b.activePair? ch = c.activePair? ch := by
  unfold activePair?
  unfold toggled at h
  cases hp : Pair.containing? ch with
  | none => rfl
  | some p =>
    have same : b.joined p = c.joined p := by simpa [hp] using h
    simp only [Option.filter_some, same]

theorem toggled_of_opl2 (before : b.opl3Mode = false) (after : c.opl3Mode = false)
    (channel : Nat) : toggled b c channel = none := by
  simp [toggled, joined, before, after]

theorem toggled_eq_some {ch : ChannelId} {p : Pair} (h : toggled b c ch = some p) :
    ch = p.primary ∨ ch = p.secondary :=
  Pair.containing?_eq_some_iff.mp (Option.filter_eq_some_iff.mp h).1

end Chip

end Ymf262
