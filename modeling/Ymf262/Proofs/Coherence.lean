import Ymf262.Proofs.Run

/-! Every run leaves a coherent chip: whatever order registers, modes, pairs, resets and ticks
come in, each operator holds the values that its own registers, the pitch of its voice and the
signal graph give. -/
namespace Ymf262.Chip

variable {c : Chip}

theorem coherent_idle (settings : Settings) : (idle settings).Coherent := by
  intro s
  have mode : (idle settings).opl3Mode = false := rfl
  have context : (idle settings).context s =
      ⟨false, .zero, (Destination.twoOp s.channel false).get s.index⟩ := by
    have connection : (idle settings).connection s.channel = false := by
      rw [connection, operator_idle]
      rfl
    have route : (idle settings).route s = (Destination.twoOp s.channel false).get s.index := by
      rw [route_of_alone (activePair?_of_opl2 mode _), connection]
    rw [Chip.context, mode, route, pitch, leader_of_opl2 mode, tuning, channel_idle]
    rfl
  rw [context, operator_idle]
  simp [Operator.derive, Operator.idle, Operator.zero, Operator.effectiveWaveform,
    Rate.attackOfIndex_zero, Rate.ofIndex_zero]

theorem context_synthesize (t : Synthesis) : (c.synthesize t).context = c.context := by
  obtain ⟨a, b, globals⟩ := globals_synthesize (c := c) t
  have mode : (c.synthesize t).opl3Mode = c.opl3Mode := by
    simpa only [Chip.globals] using congrArg Chip.opl3Mode globals
  apply context_congr mode (joined_congr mode (extended_synthesize t))
  · exact funext (tuning_synthesize t)
  · ext ch
    obtain ⟨phase, envelope, volume, same⟩ := operator_synthesize (c := c) t ch.modulator
    rw [connection, same, connection]

theorem kept_coherent (settings : Settings) : Kept settings Coherent where
  idle := coherent_idle settings
  store := fun _ r v h => h.store r v
  latch := fun _ _ h s => h s
  synthesis := by
    intro c t h s
    obtain ⟨phase, envelope, volume, same⟩ := operator_synthesize (c := c) t s
    rw [context_synthesize, same]
    exact congrArg (fun o : Operator => { o with phase, envelope, volume }) (h s)

theorem coherent_run (settings : Settings) (actions : List Action) :
    ((fresh settings).run actions).Coherent := run_keeps (kept_coherent settings) actions

end Ymf262.Chip
