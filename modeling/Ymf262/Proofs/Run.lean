import Ymf262.Chip.Synthesis
import Ymf262.Imf.Replay
import Ymf262.Proofs.Reset

/-! Runs. A chip changes by register writes, over the bus, by resets, by the ticks of a player
and at the hands of the synthesis stage. All of these come down to stores of single registers,
to a new latched address, to a fresh start and to the fields that synthesis owns; `run_keeps`
says what has to be checked so that a property holds after every run. -/
namespace Ymf262

/-- What the synthesis stage does between writes. -/
inductive Synthesis where
  | phase (s : Slot) (phase : UInt32)
  | envelope (s : Slot) (envelope : EnvelopePhase)
  | volume (s : Slot) (volume : UInt16)
  | accumulator (d : Destination) (v : Int32)
  | clear

inductive Action where
  | write (w : RegisterWrite)
  | bus (lines v : Byte)
  | reset
  /-- A tick of some player, however far it has got. -/
  | tick (player : Imf.Player)
  | synthesis (t : Synthesis)

namespace Chip

/-- An accumulator that the chip does not have stays out of reach. -/
def synthesize (c : Chip) : Synthesis → Chip
  | .phase s phase => c.setPhase s phase
  | .envelope s envelope => c.setEnvelope s envelope
  | .volume s volume => c.setVolume s volume
  | .accumulator d v => (c.setAccumulator? d v).getD c
  | .clear => c.clearAccumulators

def act (c : Chip) : Action → Chip
  | .write w => c.write w.address w.value
  | .bus lines v => c.bus lines v
  | .reset => c.reset
  | .tick player => (Imf.Replay.tick ⟨player, c⟩).chip
  | .synthesis t => c.synthesize t

def run (c : Chip) (actions : List Action) : Chip := actions.foldl act c

variable {c : Chip}

theorem run_cons (a : Action) (actions : List Action) :
    c.run (a :: actions) = (c.act a).run actions := rfl

theorem run_append (actions more : List Action) :
    c.run (actions ++ more) = (c.run actions).run more := List.foldl_append

theorem run_concat (actions : List Action) (a : Action) :
    c.run (actions ++ [a]) = (c.run actions).act a := run_append actions [a]

theorem operator_synthesize (t : Synthesis) (s : Slot) :
    ∃ phase envelope volume,
      (c.synthesize t).operator s = { c.operator s with phase, envelope, volume } := by
  cases t with
  | phase u phase =>
    rw [synthesize, setPhase, operator_modifyOperator]
    by_cases h : s = u
    · exact ⟨phase, _, _, by rw [if_pos h, h]⟩
    · exact ⟨_, _, _, if_neg h⟩
  | envelope u envelope =>
    rw [synthesize, setEnvelope, operator_modifyOperator]
    by_cases h : s = u
    · exact ⟨_, envelope, _, by rw [if_pos h, h]⟩
    · exact ⟨_, _, _, if_neg h⟩
  | volume u volume =>
    rw [synthesize, setVolume, operator_modifyOperator]
    by_cases h : s = u
    · exact ⟨_, _, volume, by rw [if_pos h, h]⟩
    · exact ⟨_, _, _, if_neg h⟩
  | accumulator d v =>
    have same : (c.synthesize (.accumulator d v)).operator s = c.operator s := by
      cases d with
      | output n =>
        simp only [synthesize, setAccumulator?]
        split <;> rfl
      | _ => rfl
    exact ⟨_, _, _, same⟩
  | clear => exact ⟨_, _, _, rfl⟩

theorem key_synthesize (t : Synthesis) (s : Slot) :
    ((c.synthesize t).operator s).key = (c.operator s).key := by
  obtain ⟨phase, envelope, volume, same⟩ := operator_synthesize (c := c) t s
  rw [same]

theorem channel_synthesize (t : Synthesis) (ch : ChannelId) :
    ∃ output, (c.synthesize t).channel ch = { c.channel ch with output } := by
  cases t with
  | accumulator d v =>
    cases d with
    | output n =>
      simp only [synthesize, setAccumulator?]
      split
      · rename_i bound
        by_cases h : ch.val = n
        · refine ⟨v, ?_⟩
          subst h
          simp [channel]
        · exact ⟨(c.channel ch).output, by simp [channel, Ne.symm h]⟩
      · exact ⟨_, rfl⟩
    | _ => exact ⟨_, rfl⟩
  | clear => exact ⟨0, by simp [synthesize, clearAccumulators, channel]⟩
  | _ => exact ⟨_, channel_modifyOperator ..⟩

theorem extended_synthesize (t : Synthesis) (ch : ChannelId) :
    ((c.synthesize t).channel ch).extended = (c.channel ch).extended := by
  obtain ⟨output, same⟩ := channel_synthesize (c := c) t ch
  rw [same]

theorem tuning_synthesize (t : Synthesis) (ch : ChannelId) :
    (c.synthesize t).tuning ch = c.tuning ch := by
  obtain ⟨output, same⟩ := channel_synthesize (c := c) t ch
  rw [tuning, same, tuning]

theorem pan_synthesize (t : Synthesis) (ch : ChannelId) : (c.synthesize t).pan ch = c.pan ch := by
  cases t with
  | accumulator d v =>
    cases d with
    | output n =>
      simp only [synthesize, setAccumulator?]
      split <;> rfl
    | _ => rfl
  | clear => rfl
  | _ => exact pan_modifyOperator ..

theorem globals_synthesize (t : Synthesis) :
    ∃ a b, (c.synthesize t).globals = { c.globals with phaseModA := a, phaseModB := b } := by
  cases t with
  | accumulator d v =>
    cases d with
    | phaseModA => exact ⟨v, _, rfl⟩
    | phaseModB => exact ⟨_, v, rfl⟩
    | output n =>
      simp only [synthesize, setAccumulator?]
      split <;> exact ⟨_, _, rfl⟩
  | clear => exact ⟨0, 0, rfl⟩
  | _ => exact ⟨_, _, globals_modifyOperator ..⟩

theorem settings_of_globals {b : Chip} (h : b.globals = c.globals) : b.settings = c.settings := by
  simpa only [globals] using congrArg Chip.settings h

theorem settings_mapOperators (f : Slot → Operator → Operator) :
    (c.mapOperators f).settings = c.settings := by
  simp only [mapOperators]

theorem settings_store (r : Register) (v : Byte) : (c.store r v).settings = c.settings := by
  cases r with
  | noteSelect => rfl
  | operator kind s => simp only [store, writeOperator, modifyOperator]
  | channel kind ch =>
    cases kind with
    | fnumLow => exact settings_of_globals (globals_setBlockFnum ..)
    | keyBlock =>
      exact (settings_of_globals (globals_setBlockFnum ..)).trans (settings_mapOperators _)
    | connection => exact settings_of_globals (globals_setConnection ..)
  | rhythm => simp only [store, writeRhythm, settings_mapOperators]
  | fourOpEnable => simp only [store, setFourOpEnable, settle, settings_mapOperators]
  | opl3Enable =>
    simp only [store, setOpl3Mode]
    split
    · rfl
    · simp only [settle, settings_mapOperators]

theorem settings_synthesize (t : Synthesis) : (c.synthesize t).settings = c.settings := by
  obtain ⟨a, b, h⟩ := globals_synthesize (c := c) t
  simpa only [globals] using congrArg Chip.settings h

section Keeping

/-- A property that holds of idle chips, and that single stores, the latch of the bus and the
synthesis stage keep. -/
structure Kept (settings : Settings) (P : Chip → Prop) : Prop where
  idle : P (idle settings)
  store : ∀ c r v, P c → P (c.store r v)
  latch : ∀ c (a : UInt16), P c → P { c with address := a }
  synthesis : ∀ c (t : Synthesis), P c → P (c.synthesize t)

variable {settings : Settings} {P : Chip → Prop}

theorem Kept.write (k : Kept settings P) (h : P c) (a : UInt16) (v : Byte) : P (c.write a v) := by
  rw [Chip.write]
  split
  · exact k.store _ _ _ h
  · exact h

theorem Kept.writeAll (k : Kept settings P) (h : P c) (ws : List RegisterWrite) :
    P (c.writeAll ws) := by
  induction ws generalizing c with
  | nil => exact h
  | cons w ws ih => exact ih (k.write h w.address w.value)

theorem kept_settings (settings : Settings) : Kept settings fun c => c.settings = settings where
  idle := rfl
  store := fun _ r v h => (settings_store r v).trans h
  latch := fun _ _ h => h
  synthesis := fun _ t h => (settings_synthesize t).trans h

theorem Kept.act (k : Kept settings P) (h : P c) (own : c.settings = settings) (a : Action) :
    P (c.act a) := by
  cases a with
  | write w => exact k.write h w.address w.value
  | bus lines v =>
    rw [Chip.act, bus]
    split
    · exact k.write h c.address v
    · exact k.latch c _ h
  | reset =>
    rw [Chip.act, reset_eq, own]
    exact k.idle
  | tick player => exact k.writeAll h _
  | synthesis t => exact k.synthesis c t h

theorem run_keeps (k : Kept settings P) (actions : List Action) : P ((fresh settings).run actions) := by
  -- The settings come along because a reset starts from them.
  suffices ∀ c, P c ∧ c.settings = settings → P (c.run actions) by
    rw [fresh_eq]
    exact this _ ⟨k.idle, rfl⟩
  induction actions with
  | nil => exact fun _ h => h.1
  | cons a as ih =>
    intro c h
    exact ih _ ⟨k.act h.1 h.2 a, (kept_settings settings).act h.2 h.2 a⟩

end Keeping

end Chip

end Ymf262
