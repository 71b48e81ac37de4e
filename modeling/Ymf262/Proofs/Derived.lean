import Ymf262.Chip.Write
import Ymf262.Proofs.Voices

/-! Stored and derived values. An operator derives its waveform, attenuation, phase step,
rates and destination from its stored fields and its context: the mode of the chip, the pitch
it follows and its place in the signal graph. A chip is coherent when every operator holds the
values that its context gives. -/
namespace Ymf262

/-- What an operator derives values from besides its own fields. -/
structure Context where
  opl3Mode : Bool
  pitch : Tuning
  place : Destination

namespace Operator

def derive (o : Operator) (x : Context) : Operator :=
  { o with
    waveform := effectiveWaveform x.opl3Mode o.waveformNumber
    attenuation := o.totalLevel + x.pitch.kslBase >>> o.kslShift
    increment := phaseStep o.multiple x.pitch
    ksr := x.pitch.keyCode >>> o.ksrShift
    attack := .attackOfIndex (o.attackCode + x.pitch.keyCode >>> o.ksrShift)
    decay := .ofIndex (o.decayCode + x.pitch.keyCode >>> o.ksrShift)
    release := .ofIndex (o.releaseCode + x.pitch.keyCode >>> o.ksrShift)
    destination := x.place }

@[simp] theorem derive_derive (o : Operator) (x y : Context) :
    (o.derive x).derive y = o.derive y := rfl

@[simp] theorem connection_derive (o : Operator) (x : Context) :
    (o.derive x).connection = o.connection := rfl

theorem setKey_eq (o : Operator) (source : KeySource) (on : Bool) :
    o.setKey source on =
      { o with
        key := o.key.set source on
        phase := if on && !o.key.held then 0 else o.phase
        envelope :=
          if on then if o.key.held then o.envelope else .attack
          else if o.key.held && !(o.key.set source on).held then o.envelope.released
          else o.envelope } := by
  cases held : o.key.held <;> cases on <;> cases still : (o.key.set source false).held <;>
    simp [setKey, held, still]

theorem setKey_derive (o : Operator) (x : Context) (source : KeySource) (on : Bool) :
    (o.derive x).setKey source on = (o.setKey source on).derive x := by
  simp only [setKey_eq]
  rfl

/-- Rates that match the key scale value need no change while it stays the same. -/
theorem retune_eq {o : Operator} (matching : o.rescaleRates o.ksr = o) (t : Tuning) :
    o.retune t =
      { o with increment := phaseStep o.multiple t }.rescaleRates (t.keyCode >>> o.ksrShift) := by
  unfold retune
  by_cases same : o.ksr = t.keyCode >>> o.ksrShift
  · simp only [← same]
    exact congrArg (fun p : Operator => { p with increment := phaseStep o.multiple t })
      matching.symm
  · simp only [if_neg same]

theorem follow_derive (o : Operator) (x : Context) (t : Tuning) :
    (o.derive x).follow t = o.derive { x with pitch := t } :=
  retune_eq rfl t

end Operator

namespace Chip

def context (c : Chip) (s : Slot) : Context := ⟨c.opl3Mode, c.pitch s.channel, c.route s⟩

def rederive (c : Chip) : Chip := c.mapOperators fun s o => o.derive (c.context s)

def Coherent (c : Chip) : Prop := ∀ s, (c.operator s).derive (c.context s) = c.operator s

/-- The fields outside operators, channels and pans. -/
def globals (c : Chip) : Chip :=
  { c with
    operators := .replicate 36 .zero
    channels := .replicate 18 .zero
    pans := .replicate 18 ⟨false, false⟩ }

theorem eq_of_fields {b c : Chip} (operators : ∀ s, b.operator s = c.operator s)
    (channels : ∀ ch, b.channel ch = c.channel ch) (pans : ∀ ch, b.pan ch = c.pan ch)
    (globals : b.globals = c.globals) : b = c := by
  have operators : b.operators = c.operators :=
    Vector.ext fun i hi => operators ⟨i, hi⟩
  have channels : b.channels = c.channels :=
    Vector.ext fun i hi => channels ⟨i, hi⟩
  have pans : b.pans = c.pans :=
    Vector.ext fun i hi => pans ⟨i, hi⟩
  cases b
  cases c
  simp_all [Chip.globals]

@[simp] theorem operator_rederive (c : Chip) (s : Slot) :
    c.rederive.operator s = (c.operator s).derive (c.context s) :=
  operator_mapOperators ..

@[simp] theorem channel_rederive (c : Chip) (ch : ChannelId) :
    c.rederive.channel ch = c.channel ch :=
  channel_mapOperators ..

@[simp] theorem pan_mapOperators (c : Chip) (f : Slot → Operator → Operator) (ch : ChannelId) :
    (c.mapOperators f).pan ch = c.pan ch := by
  simp only [pan, mapOperators]

@[simp] theorem globals_mapOperators (c : Chip) (f : Slot → Operator → Operator) :
    (c.mapOperators f).globals = c.globals := by
  simp only [globals, mapOperators]

@[simp] theorem pan_modifyOperator (c : Chip) (s : Slot) (f : Operator → Operator)
    (ch : ChannelId) : (c.modifyOperator s f).pan ch = c.pan ch := by
  simp only [pan, modifyOperator]

@[simp] theorem globals_modifyOperator (c : Chip) (s : Slot) (f : Operator → Operator) :
    (c.modifyOperator s f).globals = c.globals := by
  simp only [globals, modifyOperator]

@[simp] theorem opl3Mode_rederive (c : Chip) : c.rederive.opl3Mode = c.opl3Mode :=
  opl3Mode_mapOperators ..

theorem context_congr {b c : Chip} (mode : b.opl3Mode = c.opl3Mode)
    (joined : b.joined = c.joined) (tunings : b.tuning = c.tuning)
    (connections : b.connection = c.connection) : b.context = c.context := by
  ext s
  unfold context
  rw [mode, pitch_congr joined tunings, route_congr joined connections]

@[simp] theorem joined_rederive (c : Chip) : c.rederive.joined = c.joined :=
  joined_mapOperators c _

@[simp] theorem tuning_rederive (c : Chip) : c.rederive.tuning = c.tuning := by
  ext ch
  unfold tuning
  rw [channel_rederive]

@[simp] theorem connection_rederive (c : Chip) : c.rederive.connection = c.connection := by
  ext ch
  unfold connection
  rw [operator_rederive, Operator.connection_derive]

@[simp] theorem context_rederive (c : Chip) : c.rederive.context = c.context :=
  context_congr (opl3Mode_rederive c) (joined_rederive c) (tuning_rederive c)
    (connection_rederive c)

theorem coherent_rederive (c : Chip) : c.rederive.Coherent := by
  intro s
  rw [operator_rederive, context_rederive, Operator.derive_derive]

theorem Coherent.rederive_eq {c : Chip} (h : c.Coherent) : c.rederive = c :=
  eq_of_fields (fun s => (operator_rederive c s).trans (h s)) (channel_rederive c)
    (pan_mapOperators c _) (globals_mapOperators c _)

end Chip

end Ymf262
