import Mathlib.Data.Set.Insert
import Ymf262.Proofs.Address
import Ymf262.Proofs.Coherence

/-! What a register write can change. `Field` names every field of a chip, and `footprint` lists for
each register the fields that a write to it may change: its own, those that derive from them, and,
where pairs are concerned, those of the other half. All other fields of the chip stay as they are.
A store changes an operator in two ways, by its effect on the stored fields and by a new context,
and each of the two has a frame of its own. -/
namespace Ymf262

inductive OperatorField where
  | multiple
  | ksrShift
  | sustained
  | vibrato
  | feedback
  | connection
  | waveformNumber
  | waveform
  | attackCode
  | decayCode
  | releaseCode
  | sustainLevel
  | ksr
  | attack
  | decay
  | release
  | totalLevel
  | kslShift
  | am
  | attenuation
  | phase
  | increment
  | key
  | envelope
  | volume
  | destination
  deriving DecidableEq

inductive Field where
  | operator (s : Slot) (f : OperatorField)
  | blockFnum (ch : ChannelId)
  | keyCode (ch : ChannelId)
  | kslBase (ch : ChannelId)
  | extended (ch : ChannelId)
  | output (ch : ChannelId)
  | panLeft (ch : ChannelId)
  | panRight (ch : ChannelId)
  | phaseModA
  | phaseModB
  | opl3Mode
  | rhythmMode
  | amDepth
  | vibratoDepth
  | noteSelectValue
  | address
  | settings
  deriving DecidableEq

namespace Operator

def SameAt (o o' : Operator) : OperatorField → Prop
  | .multiple => o.multiple = o'.multiple
  | .ksrShift => o.ksrShift = o'.ksrShift
  | .sustained => o.sustained = o'.sustained
  | .vibrato => o.vibrato = o'.vibrato
  | .feedback => o.feedback = o'.feedback
  | .connection => o.connection = o'.connection
  | .waveformNumber => o.waveformNumber = o'.waveformNumber
  | .waveform => o.waveform = o'.waveform
  | .attackCode => o.attackCode = o'.attackCode
  | .decayCode => o.decayCode = o'.decayCode
  | .releaseCode => o.releaseCode = o'.releaseCode
  | .sustainLevel => o.sustainLevel = o'.sustainLevel
  | .ksr => o.ksr = o'.ksr
  | .attack => o.attack = o'.attack
  | .decay => o.decay = o'.decay
  | .release => o.release = o'.release
  | .totalLevel => o.totalLevel = o'.totalLevel
  | .kslShift => o.kslShift = o'.kslShift
  | .am => o.am = o'.am
  | .attenuation => o.attenuation = o'.attenuation
  | .phase => o.phase = o'.phase
  | .increment => o.increment = o'.increment
  | .key => o.key = o'.key
  | .envelope => o.envelope = o'.envelope
  | .volume => o.volume = o'.volume
  | .destination => o.destination = o'.destination

theorem SameAt.refl (o : Operator) (f : OperatorField) : o.SameAt o f := by
  cases f <;> rfl

theorem SameAt.trans {o p q : Operator} {f : OperatorField} (h : o.SameAt p f)
    (k : p.SameAt q f) : o.SameAt q f := by
  cases f <;> exact Eq.trans h k

theorem eq_of_sameAt {o o' : Operator} (h : ∀ f, o.SameAt o' f) : o = o' := by
  cases o
  cases o'
  congr 1
  exacts [h .multiple, h .ksrShift, h .sustained, h .vibrato, h .feedback, h .connection,
    h .waveformNumber, h .waveform, h .attackCode, h .decayCode, h .releaseCode, h .sustainLevel,
    h .ksr, h .attack, h .decay, h .release, h .totalLevel, h .kslShift, h .am, h .attenuation,
    h .phase, h .increment, h .key, h .envelope, h .volume, h .destination]

end Operator

namespace Chip

def SameAt (b c : Chip) : Field → Prop
  | .operator s f => (b.operator s).SameAt (c.operator s) f
  | .blockFnum ch => (b.tuning ch).blockFnum = (c.tuning ch).blockFnum
  | .keyCode ch => (b.tuning ch).keyCode = (c.tuning ch).keyCode
  | .kslBase ch => (b.tuning ch).kslBase = (c.tuning ch).kslBase
  | .extended ch => (b.channel ch).extended = (c.channel ch).extended
  | .output ch => (b.channel ch).output = (c.channel ch).output
  | .panLeft ch => (b.pan ch).left = (c.pan ch).left
  | .panRight ch => (b.pan ch).right = (c.pan ch).right
  | .phaseModA => b.phaseModA = c.phaseModA
  | .phaseModB => b.phaseModB = c.phaseModB
  | .opl3Mode => b.opl3Mode = c.opl3Mode
  | .rhythmMode => b.rhythmMode = c.rhythmMode
  | .amDepth => b.amDepth = c.amDepth
  | .vibratoDepth => b.vibratoDepth = c.vibratoDepth
  | .noteSelectValue => b.noteSelectValue = c.noteSelectValue
  | .address => b.address = c.address
  | .settings => b.settings = c.settings

/-- The fields make up the whole chip. -/
theorem eq_of_sameAt {b c : Chip} (h : ∀ f, b.SameAt c f) : b = c := by
  apply eq_of_fields
  · exact fun s => Operator.eq_of_sameAt fun f => h (.operator s f)
  · intro ch
    have tuning : b.tuning ch = c.tuning ch := by
      generalize hb : b.tuning ch = t
      generalize hc : c.tuning ch = u
      have word := h (.blockFnum ch)
      have code := h (.keyCode ch)
      have base := h (.kslBase ch)
      simp only [SameAt, hb, hc] at word code base
      cases t
      cases u
      congr 1
    have mark : (b.channel ch).extended = (c.channel ch).extended := h (.extended ch)
    have output : (b.channel ch).output = (c.channel ch).output := h (.output ch)
    unfold Chip.tuning at tuning
    generalize b.channel ch = x at tuning mark output ⊢
    generalize c.channel ch = y at tuning mark output ⊢
    cases x
    cases y
    congr 1
  · intro ch
    have left : (b.pan ch).left = (c.pan ch).left := h (.panLeft ch)
    have right : (b.pan ch).right = (c.pan ch).right := h (.panRight ch)
    generalize b.pan ch = x at left right ⊢
    generalize c.pan ch = y at left right ⊢
    cases x
    cases y
    congr 1
  · have mode : b.opl3Mode = c.opl3Mode := h .opl3Mode
    have rhythm : b.rhythmMode = c.rhythmMode := h .rhythmMode
    have am : b.amDepth = c.amDepth := h .amDepth
    have vibrato : b.vibratoDepth = c.vibratoDepth := h .vibratoDepth
    have noteSelect : b.noteSelectValue = c.noteSelectValue := h .noteSelectValue
    have sumA : b.phaseModA = c.phaseModA := h .phaseModA
    have sumB : b.phaseModB = c.phaseModB := h .phaseModB
    have address : b.address = c.address := h .address
    have settings : b.settings = c.settings := h .settings
    simp only [globals, mode, rhythm, am, vibrato, noteSelect, sumA, sumB, address, settings]

end Chip

/-! The table. -/

def OperatorField.ofPitch : List OperatorField :=
  [.attenuation, .increment, .ksr, .attack, .decay, .release]

def OperatorField.ofKey : List OperatorField := [.key, .phase, .envelope]

/-- The fields of an operator register and those that derive from them. -/
def OperatorRegister.fields : OperatorRegister → List OperatorField
  | tone =>
    [.multiple, .ksrShift, .sustained, .vibrato, .am, .increment, .ksr, .attack, .decay, .release]
  | level => [.totalLevel, .kslShift, .attenuation]
  | attackDecay => [.attackCode, .decayCode, .attack, .decay]
  | sustainRelease => [.sustainLevel, .releaseCode, .release]
  | waveform => [.waveformNumber, .waveform]

namespace Chip

/-- The operators that a channel gives its pitch and its key: its own, unless it is the second half
of a joined pair, and those of the second half while it leads one. -/
def Drives (c : Chip) (ch : ChannelId) (s : Slot) : Prop :=
  s.channel = ch ∧ (∀ p, c.joined p → ch ≠ p.secondary) ∨
    ∃ p, c.joined p ∧ ch = p.primary ∧ s.channel = p.secondary

/-- The operators of a channel, and of both halves while its pair is joined. -/
def SharesVoice (c : Chip) (ch : ChannelId) (s : Slot) : Prop :=
  s.channel = ch ∨
    ∃ p, c.joined p ∧ (ch = p.primary ∨ ch = p.secondary) ∧
      (s.channel = p.primary ∨ s.channel = p.secondary)

def Toggles (c : Chip) (v : Byte) (p : Pair) : Register → Prop
  | .fourOpEnable => c.opl3Mode = true ∧ (c.channel p.primary).extended ≠ v.bit p
  | .opl3Enable => c.opl3Mode ≠ v.bit 0 ∧ (c.channel p.primary).extended = true
  | _ => False

/-- Both halves of a pair that is joined or split are routed anew, and the second half gets another
pitch. -/
def toggleFootprint (c : Chip) (v : Byte) (r : Register) : Set Field :=
  {f | ∃ p, c.Toggles v p r ∧
    ((∃ s, (s.channel = p.primary ∨ s.channel = p.secondary) ∧ f = .operator s .destination) ∨
      ∃ s, s.channel = p.secondary ∧ ∃ g ∈ OperatorField.ofPitch, f = .operator s g)}

/-- The fields that a write to a register may change. -/
def footprint (c : Chip) (v : Byte) : Register → Set Field
  | .noteSelect => {.noteSelectValue}
  | .operator kind s => {f | ∃ g ∈ kind.fields, f = .operator s g}
  | .channel .fnumLow ch =>
    {.blockFnum ch, .keyCode ch, .kslBase ch} ∪
      {f | ∃ s, c.Drives ch s ∧ ∃ g ∈ OperatorField.ofPitch, f = .operator s g}
  | .channel .keyBlock ch =>
    {.blockFnum ch, .keyCode ch, .kslBase ch} ∪
      {f | ∃ s, c.Drives ch s ∧
        ∃ g ∈ OperatorField.ofPitch ++ OperatorField.ofKey, f = .operator s g}
  | .channel .connection ch =>
    {.panLeft ch, .panRight ch, .operator ch.modulator .feedback,
      .operator ch.modulator .connection} ∪
      {f | ∃ s, c.SharesVoice ch s ∧ f = .operator s .destination}
  | .rhythm =>
    {.amDepth, .vibratoDepth, .rhythmMode} ∪
      {f | ∃ s ∈ [12, 13, 14, 15, 16, 17], ∃ g ∈ OperatorField.ofKey, f = .operator s g}
  | .fourOpEnable => {f | ∃ p : Pair, f = .extended p.primary} ∪ c.toggleFootprint v .fourOpEnable
  | .opl3Enable =>
    {f | c.opl3Mode ≠ v.bit 0 ∧ (f = .opl3Mode ∨
      ∃ s, 4 ≤ (c.operator s).waveformNumber ∧ f = .operator s .waveform)} ∪
      c.toggleFootprint v .opl3Enable

end Chip

/-! The frame of an effect, and that of a context. -/

namespace Operator

variable {o : Operator} {x y : Context} {f : OperatorField}

theorem effectiveWaveform_of_lt {mode : Bool} {number : Nat} (low : number < 4) :
    effectiveWaveform mode number = number := by
  cases mode with
  | false => exact Nat.mod_eq_of_lt low
  | true => rfl

theorem sameAt_put (kind : OperatorRegister) (k : UInt32) (v : Byte) (outside : f ∉ kind.fields) :
    ((o.put kind k v).derive x).SameAt (o.derive x) f := by
  cases kind with
  | tone =>
    cases f with
    | multiple | ksrShift | sustained | vibrato | am | increment | ksr | attack | decay | release =>
      exact absurd (by decide) outside
    | _ => rfl
  | level =>
    cases f with
    | totalLevel | kslShift | attenuation => exact absurd (by decide) outside
    | _ => rfl
  | attackDecay =>
    cases f with
    | attackCode | decayCode | attack | decay => exact absurd (by decide) outside
    | _ => rfl
  | sustainRelease =>
    cases f with
    | sustainLevel | releaseCode | release => exact absurd (by decide) outside
    | _ => rfl
  | waveform =>
    cases f with
    | waveformNumber | waveform => exact absurd (by decide) outside
    | _ => rfl

theorem sameAt_setKey (source : KeySource) (on : Bool) (outside : f ∉ OperatorField.ofKey) :
    ((o.setKey source on).derive x).SameAt (o.derive x) f := by
  rw [setKey_eq]
  cases f with
  | key | phase | envelope => exact absurd (by decide) outside
  | _ => rfl

theorem sameAt_writeFeedback (v : Byte) (feedback : f ≠ .feedback) (connection : f ≠ .connection) :
    ((o.writeFeedback v).derive x).SameAt (o.derive x) f := by
  cases f with
  | feedback => exact absurd rfl feedback
  | connection => exact absurd rfl connection
  | _ => rfl

theorem sameAt_derive
    (waveform : f = .waveform → effectiveWaveform y.opl3Mode o.waveformNumber =
      effectiveWaveform x.opl3Mode o.waveformNumber)
    (pitch : f ∈ OperatorField.ofPitch → y.pitch = x.pitch)
    (place : f = .destination → y.place = x.place) :
    (o.derive y).SameAt (o.derive x) f := by
  cases f with
  | waveform => exact waveform rfl
  | destination => exact place rfl
  | attenuation | increment | ksr | attack | decay | release =>
    have same := pitch (by decide)
    simp only [SameAt, derive, same]
  | _ => rfl

end Operator

namespace Pair

theorem primary_inj {p q : Pair} (h : p.primary = q.primary) : p = q := by
  revert p q
  decide

end Pair

namespace Chip

variable {c : Chip} {r : Register} {v : Byte} {s : Slot}

/-! Leaders stand for the pairs that the table speaks of. -/

theorem drives_of_leader {ch : ChannelId} (led : c.leader s.channel = ch) : c.Drives ch s := by
  cases active : c.activePair? s.channel with
  | none =>
    rw [leader_of_none active] at led
    refine .inl ⟨led, fun p joined second => ?_⟩
    rw [led, second, activePair?_secondary joined] at active
    cases active
  | some p =>
    obtain ⟨joined, place⟩ := activePair?_eq_some_iff.mp active
    rw [leader_of_some active] at led
    subst led
    rcases place with first | second
    · exact .inl ⟨first, fun q _ => p.primary_ne_secondary_of q⟩
    · exact .inr ⟨p, joined, rfl, second⟩

theorem sharesVoice_of_leader {ch : ChannelId} (led : c.leader s.channel = c.leader ch) :
    c.SharesVoice ch s := by
  cases active : c.activePair? ch with
  | none =>
    rw [leader_of_none active] at led
    rcases drives_of_leader led with ⟨own, -⟩ | ⟨p, joined, first, -⟩
    · exact .inl own
    · rw [first, activePair?_primary joined] at active
      cases active
  | some p =>
    obtain ⟨joined, place⟩ := activePair?_eq_some_iff.mp active
    rw [leader_of_some active] at led
    refine .inr ⟨p, joined, place, ?_⟩
    rcases drives_of_leader led with ⟨first, -⟩ | ⟨q, -, same, second⟩
    · exact .inl first
    · exact .inr (Pair.primary_inj same ▸ second)

theorem toggles_of_joined {p : Pair} (h : c.joined p ≠ (c.put r v).joined p) :
    c.Toggles v p r := by
  have mode := opl3Mode_put c r v
  have mark : ((c.put r v).channel p.primary).extended =
      putMark r v p.primary (c.channel p.primary).extended := by
    rw [channel_put]
  rw [joined, joined, mode, mark] at h
  cases r with
  | fourOpEnable =>
    simp only [putMark, reduceCtorEq, if_true, if_false, Pair.startingAt?_primary,
      Option.elim_some] at h
    constructor
    · by_contra off
      rw [Bool.not_eq_true] at off
      rw [off] at h
      exact h rfl
    · intro same
      rw [same] at h
      exact h rfl
  | opl3Enable =>
    simp only [putMark, reduceCtorEq, if_true, if_false] at h
    constructor
    · intro same
      rw [same] at h
      exact h rfl
    · by_contra off
      rw [Bool.not_eq_true] at off
      rw [off, Bool.and_false, Bool.and_false] at h
      exact h rfl
  | _ => exact absurd rfl h

theorem toggles_of_toggled {ch : ChannelId} {p : Pair}
    (h : toggled c (c.put r v) ch = some p) :
    c.Toggles v p r ∧ (ch = p.primary ∨ ch = p.secondary) := by
  refine ⟨toggles_of_joined ?_, toggled_eq_some h⟩
  have := (Option.filter_eq_some_iff.mp h).2
  simpa using this

/-! What a store does to a context. -/

theorem putTuning_of_ne {ch : ChannelId} (low : r ≠ .channel .fnumLow ch)
    (high : r ≠ .channel .keyBlock ch) (t : Tuning) : c.putTuning r v ch t = t := by
  cases r with
  | channel kind d =>
    cases kind with
    | fnumLow =>
      simp only [putTuning]
      rw [if_neg]
      rintro rfl
      exact low rfl
    | keyBlock =>
      simp only [putTuning]
      rw [if_neg]
      rintro rfl
      exact high rfl
    | connection => rfl
  | _ => rfl

theorem pitch_put {ch : ChannelId} (low : r ≠ .channel .fnumLow (c.leader ch))
    (high : r ≠ .channel .keyBlock (c.leader ch))
    (toggles : ∀ p, c.Toggles v p r → ch ≠ p.secondary) : (c.put r v).pitch ch = c.pitch ch := by
  have leader : (c.put r v).leader ch = c.leader ch := by
    cases h : toggled c (c.put r v) ch with
    | none => rw [Chip.leader, Chip.leader, activePair?_of_not_toggled h]
    | some p =>
      obtain ⟨toggled, place⟩ := toggles_of_toggled h
      rw [place.resolve_right (toggles p toggled), leader_primary, leader_primary]
  rw [pitch, pitch, leader, tuning_put, putTuning_of_ne low high]

theorem route_put
    (connection : ∀ ch, r = .channel .connection ch → c.leader s.channel ≠ c.leader ch)
    (toggles : ∀ p, c.Toggles v p r → s.channel ≠ p.primary ∧ s.channel ≠ p.secondary) :
    (c.put r v).route s = c.route s := by
  by_cases own : ∃ ch, r = .channel .connection ch
  · obtain ⟨ch, rfl⟩ := own
    apply route_of_voice (joined_put (by simp) (by simp))
    intro d voice
    rw [connection_put, if_neg]
    simp only [Register.channel.injEq, true_and]
    rintro rfl
    exact connection ch rfl voice.symm
  · have connections : (c.put r v).connection = c.connection := by
      ext ch
      rw [connection_put, if_neg fun h => own ⟨ch, h⟩]
    have active : (c.put r v).activePair? s.channel = c.activePair? s.channel := by
      cases h : toggled c (c.put r v) s.channel with
      | none => exact (activePair?_of_not_toggled h).symm
      | some p =>
        obtain ⟨toggled, place⟩ := toggles_of_toggled h
        exact absurd place (not_or.mpr (toggles p toggled))
    simp only [route, active, connectionCode, connections]

theorem Keys.notMem_ofKey {f : OperatorField} (keys : c.Keys r s)
    (outside : .operator s f ∉ c.footprint v r) : f ∉ OperatorField.ofKey := by
  intro key
  apply outside
  rcases keys with ⟨ch, rfl, led⟩ | ⟨rfl, drum⟩
  · simp only [leads, decide_eq_true_eq] at led
    exact .inr ⟨s, drives_of_leader led, f, List.mem_append_right _ key, rfl⟩
  · have drums : ∀ t, rhythmBit? t ≠ none → t ∈ [12, 13, 14, 15, 16, 17] := by decide
    exact .inr ⟨s, drums s drum, f, key, rfl⟩

/-! The frame of a store, part by part. -/

theorem waveform_put (outside : .operator s .waveform ∉ c.footprint v r) :
    Operator.effectiveWaveform (c.put r v).opl3Mode
        (c.putOperator r v s (c.operator s)).waveformNumber =
      Operator.effectiveWaveform c.opl3Mode
        (c.putOperator r v s (c.operator s)).waveformNumber := by
  rw [opl3Mode_put]
  by_cases mode : r = .opl3Enable
  · subst mode
    by_cases same : c.opl3Mode = v.bit 0
    · rw [if_pos rfl, same]
    · have low : (c.operator s).waveformNumber < 4 := by
        by_contra high
        exact outside (.inl ⟨same, .inr ⟨s, Nat.le_of_not_lt high, rfl⟩⟩)
      exact (Operator.effectiveWaveform_of_lt low).trans
        (Operator.effectiveWaveform_of_lt low).symm
  · rw [if_neg mode]

/-- A new context reaches an operator through the mode, the pitch of its voice and its place there;
each of the three moves only with the registers that the table has for it. -/
theorem sameAt_context {f : OperatorField} (outside : .operator s f ∉ c.footprint v r) :
    ((c.putOperator r v s (c.operator s)).derive ((c.put r v).context s)).SameAt
      ((c.putOperator r v s (c.operator s)).derive (c.context s)) f := by
  have toggled {p : Pair} (h : c.Toggles v p r) : .operator s f ∉ c.toggleFootprint v r := by
    cases r with
    | fourOpEnable | opl3Enable => exact fun member => outside (.inr member)
    | _ => exact h.elim
  apply Operator.sameAt_derive
  · rintro rfl
    exact waveform_put outside
  · intro pitch
    have low : r ≠ .channel .fnumLow (c.leader s.channel) := by
      rintro rfl
      exact outside (.inr ⟨s, drives_of_leader rfl, f, pitch, rfl⟩)
    have high : r ≠ .channel .keyBlock (c.leader s.channel) := by
      rintro rfl
      exact outside (.inr ⟨s, drives_of_leader rfl, f, List.mem_append_left _ pitch, rfl⟩)
    have same : (c.put r v).pitch s.channel = c.pitch s.channel :=
      pitch_put low high fun p toggles second =>
        toggled toggles ⟨p, toggles, .inr ⟨s, second, f, pitch, rfl⟩⟩
    rw [context, context, same]
  · rintro rfl
    have connection : ∀ ch, r = .channel .connection ch → c.leader s.channel ≠ c.leader ch := by
      rintro ch rfl led
      exact outside (.inr ⟨s, sharesVoice_of_leader led, rfl⟩)
    have same : (c.put r v).route s = c.route s :=
      route_put connection fun p toggles => not_or.mp fun place =>
        toggled toggles ⟨p, toggles, .inl ⟨s, place, rfl⟩⟩
    rw [context, context, same]

theorem sameAt_effect {f : OperatorField} (outside : .operator s f ∉ c.footprint v r)
    (x : Context) :
    ((c.putOperator r v s (c.operator s)).derive x).SameAt ((c.operator s).derive x) f := by
  have effect := c.effect_putOperator r v s
  generalize c.putOperator r v s = change at effect ⊢
  cases effect with
  | none => exact .refl _ f
  | field kind own =>
    subst own
    exact Operator.sameAt_put kind _ v fun field => outside ⟨f, field, rfl⟩
  | key source on keys => exact Operator.sameAt_setKey source on (keys.notMem_ofKey outside)
  | feedback ch own place =>
    subst own place
    apply Operator.sameAt_writeFeedback
    · rintro rfl
      exact outside (.inl (by simp))
    · rintro rfl
      exact outside (.inl (by simp))

theorem sameAt_operator (coherent : c.Coherent) {f : OperatorField}
    (outside : .operator s f ∉ c.footprint v r) :
    ((c.store r v).operator s).SameAt (c.operator s) f := by
  rw [store_eq coherent, operator_rederive, operator_put]
  -- First back to the old context, and there the effect is undone.
  have context := sameAt_context outside
  have effect := sameAt_effect outside (c.context s)
  rw [coherent s] at effect
  exact context.trans effect

theorem tuning_store_of_outside (coherent : c.Coherent) {ch : ChannelId} {f : Field}
    (own : f = .blockFnum ch ∨ f = .keyCode ch ∨ f = .kslBase ch) (outside : f ∉ c.footprint v r) :
    (c.store r v).tuning ch = c.tuning ch := by
  rw [tuning_store coherent]
  apply putTuning_of_ne
  · rintro rfl
    exact outside (.inl own)
  · rintro rfl
    exact outside (.inl own)

theorem pan_store_of_outside (coherent : c.Coherent) {ch : ChannelId} {f : Field}
    (own : f = .panLeft ch ∨ f = .panRight ch) (outside : f ∉ c.footprint v r) :
    (c.store r v).pan ch = c.pan ch := by
  rw [pan_store coherent, putPan, if_neg]
  rintro rfl
  rcases own with rfl | rfl
  · exact outside (.inl (.inl rfl))
  · exact outside (.inl (.inr (.inl rfl)))

theorem putMark_of_outside {ch : ChannelId} (outside : .extended ch ∉ c.footprint v r)
    (extended : Bool) : putMark r v ch extended = extended := by
  by_cases marks : r = .fourOpEnable
  · subst marks
    rw [putMark, if_pos rfl]
    cases first : Pair.startingAt? ch with
    | none => rfl
    | some p => exact absurd (.inl ⟨p, Pair.eq_primary_of_startingAt? first ▸ rfl⟩) outside
  · rw [putMark, if_neg marks]

/-- A store keeps every field outside its footprint. -/
theorem sameAt_store (coherent : c.Coherent) {f : Field} (outside : f ∉ c.footprint v r) :
    (c.store r v).SameAt c f := by
  cases f with
  | operator s f => exact sameAt_operator coherent outside
  | blockFnum ch =>
    exact congrArg Tuning.blockFnum (tuning_store_of_outside coherent (.inl rfl) outside)
  | keyCode ch =>
    exact congrArg Tuning.keyCode (tuning_store_of_outside coherent (.inr (.inl rfl)) outside)
  | kslBase ch =>
    exact congrArg Tuning.kslBase (tuning_store_of_outside coherent (.inr (.inr rfl)) outside)
  | panLeft ch => exact congrArg Pan.left (pan_store_of_outside coherent (.inl rfl) outside)
  | panRight ch => exact congrArg Pan.right (pan_store_of_outside coherent (.inr rfl) outside)
  | extended ch =>
    rw [store_eq coherent, SameAt, channel_rederive, channel_put]
    exact putMark_of_outside outside _
  | output ch => rw [store_eq coherent, SameAt, channel_rederive, channel_put]
  | opl3Mode =>
    rw [store_eq coherent, SameAt, opl3Mode_rederive, opl3Mode_put]
    by_cases own : r = .opl3Enable
    · subst own
      by_contra other
      exact outside (.inl ⟨Ne.symm (by simpa using other), .inl rfl⟩)
    · exact if_neg own
  | rhythmMode | amDepth | vibratoDepth =>
    have other : r ≠ .rhythm := by
      rintro rfl
      exact outside (.inl (by simp))
    simp only [store_eq coherent, SameAt, rederive, mapOperators, put, if_neg other]
  | noteSelectValue =>
    have other : r ≠ .noteSelect := by
      rintro rfl
      exact outside rfl
    simp only [store_eq coherent, SameAt, rederive, mapOperators, put, if_neg other]
  | phaseModA | phaseModB | address | settings =>
    simp only [store_eq coherent, SameAt, rederive, mapOperators, put]

/-- After every run, a write keeps all fields outside the footprint of its register, under each
address that the register has, and a write to no register keeps the chip. Nothing is left out: a
chip that agrees in every field is the same chip. -/
theorem footprint_run (settings : Settings) (actions : List Action) {a : UInt16}
    (bound : a.toNat ≤ 0x1FF) (v : Byte) :
    let c := (fresh settings).run actions
    (∀ r : Register, Register.canonical a = r.address →
      ∀ f ∉ c.footprint v r, (c.write a v).SameAt c f) ∧
    ((∀ r : Register, Register.canonical a ≠ r.address) → c.write a v = c) ∧
    ∀ b : Chip, (∀ f, b.SameAt c f) → b = c := by
  intro c
  have coherent : c.Coherent := coherent_run settings actions
  have within : a.toNat < 0x200 := Nat.lt_succ_of_le bound
  refine ⟨?_, ?_, fun b => eq_of_sameAt⟩
  · intro r named f outside
    rw [write_of_some ((Register.canonical_eq_address_iff within).mp named)]
    exact sameAt_store coherent outside
  · intro unnamed
    apply write_of_none
    rw [Option.eq_none_iff_forall_ne_some]
    exact fun r named => unnamed r (Register.canonical_of_ofAddress? within named)

/-- The second half of a joined pair is keyed: its operators belong to the first half, so they hear
nothing of it. -/
theorem footprint_run_secondary :
    let c := (fresh .default).run [.write ⟨0x105, 1⟩, .write ⟨0x104, 0x01⟩]
    (0xB3 : UInt16).toNat ≤ 0x1FF ∧ c.joined 0 ∧
      (c.write 0xB3 0x31).operator 6 = c.operator 6 := by
  intro c
  have bound : (0xB3 : UInt16).toNat ≤ 0x1FF := by decide
  have joined : c.joined 0 := by
    simp only [c, fresh_eq]
    decide +kernel
  obtain ⟨keeps, -, -⟩ := footprint_run .default _ bound 0x31
  refine ⟨bound, joined, Operator.eq_of_sameAt fun f => ?_⟩
  apply keeps (.channel .keyBlock 3) (by decide) (.operator 6 f)
  rintro (tuning | ⟨s, drives, g, -, same⟩)
  · simp at tuning
  · cases same
    rcases drives with ⟨-, single⟩ | ⟨p, -, first, -⟩
    · exact single 0 joined rfl
    · exact p.primary_ne_secondary_of 0 first.symm

end Chip

end Ymf262
