import Ymf262.Proofs.Derived

/-! A register write on the stored fields alone. Each stored field of the result depends on the
same field before and on little else of the chip: the leaders of the channels, the mode, note
select and the settings. On a coherent chip a write is this, with every derived value computed
afresh; so what a write refreshes on its way is all that it has to. -/
namespace Ymf262

/-- An unchanged word leaves the key code alone. -/
def Tuning.update (t : Tuning) (blockFnum : Nat) (noteSelect : Bool) : Tuning :=
  if t.blockFnum = blockFnum then t else .of blockFnum noteSelect

@[simp] theorem Tuning.blockFnum_update (t : Tuning) (blockFnum : Nat) (noteSelect : Bool) :
    (t.update blockFnum noteSelect).blockFnum = blockFnum := by
  rw [update]
  split
  · assumption
  · rfl

namespace Operator

def put (o : Operator) (kind : OperatorRegister) (pitchCoef : UInt32) (v : Byte) : Operator :=
  match kind with
  | .tone => o.writeTone pitchCoef v
  | .level => o.writeLevel v
  | .attackDecay => { o with attackCode := Rate.code v.high, decayCode := Rate.code v.low }
  | .sustainRelease =>
    { o with
      sustainLevel := 2 * sustainLevels.getD v.high 0
      releaseCode := Rate.code v.low }
  | .waveform => { o with waveformNumber := v.toNat % 8 }

@[simp] theorem connection_put (o : Operator) (kind : OperatorRegister) (k : UInt32) (v : Byte) :
    (o.put kind k v).connection = o.connection := by
  cases kind <;> rfl

/-! Registers, keys and feedback have fields of their own. -/

@[simp] theorem put_put (o : Operator) (kind : OperatorRegister) (k : UInt32) (v w : Byte) :
    (o.put kind k v).put kind k w = o.put kind k w := by
  cases kind <;> rfl

theorem put_comm (o : Operator) {kind other : OperatorRegister} (ne : kind ≠ other) (k : UInt32)
    (v w : Byte) : (o.put kind k v).put other k w = (o.put other k w).put kind k v := by
  cases kind <;> cases other <;> first | rfl | exact absurd rfl ne

theorem setKey_put (o : Operator) (kind : OperatorRegister) (k : UInt32) (v : Byte)
    (source : KeySource) (on : Bool) :
    (o.put kind k v).setKey source on = (o.setKey source on).put kind k v := by
  rw [setKey_eq, setKey_eq]
  cases kind <;> rfl

theorem writeFeedback_put (o : Operator) (kind : OperatorRegister) (k : UInt32) (v w : Byte) :
    (o.put kind k v).writeFeedback w = (o.writeFeedback w).put kind k v := by
  cases kind <;> rfl

theorem writeFeedback_setKey (o : Operator) (source : KeySource) (on : Bool) (v : Byte) :
    (o.setKey source on).writeFeedback v = (o.writeFeedback v).setKey source on := by
  rw [setKey_eq, setKey_eq]
  rfl

@[simp] theorem writeFeedback_writeFeedback (o : Operator) (v w : Byte) :
    (o.writeFeedback v).writeFeedback w = o.writeFeedback w := rfl

theorem put_derive_put (o : Operator) (x : Context) (kind : OperatorRegister) (k : UInt32)
    (v : Byte) : ((o.put kind k v).derive x).put kind k v = (o.put kind k v).derive x := by
  cases kind <;> rfl

theorem derive_put_derive (o : Operator) (x y : Context) (kind : OperatorRegister) (k : UInt32)
    (v : Byte) : ((o.derive x).put kind k v).derive y = (o.put kind k v).derive y := by
  cases kind <;> rfl

@[simp] theorem connection_setKey (o : Operator) (source : KeySource) (on : Bool) :
    (o.setKey source on).connection = o.connection := by
  rw [setKey_eq]

end Operator

theorem ChannelId.modulator_inj {a b : ChannelId} : a.modulator = b.modulator ↔ a = b :=
  ⟨fun h => by simpa using congrArg Slot.channel h, congrArg _⟩

namespace Chip

def putOperator (c : Chip) (r : Register) (v : Byte) (s : Slot) (o : Operator) : Operator :=
  match r with
  | .operator kind t => if s = t then o.put kind c.settings.pitchCoef v else o
  | .channel .keyBlock ch => if c.leads ch s then o.setKey .note (v.bit 5) else o
  | .channel .connection ch => if s = ch.modulator then o.writeFeedback v else o
  | .rhythm =>
    match rhythmBit? s with
    | some i => o.setKey .rhythm (v.bit 5 && v.bit i)
    | none => o
  | _ => o

def putTuning (c : Chip) (r : Register) (v : Byte) (ch : ChannelId) (t : Tuning) : Tuning :=
  match r with
  | .channel .fnumLow d =>
    if ch = d then t.update (Tuning.withLow t.blockFnum v.toNat) c.noteSelect else t
  | .channel .keyBlock d =>
    if ch = d then t.update (Tuning.withHigh t.blockFnum v.toNat) c.noteSelect else t
  | _ => t

def putMark (r : Register) (v : Byte) (ch : ChannelId) (extended : Bool) : Bool :=
  if r = .fourOpEnable then (Pair.startingAt? ch).elim extended fun p => v.bit p else extended

def putPan (c : Chip) (r : Register) (v : Byte) (ch : ChannelId) (p : Pan) : Pan :=
  if r = .channel .connection ch then c.panOf v else p

def put (c : Chip) (r : Register) (v : Byte) : Chip :=
  { c with
    operators := .ofFn fun s => c.putOperator r v s (c.operator s)
    channels := .ofFn fun ch =>
      { c.channel ch with
        tuning := c.putTuning r v ch (c.tuning ch)
        extended := putMark r v ch (c.channel ch).extended }
    pans := .ofFn fun ch => c.putPan r v ch (c.pan ch)
    opl3Mode := if r = .opl3Enable then v.bit 0 else c.opl3Mode
    rhythmMode := if r = .rhythm then v.bit 5 else c.rhythmMode
    amDepth := if r = .rhythm then v.bit 7 else c.amDepth
    vibratoDepth := if r = .rhythm then v.bit 6 else c.vibratoDepth
    noteSelectValue := if r = .noteSelect then v else c.noteSelectValue }

@[simp] theorem operator_put (c : Chip) (r : Register) (v : Byte) (s : Slot) :
    (c.put r v).operator s = c.putOperator r v s (c.operator s) := by
  simp [operator, put]

@[simp] theorem channel_put (c : Chip) (r : Register) (v : Byte) (ch : ChannelId) :
    (c.put r v).channel ch =
      { c.channel ch with
        tuning := c.putTuning r v ch (c.tuning ch)
        extended := putMark r v ch (c.channel ch).extended } := by
  simp [channel, put]

@[simp] theorem tuning_put (c : Chip) (r : Register) (v : Byte) (ch : ChannelId) :
    (c.put r v).tuning ch = c.putTuning r v ch (c.tuning ch) := by
  rw [tuning, channel_put]

@[simp] theorem pan_put (c : Chip) (r : Register) (v : Byte) (ch : ChannelId) :
    (c.put r v).pan ch = c.putPan r v ch (c.pan ch) := by
  simp [pan, put]

@[simp] theorem settings_put (c : Chip) (r : Register) (v : Byte) :
    (c.put r v).settings = c.settings := by
  simp only [put]

theorem opl3Mode_put (c : Chip) (r : Register) (v : Byte) :
    (c.put r v).opl3Mode = if r = .opl3Enable then v.bit 0 else c.opl3Mode := by
  simp only [put]

/-- A store turns a key of the slot. -/
def Keys (c : Chip) (r : Register) (s : Slot) : Prop :=
  (∃ ch, r = .channel .keyBlock ch ∧ c.leads ch s) ∨ r = .rhythm ∧ rhythmBit? s ≠ none

/-- What a store can do to the operator of a slot. -/
inductive Effect (c : Chip) (r : Register) (v : Byte) (s : Slot) : (Operator → Operator) → Prop
  | none (field : ∀ kind, r ≠ .operator kind s)
      (feedback : ∀ ch, r = .channel .connection ch → s ≠ ch.modulator) : Effect c r v s id
  | field (kind : OperatorRegister) (own : r = .operator kind s) :
      Effect c r v s (·.put kind c.settings.pitchCoef v)
  | key (source : KeySource) (on : Bool) (keys : c.Keys r s) : Effect c r v s (·.setKey source on)
  | feedback (ch : ChannelId) (own : r = .channel .connection ch) (place : s = ch.modulator) :
      Effect c r v s (·.writeFeedback v)

theorem effect_putOperator (c : Chip) (r : Register) (v : Byte) (s : Slot) :
    Effect c r v s (c.putOperator r v s) := by
  cases r with
  | operator kind t =>
    by_cases hs : s = t
    · have own : c.putOperator (.operator kind t) v s = (·.put kind c.settings.pitchCoef v) :=
        funext fun _ => if_pos hs
      rw [own]
      exact .field kind (hs ▸ rfl)
    · have unmoved : c.putOperator (.operator kind t) v s = id := funext fun _ => if_neg hs
      rw [unmoved]
      exact .none (by simp [Ne.symm hs]) (by simp)
  | channel kind ch =>
    cases kind with
    | fnumLow => exact .none (by simp) (by simp)
    | keyBlock =>
      by_cases led : c.leads ch s
      · have own : c.putOperator (.channel .keyBlock ch) v s = (·.setKey .note (v.bit 5)) :=
          funext fun _ => if_pos led
        rw [own]
        exact .key _ _ (.inl ⟨ch, rfl, led⟩)
      · have unmoved : c.putOperator (.channel .keyBlock ch) v s = id :=
          funext fun _ => if_neg led
        rw [unmoved]
        exact .none (by simp) (by simp)
    | connection =>
      by_cases hs : s = ch.modulator
      · have own : c.putOperator (.channel .connection ch) v s = (·.writeFeedback v) :=
          funext fun _ => if_pos hs
        rw [own]
        exact .feedback ch rfl hs
      · have unmoved : c.putOperator (.channel .connection ch) v s = id :=
          funext fun _ => if_neg hs
        rw [unmoved]
        refine .none (by simp) ?_
        rintro d same
        cases same
        exact hs
  | rhythm =>
    cases rhythm : rhythmBit? s with
    | none =>
      have unmoved : c.putOperator .rhythm v s = id := by
        funext o
        simp only [putOperator, rhythm, id]
      rw [unmoved]
      exact .none (by simp) (by simp)
    | some i =>
      have own : c.putOperator .rhythm v s = (·.setKey .rhythm (v.bit 5 && v.bit i)) := by
        funext o
        simp only [putOperator, rhythm]
      rw [own]
      exact .key _ _ (.inr ⟨rfl, by simp [rhythm]⟩)
  | _ => exact .none (by simp) (by simp)

theorem channel_of_rhythmBit? {s : Slot} (rhythm : rhythmBit? s ≠ none) :
    (6 ≤ s.channel.val ∧ s.channel.val ≤ 8) ∧ Pair.containing? s.channel = none := by
  revert s
  decide

theorem Keys.ne_operator {c : Chip} {r : Register} {s : Slot} (h : c.Keys r s)
    (kind : OperatorRegister) (t : Slot) : r ≠ .operator kind t := by
  rcases h with ⟨ch, rfl, -⟩ | ⟨rfl, -⟩ <;> simp

theorem Keys.ne_connection {c : Chip} {r : Register} {s : Slot} (h : c.Keys r s)
    (ch : ChannelId) : r ≠ .channel .connection ch := by
  rcases h with ⟨d, rfl, -⟩ | ⟨rfl, -⟩ <;> simp

theorem connection_put (c : Chip) (r : Register) (v : Byte) (ch : ChannelId) :
    (c.put r v).connection ch =
      if r = .channel .connection ch then v.bit 0 else c.connection ch := by
  have effect := c.effect_putOperator r v ch.modulator
  rw [connection, operator_put]
  generalize c.putOperator r v ch.modulator = f at effect ⊢
  cases effect with
  | none field feedback =>
    rw [if_neg fun own => feedback ch own rfl]
    rfl
  | field kind own =>
    rw [if_neg (by simp [own]), Operator.connection_put, connection]
  | key source on keys =>
    rw [if_neg (keys.ne_connection ch), Operator.connection_setKey, connection]
  | feedback d own place =>
    rw [if_pos (ChannelId.modulator_inj.mp place ▸ own)]
    rfl

theorem joined_put {c : Chip} {r : Register} {v : Byte} (mode : r ≠ .opl3Enable)
    (marks : r ≠ .fourOpEnable) : (c.put r v).joined = c.joined := by
  apply joined_congr
  · rw [opl3Mode_put, if_neg mode]
  · intro ch
    rw [channel_put, putMark, if_neg marks]

theorem eq_rederive_put {b c : Chip} {r : Register} {v : Byte}
    (operators : ∀ s, b.operator s =
      (c.putOperator r v s (c.operator s)).derive ((c.put r v).context s))
    (channels : ∀ ch, b.channel ch = (c.put r v).channel ch)
    (pans : ∀ ch, b.pan ch = c.putPan r v ch (c.pan ch))
    (globals : b.globals = (c.put r v).globals) : b = (c.put r v).rederive := by
  apply eq_of_fields
  · intro s
    rw [operator_rederive, operator_put, operators]
  · intro ch
    rw [channel_rederive, channels]
  · intro ch
    rw [rederive, pan_mapOperators, pan_put, pans]
  · rw [rederive, globals_mapOperators, globals]

end Chip

end Ymf262
