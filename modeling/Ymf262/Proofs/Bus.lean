import Ymf262.Proofs.Address
import Ymf262.Proofs.History

/-! Access over the bus. A run over the bus is one of register writes to the latched address, and
the latch keeps it inside the first bank outside OPL3 mode: the mode can only be left through the
register that switches it, and that is then the address latched. So without the mode the second
bank stays as a reset leaves it. -/
namespace Ymf262

namespace Register

/-- A write to the register may change the channel while no pairs are joined. -/
def Touches : Register → ChannelId → Prop
  | noteSelect, _ => False
  | operator _ s, ch => s.channel = ch
  | channel _ d, ch => d = ch
  | rhythm, ch => 6 ≤ ch.val ∧ ch.val ≤ 8
  | fourOpEnable, _ | opl3Enable, _ => True

instance : (r : Register) → (ch : ChannelId) → Decidable (r.Touches ch)
  | noteSelect, _ => inferInstanceAs (Decidable False)
  | operator _ s, ch => inferInstanceAs (Decidable (s.channel = ch))
  | channel _ d, ch => inferInstanceAs (Decidable (d = ch))
  | rhythm, ch => inferInstanceAs (Decidable (6 ≤ ch.val ∧ ch.val ≤ 8))
  | fourOpEnable, _ | opl3Enable, _ => inferInstanceAs (Decidable True)

theorem not_touches_of_first_bank {a : UInt16} (bound : a.toNat < 0x100) {r : Register}
    (h : ofAddress? a = some r) {ch : ChannelId} (second : 9 ≤ ch.val) : ¬ r.Touches ch := by
  have all : ∀ n : Fin 0x100, ∀ r ∈ ofAddress? (.ofNat n), ∀ ch : ChannelId, 9 ≤ ch.val →
      ¬ r.Touches ch := by
    decide +kernel
  exact all ⟨a.toNat, bound⟩ r (by simpa using h) ch second

end Register

namespace Chip

structure AgreeOn (b c : Chip) (ch : ChannelId) : Prop where
  channel : b.channel ch = c.channel ch
  pan : b.pan ch = c.pan ch
  operators : ∀ s, s.channel = ch → b.operator s = c.operator s

variable {a b c : Chip} {settings : Settings} {r : Register} {ch : ChannelId}

theorem AgreeOn.refl (c : Chip) (ch : ChannelId) : c.AgreeOn c ch := ⟨rfl, rfl, fun _ _ => rfl⟩

theorem AgreeOn.trans (h : a.AgreeOn b ch) (k : b.AgreeOn c ch) : a.AgreeOn c ch where
  channel := h.channel.trans k.channel
  pan := h.pan.trans k.pan
  operators s own := (h.operators s own).trans (k.operators s own)

theorem putOperator_of_not_touches (mode : c.opl3Mode = false) {s : Slot}
    (apart : ¬ r.Touches s.channel) (v : Byte) (o : Operator) : c.putOperator r v s o = o := by
  have effect := c.effect_putOperator r v s
  generalize c.putOperator r v s = f at effect ⊢
  cases effect with
  | none field feedback => rfl
  | field kind own =>
    subst own
    exact (apart rfl).elim
  | key source on keys =>
    rcases keys with ⟨d, rfl, led⟩ | ⟨rfl, drum⟩
    · rw [leads, leader_of_opl2 mode, decide_eq_true_eq] at led
      exact (apart led.symm).elim
    · exact (apart (channel_of_rhythmBit? drum).1).elim
  | feedback d own place =>
    subst own place
    exact (apart (ChannelId.channel_modulator d).symm).elim

theorem putTuning_of_not_touches (apart : ¬ r.Touches ch) (v : Byte) (t : Tuning) :
    c.putTuning r v ch t = t := by
  cases r with
  | channel kind d =>
    have other : ch ≠ d := fun same => apart same.symm
    cases kind <;> simp only [putTuning, if_neg other]
  | _ => rfl

/-- Outside OPL3 mode each channel is by itself. -/
theorem agreeOn_store (coherent : c.Coherent) (mode : c.opl3Mode = false)
    (apart : ¬ r.Touches ch) (v : Byte) : (c.store r v).AgreeOn c ch := by
  have marks : r ≠ .fourOpEnable := fun same => apart (same ▸ trivial)
  have other : r ≠ .opl3Enable := fun same => apart (same ▸ trivial)
  have connection : r ≠ .channel .connection ch := fun same => apart (same ▸ rfl)
  have still : (c.put r v).opl3Mode = false := by rwa [opl3Mode_put, if_neg other]
  rw [store_eq coherent]
  constructor
  · rw [channel_rederive, channel_put, putTuning_of_not_touches apart, putMark, if_neg marks, tuning]
  · rw [rederive, pan_mapOperators, pan_put, putPan, if_neg connection]
  · intro s own
    have context : (c.put r v).context s = c.context s := by
      rw [context, context, still, mode, pitch, pitch, leader_of_opl2 still, leader_of_opl2 mode,
        tuning_put, own, putTuning_of_not_touches apart,
        route_of_alone (activePair?_of_opl2 still _), route_of_alone (activePair?_of_opl2 mode _),
        own, connection_put, if_neg connection]
    rw [operator_rederive, operator_put, putOperator_of_not_touches mode (own ▸ apart), context]
    exact coherent s

theorem opl3Mode_store (coherent : c.Coherent) (r : Register) (v : Byte) :
    (c.store r v).opl3Mode = if r = .opl3Enable then v.bit 0 else c.opl3Mode := by
  rw [store_eq coherent, opl3Mode_rederive, opl3Mode_put]

theorem opl3Mode_write (coherent : c.Coherent) {a : UInt16} (bound : a.toNat < 0x200) (v : Byte) :
    (c.write a v).opl3Mode = if a = 0x105 then v.bit 0 else c.opl3Mode := by
  have switch : Register.ofAddress? a = some .opl3Enable ↔ a = 0x105 :=
    Register.ofAddress?_eq_iff bound (by simp) (by simp)
  cases named : Register.ofAddress? a with
  | none =>
    have other : a ≠ 0x105 := by
      rintro rfl
      cases named
    rw [write_of_none named, if_neg other]
  | some r =>
    rw [write_of_some named, opl3Mode_store coherent]
    simp only [← switch, named, Option.some.injEq]

theorem extended_store (coherent : c.Coherent) (marks : r ≠ .fourOpEnable) (v : Byte)
    (ch : ChannelId) : ((c.store r v).channel ch).extended = (c.channel ch).extended := by
  rw [store_eq coherent, channel_rederive, channel_put, putMark, if_neg marks]

/-! The latch. -/

/-- The latched address is in the first bank, is that of the mode register, or belongs to the
mode. -/
def Latched (c : Chip) : Prop :=
  c.address.toNat < 0x100 ∨ c.address = 0x105 ∨ c.opl3Mode = true ∧ c.address.toNat ≤ 0x1FF

theorem latched_select (c : Chip) (second : Bool) (v : Byte) :
    Latched { c with address := c.latch second v } := by
  have bound := c.latch_le second v
  have first : v.toUInt16.toNat < 0x100 := by
    rw [UInt8.toNat_toUInt16]
    exact v.toNat_lt
  by_cases mode : c.opl3Mode
  · exact .inr (.inr ⟨mode, bound⟩)
  · by_cases register : second = true ∧ v = 0x05
    · right
      left
      show c.latch second v = 0x105
      simp only [latch, register.1, register.2, Bool.true_and, decide_true, Bool.or_true, if_true]
      rfl
    · left
      show (c.latch second v).toNat < 0x100
      rwa [latch, if_neg (by simp_all)]

theorem Latched.address_lt (h : c.Latched) : c.address.toNat < 0x200 := by
  rcases h with first | register | ⟨-, bound⟩
  · exact Nat.lt_trans first (by decide)
  · rw [register]
    decide
  · exact Nat.lt_succ_of_le bound

theorem Latched.of_opl2 (h : c.Latched) (mode : c.opl3Mode = false) :
    c.address.toNat < 0x100 ∨ c.address = 0x105 := by
  rcases h with first | register | ⟨on, -⟩
  · exact .inl first
  · exact .inr register
  · exact absurd (mode.symm.trans on) (by decide)

theorem Latched.data (h : c.Latched) (coherent : c.Coherent) (v : Byte) :
    (c.write c.address v).Latched := by
  rw [Latched, address_write coherent, opl3Mode_write coherent h.address_lt]
  rcases h with first | register | ⟨mode, bound⟩
  · exact .inl first
  · exact .inr (.inl register)
  · by_cases register : c.address = 0x105
    · exact .inr (.inl register)
    · rw [if_neg register]
      exact .inr (.inr ⟨mode, bound⟩)

end Chip

def Action.OnBus : Action → Prop
  | bus .. | reset => True
  | _ => False

namespace Chip

variable {c : Chip} {settings : Settings} {actions : List Action}

theorem latched_fresh (settings : Settings) : (fresh settings).Latched := by
  rw [fresh_eq, Latched, address_idle]
  exact .inl (by decide)

theorem latched_run (onBus : ∀ a ∈ actions, a.OnBus) : ((fresh settings).run actions).Latched := by
  induction actions using List.reverseRecOn with
  | nil => exact latched_fresh settings
  | append_singleton before a ih =>
    have earlier := ih fun b member => onBus b (List.mem_append_left _ member)
    have coherent := coherent_run settings before
    rw [run_concat]
    cases a with
    | bus lines v =>
      rw [act_bus]
      split
      · exact earlier.data coherent v
      · exact latched_select ..
    | reset =>
      rw [act_reset_run]
      exact latched_fresh settings
    | write w | tick player | synthesis t =>
      exact (onBus _ (List.mem_append_right _ (List.mem_singleton_self _))).elim

/-- Outside OPL3 mode data leaves the marks of four operator voices alone, and the second bank,
too, unless it turns the mode on. -/
theorem Latched.confined (h : c.Latched) (coherent : c.Coherent) (mode : c.opl3Mode = false)
    (v : Byte) :
    (∀ ch, ((c.write c.address v).channel ch).extended = (c.channel ch).extended) ∧
    (c.address = 0x105 ∧ (c.write c.address v).opl3Mode = true ∨
      ∀ ch : ChannelId, 9 ≤ ch.val → (c.write c.address v).AgreeOn c ch) := by
  cases named : Register.ofAddress? c.address with
  | none =>
    rw [write_of_none named]
    exact ⟨fun _ => rfl, .inr fun ch _ => .refl c ch⟩
  | some r =>
    have marks : r ≠ .fourOpEnable := by
      rintro rfl
      have register : c.address = 0x104 :=
        (Register.ofAddress?_eq_iff h.address_lt (by simp) (by simp)).mp named
      rcases h.of_opl2 mode with first | other
      · exact absurd first (by rw [register]; decide)
      · exact absurd (register.symm.trans other) (by decide)
    have changed := opl3Mode_write coherent h.address_lt v
    rw [write_of_some named] at changed ⊢
    refine ⟨extended_store coherent marks v, ?_⟩
    by_cases register : c.address = 0x105
    · rw [if_pos register] at changed
      cases on : v.bit 0 with
      | true => exact .inl ⟨register, changed.trans on⟩
      | false =>
        -- The mode register, and the mode is off already.
        right
        intro ch _
        have switch : r = .opl3Enable := by
          rw [register] at named
          exact Option.some.inj named.symm
        rw [switch, store, setOpl3Mode, if_pos (mode.trans on.symm)]
        exact .refl c ch
    · have first : c.address.toNat < 0x100 := (h.of_opl2 mode).resolve_right register
      exact .inr fun ch second =>
        agreeOn_store coherent mode (Register.not_touches_of_first_bank first named second) v

/-- As long as the mode has not been turned on since the reset, the second bank is idle. -/
theorem idle_second_bank (onBus : ∀ a ∈ actions, a.OnBus)
    (off : ∀ m ∈ (fresh settings).history actions, m.after.opl3Mode = false) :
    ((fresh settings).run actions).opl3Mode = false ∧
      ∀ ch : ChannelId, 9 ≤ ch.val → ((fresh settings).run actions).AgreeOn (fresh settings) ch := by
  have initial : (fresh settings).opl3Mode = false := by
    rw [fresh_eq]
    rfl
  induction actions using List.reverseRecOn with
  | nil => exact ⟨initial, fun ch _ => .refl _ ch⟩
  | append_singleton before a ih =>
    have busBefore : ∀ b ∈ before, b.OnBus := fun b member =>
      onBus b (List.mem_append_left _ member)
    have coherent := coherent_run settings before
    rw [history_concat] at off
    rw [run_concat]
    cases a with
    | bus lines v =>
      obtain ⟨mode, idle⟩ := ih busBefore fun m member => off m (List.mem_append_left _ member)
      rw [act_bus]
      by_cases data : lines.CarriesData
      · rw [if_pos data]
        have stays := off ⟨_, _, v⟩ (List.mem_append_right _ (by
          rw [writes, if_pos data]
          exact List.mem_singleton_self _))
        refine ⟨stays, fun ch second => ?_⟩
        rcases ((latched_run busBefore).confined coherent mode v).2 with ⟨-, on⟩ | agree
        · exact absurd (stays.symm.trans on) (by decide)
        · exact (agree ch second).trans (idle ch second)
      · rw [if_neg data]
        exact ⟨mode, fun ch second => ⟨(idle ch second).channel, (idle ch second).pan,
          (idle ch second).operators⟩⟩
    | reset =>
      rw [act_reset_run]
      exact ⟨initial, fun ch _ => .refl _ ch⟩
    | write w | tick player | synthesis t =>
      exact (onBus _ (List.mem_append_right _ (List.mem_singleton_self _))).elim

/-- A run without its bus: the resets, and a register write to the latched address for every
time that the bus has carried data. -/
def direct (c : Chip) : List Action → List Action
  | [] => []
  | .reset :: actions => .reset :: c.reset.direct actions
  | a :: actions => (c.writes a).map .write ++ (c.act a).direct actions

theorem store_unlatched (coherent : c.Coherent) (r : Register) (v : Byte) :
    ({ c with address := 0 } : Chip).store r v = { c.store r v with address := 0 } := by
  have same : ({ c with address := 0 } : Chip).Coherent := coherent
  rw [store_eq same, store_eq coherent]
  rfl

theorem write_unlatched (coherent : c.Coherent) (a : UInt16) (v : Byte) :
    ({ c with address := 0 } : Chip).write a v = { c.write a v with address := 0 } := by
  cases named : Register.ofAddress? a with
  | none => rw [write_of_none named, write_of_none named]
  | some r => rw [write_of_some named, write_of_some named, store_unlatched coherent]

theorem reset_unlatched (c : Chip) :
    ({ c with address := 0 } : Chip).reset = c.reset ∧ { c.reset with address := 0 } = c.reset := by
  rw [reset_eq, reset_eq]
  exact ⟨rfl, rfl⟩

theorem run_direct (coherent : c.Coherent) (onBus : ∀ a ∈ actions, a.OnBus) :
    { c.run actions with address := 0 } =
      ({ c with address := 0 } : Chip).run (c.direct actions) := by
  induction actions generalizing c with
  | nil => rfl
  | cons a actions ih =>
    have later : ∀ b ∈ actions, b.OnBus := fun b member => onBus b (List.mem_cons_of_mem _ member)
    have next : (c.act a).Coherent := (kept_coherent c.settings).act coherent rfl a
    have rest := ih next later
    cases a with
    | bus lines v =>
      rw [run_cons, rest, direct, writes, act_bus]
      · by_cases data : lines.CarriesData
        · rw [if_pos data, if_pos data, List.map_singleton, List.singleton_append, run_cons, act,
            write_unlatched coherent]
        · rw [if_neg data, if_neg data]
          rfl
      · exact Action.noConfusion
    | reset =>
      obtain ⟨same, cleared⟩ := reset_unlatched c
      rw [run_cons, rest, direct, run_cons, act, act, same, cleared]
    | write w | tick player | synthesis t => exact (onBus _ List.mem_cons_self).elim

/-- Over the bus, a selection has no effect but on the latch, data is a register write to the
latched address, and neither gets at the second bank before the mode is on. -/
theorem bus_run (settings : Settings) (actions : List Action) (onBus : ∀ a ∈ actions, a.OnBus) :
    let c := (fresh settings).run actions
    { c with address := 0 } = (fresh settings).run ((fresh settings).direct actions) ∧
    (c.address.toNat < 0x100 ∨ c.address = 0x105 ∨
      c.opl3Mode = true ∧ c.address.toNat ≤ 0x1FF) ∧
    (∀ lines v : Byte, lines.CarriesData → c.opl3Mode = false →
      (∀ ch, ((c.bus lines v).channel ch).extended = (c.channel ch).extended) ∧
      ((∃ ch : ChannelId, 9 ≤ ch.val ∧ ¬ (c.bus lines v).AgreeOn c ch) →
        c.address = 0x105 ∧ (c.bus lines v).opl3Mode = true)) ∧
    ((∀ m ∈ (fresh settings).history actions, m.after.opl3Mode = false) →
      ∀ ch : ChannelId, 9 ≤ ch.val → c.AgreeOn (fresh settings) ch) := by
  intro c
  have coherent : c.Coherent := coherent_run settings actions
  have latched : c.Latched := latched_run onBus
  refine ⟨?_, latched, ?_, fun off => (idle_second_bank onBus off).2⟩
  · have start : (fresh settings).Coherent := coherent_run settings []
    have unlatched : ({ fresh settings with address := 0 } : Chip) = fresh settings := by
      rw [fresh_eq]
      rfl
    rw [run_direct start onBus, unlatched]
  · intro lines v data mode
    have written : c.bus lines v = c.write c.address v := (act_bus lines v).trans (if_pos data)
    obtain ⟨marks, confined⟩ := latched.confined coherent mode v
    rw [written]
    refine ⟨marks, ?_⟩
    rintro ⟨ch, second, changed⟩
    exact confined.resolve_right fun agree => changed (agree ch second)

/-- A waveform of OPL3 mode in the second bank comes back with the mode. Before the mode, the same
selection would have been one of the first bank. -/
theorem bus_run_waveform :
    let c := (fresh .default).run
    let left : List Action :=
      [.bus 2 0x05, .bus 3 1, .bus 2 0xE0, .bus 3 5, .bus 2 0x05, .bus 3 0]
    let never : List Action := [.bus 2 0xE0, .bus 3 5]
    ((∀ a ∈ left, a.OnBus) ∧ (c left).opl3Mode = false ∧
      ¬ ((c left).bus 3 1).AgreeOn (c left) 9 ∧ (c left).address = 0x105) ∧
    (∀ a ∈ never, a.OnBus) ∧
      (∀ m ∈ (fresh .default).history never, m.after.opl3Mode = false) ∧
      (c never).AgreeOn (fresh .default) 9 := by
  intro c left never
  have leftOnBus : ∀ a ∈ left, a.OnBus := by simp [left, Action.OnBus]
  have neverOnBus : ∀ a ∈ never, a.OnBus := by simp [never, Action.OnBus]
  have mode : (c left).opl3Mode = false := by
    show ((fresh .default).run left).opl3Mode = false
    rw [fresh_eq]
    decide +kernel
  have changed : ¬ ((c left).bus 3 1).AgreeOn (c left) 9 := by
    have waveforms : (((c left).bus 3 1).operator 18).waveform ≠
        ((c left).operator 18).waveform := by
      show ((((fresh .default).run left).bus 3 1).operator 18).waveform ≠
        (((fresh .default).run left).operator 18).waveform
      rw [fresh_eq]
      decide +kernel
    exact fun same => waveforms (congrArg Operator.waveform (same.operators 18 rfl))
  have off : ∀ m ∈ (fresh .default).history never, m.after.opl3Mode = false := by
    rw [fresh_eq]
    decide +kernel
  obtain ⟨-, -, confined, -⟩ := bus_run .default left leftOnBus
  obtain ⟨-, -, -, idle⟩ := bus_run .default never neverOnBus
  have switched := (confined 3 1 (.inr rfl) mode).2 ⟨9, Nat.le_refl 9, changed⟩
  exact ⟨⟨leftOnBus, mode, changed, switched.1⟩, neverOnBus, off, idle off 9 (Nat.le_refl 9)⟩

end Chip

end Ymf262
