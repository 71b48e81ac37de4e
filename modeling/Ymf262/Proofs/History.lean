import Mathlib.Data.List.Induction
import Ymf262.Proofs.Coherence

/-! What a run has written since its last reset. A history pairs every register write with the
chip that it met, whether it came by itself, over the bus or from a player. `traced_run` says what
has to be checked so that a chip and its history fit together after every run. -/
namespace Ymf262

/-- On lines 1 and 3 the bus carries data, and the upper lines do not count. -/
def Byte.CarriesData (lines : Byte) : Prop := lines &&& 3 = 1 ∨ lines &&& 3 = 3

instance (lines : Byte) : Decidable lines.CarriesData := inferInstanceAs (Decidable (_ ∨ _))

theorem Byte.carriesData_iff (lines : Byte) : lines.CarriesData ↔ lines.bit 0 := by
  have low : (lines &&& 3).toNat = lines.toNat % 4 := by
    rw [UInt8.toNat_and]
    exact Nat.and_two_pow_sub_one_eq_mod _ 2
  rw [CarriesData, ← UInt8.toNat_inj, ← UInt8.toNat_inj, low, bit, Nat.testBit_zero,
    decide_eq_true_eq]
  show lines.toNat % 4 = 1 ∨ lines.toNat % 4 = 3 ↔ _
  omega

/-- A register write and the chip that it met. -/
structure Met where
  chip : Chip
  write : RegisterWrite

namespace Met

def after (m : Met) : Chip := m.chip.write m.write.address m.write.value

def last? (p : Met → Prop) [DecidablePred p] (history : List Met) : Option Met :=
  (history.filter p).getLast?

variable {p q : Met → Prop} [DecidablePred p] [DecidablePred q]

theorem last?_concat (history : List Met) (m : Met) :
    last? p (history ++ [m]) = if p m then some m else last? p history := by
  rw [last?, List.filter_append]
  by_cases h : p m
  · simp [h]
  · simp [h, last?]

theorem last?_congr {history : List Met} (h : ∀ m ∈ history, p m ↔ q m) :
    last? p history = last? q history := by
  rw [last?, last?, List.filter_congr fun m member => decide_eq_decide.mpr (h m member)]

end Met

namespace Chip

def writes (c : Chip) : Action → List RegisterWrite
  | .write w => [w]
  | .bus lines v => if lines.CarriesData then [⟨c.address, v⟩] else []
  | .tick player => player.due.map Imf.Record.write
  | .reset | .synthesis _ => []

def meets (c : Chip) : List RegisterWrite → List Met
  | [] => []
  | w :: ws => ⟨c, w⟩ :: (c.write w.address w.value).meets ws

/-- A history after one more action. A reset begins a new one. -/
def recorded (c : Chip) (earlier : List Met) : Action → List Met
  | .reset => []
  | a => earlier ++ c.meets (c.writes a)

def historyAfter (c : Chip) (earlier : List Met) : List Action → List Met
  | [] => earlier
  | a :: actions => (c.act a).historyAfter (c.recorded earlier a) actions

/-- The writes of a run since its last reset, in order. -/
def history (c : Chip) (actions : List Action) : List Met := c.historyAfter [] actions

variable {c : Chip} {settings : Settings}

theorem historyAfter_concat (earlier : List Met) (actions : List Action) (a : Action) :
    c.historyAfter earlier (actions ++ [a]) =
      (c.run actions).recorded (c.historyAfter earlier actions) a := by
  induction actions generalizing c earlier with
  | nil => rfl
  | cons b actions ih => exact ih _

theorem history_concat (actions : List Action) (a : Action) :
    c.history (actions ++ [a]) = (c.run actions).recorded (c.history actions) a :=
  historyAfter_concat ..

theorem act_bus (lines v : Byte) :
    c.act (.bus lines v) =
      if lines.CarriesData then c.write c.address v
      else { c with address := c.latch (lines.bit 1) v } := by
  simp only [act, bus, Byte.carriesData_iff]

theorem act_reset_run (actions : List Action) :
    ((fresh settings).run actions).act .reset = fresh settings := by
  have own : ((fresh settings).run actions).settings = settings :=
    run_keeps (kept_settings settings) actions
  rw [act, reset_eq, own, fresh_eq]

/-- A property of a chip and its history that holds of idle chips, and that single writes and the
latch of the bus keep. -/
structure Traced (settings : Settings) (P : List Met → Chip → Prop) : Prop where
  idle : P [] (idle settings)
  write : ∀ history c w, c.Coherent → P history c →
    P (history ++ [⟨c, w⟩]) (c.write w.address w.value)
  latch : ∀ history c (a : UInt16), P history c → P history { c with address := a }

variable {P : List Met → Chip → Prop}

theorem Coherent.write (h : c.Coherent) (a : UInt16) (v : Byte) : (c.write a v).Coherent :=
  (kept_coherent c.settings).write h a v

theorem Traced.writeAll (k : Traced settings P) {history : List Met} (coherent : c.Coherent)
    (h : P history c) (ws : List RegisterWrite) : P (history ++ c.meets ws) (c.writeAll ws) := by
  induction ws generalizing c history with
  | nil =>
    rw [meets, List.append_nil]
    exact h
  | cons w ws ih =>
    have := ih (coherent.write w.address w.value) (k.write history c w coherent h)
    rwa [List.append_assoc] at this

/-- What synthesis does is left to the run, which may ask for more of it than the property. -/
theorem traced_run (k : Traced settings P) (actions : List Action)
    (synthesis : ∀ before t, before ++ [.synthesis t] <+: actions →
      P ((fresh settings).history before) ((fresh settings).run before) →
      P ((fresh settings).history before) (((fresh settings).run before).synthesize t)) :
    P ((fresh settings).history actions) ((fresh settings).run actions) := by
  induction actions using List.reverseRecOn with
  | nil =>
    rw [fresh_eq]
    exact k.idle
  | append_singleton before a ih =>
    have earlier := ih fun b t start => synthesis b t (start.trans (List.prefix_append ..))
    have coherent := coherent_run settings before
    rw [run_concat, history_concat]
    cases a with
    | write w => exact k.write _ _ w coherent earlier
    | bus lines v =>
      rw [act_bus]
      simp only [recorded, writes]
      by_cases data : lines.CarriesData
      · rw [if_pos data, if_pos data]
        exact k.write _ _ ⟨_, v⟩ coherent earlier
      · rw [if_neg data, if_neg data, meets, List.append_nil]
        exact k.latch _ _ _ earlier
    | reset =>
      rw [act_reset_run, fresh_eq]
      exact k.idle
    | tick player => exact k.writeAll coherent earlier _
    | synthesis t =>
      simp only [recorded, writes, meets, List.append_nil]
      exact synthesis before t List.prefix_rfl earlier

/-! An address that comes over the bus or from a player names one of the two banks. -/

theorem latch_le (second : Bool) (v : Byte) : (c.latch second v).toNat ≤ 0x1FF := by
  have bound := v.toNat_lt
  have first : v.toUInt16.toNat = v.toNat := UInt8.toNat_toUInt16 v
  rw [latch]
  split
  · rw [UInt16.toNat_add, first]
    show (v.toNat + 256) % 65536 ≤ 511
    omega
  · omega

theorem address_write (h : c.Coherent) (a : UInt16) (v : Byte) :
    (c.write a v).address = c.address := by
  cases named : Register.ofAddress? a with
  | none => rw [write_of_none named]
  | some r =>
    rw [write_of_some named, store_eq h]
    simp only [rederive, mapOperators, put]

theorem address_writeAll (h : c.Coherent) (ws : List RegisterWrite) :
    (c.writeAll ws).address = c.address := by
  induction ws generalizing c with
  | nil => rfl
  | cons w ws ih => exact (ih (h.write w.address w.value)).trans (address_write h _ _)

theorem address_synthesize (t : Synthesis) : (c.synthesize t).address = c.address := by
  obtain ⟨a, b, h⟩ := globals_synthesize (c := c) t
  simpa only [globals] using congrArg Chip.address h

@[simp] theorem address_idle : (idle settings).address = 0 := rfl

theorem address_run_le (actions : List Action) :
    ((fresh settings).run actions).address.toNat ≤ 0x1FF := by
  induction actions using List.reverseRecOn with
  | nil =>
    rw [run, List.foldl_nil, fresh_eq, address_idle]
    decide
  | append_singleton before a ih =>
    have coherent := coherent_run settings before
    rw [run_concat]
    cases a with
    | write w => rwa [act, address_write coherent]
    | bus lines v =>
      rw [act_bus]
      split
      · rwa [address_write coherent]
      · exact latch_le _ _
    | reset =>
      rw [act_reset_run, fresh_eq, address_idle]
      decide
    | tick player =>
      have : (Imf.Replay.tick ⟨player, (fresh settings).run before⟩).chip.address =
          ((fresh settings).run before).address := address_writeAll coherent _
      rwa [act, this]
    | synthesis t => rwa [act, address_synthesize]

theorem mem_meets {ws : List RegisterWrite} {m : Met} (h : m ∈ c.meets ws) : m.write ∈ ws := by
  induction ws generalizing c with
  | nil => cases h
  | cons w ws ih =>
    rcases List.mem_cons.mp h with rfl | later
    · exact List.mem_cons_self
    · exact List.mem_cons_of_mem _ (ih later)

theorem address_history_le {actions : List Action}
    (bound : ∀ w, .write w ∈ actions → w.address.toNat ≤ 0x1FF) :
    ∀ m ∈ (fresh settings).history actions, m.write.address.toNat ≤ 0x1FF := by
  induction actions using List.reverseRecOn with
  | nil => exact fun _ h => (List.not_mem_nil h).elim
  | append_singleton before a ih =>
    have earlier := ih fun w member => bound w (List.mem_append_left _ member)
    have address : ((fresh settings).run before).address.toNat ≤ 0x1FF := address_run_le before
    have own : ∀ w ∈ ((fresh settings).run before).writes a, w.address.toNat ≤ 0x1FF := by
      intro w member
      cases a with
      | write u =>
        cases List.mem_singleton.mp member
        exact bound w (List.mem_append_right _ (List.mem_singleton_self _))
      | bus lines v =>
        simp only [writes] at member
        split at member
        · cases List.mem_singleton.mp member
          exact address
        · cases member
      | tick player =>
        obtain ⟨record, -, rfl⟩ := List.mem_map.mp member
        have := record.register.toNat_lt
        show record.register.toUInt16.toNat ≤ 0x1FF
        rw [UInt8.toNat_toUInt16]
        omega
      | reset | synthesis t => cases member
    rw [history_concat]
    intro m member
    cases a with
    | reset => cases member
    | _ =>
      rcases List.mem_append.mp member with old | new
      · exact earlier m old
      · exact own _ (mem_meets new)

end Chip

end Ymf262
