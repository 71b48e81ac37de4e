import Ymf262.Proofs.Bus
import Ymf262.Proofs.LogLines

/-! The log of a run tells the run. Every register write is on record before it takes effect, and a
reset is on record together with the zeros that it writes, so that the writes after the last reset,
replayed on a fresh chip, give the final one up to the latch of the bus. The modes can be followed
by the messages about them alone: a message appears when a mode changes, and a reset clears all
modes at once. -/
namespace Ymf262.Chip

variable {c : Chip} {settings : Settings}

def actEvents (c : Chip) : Action → List Event
  | .write w => c.writeEvents w.address w.value
  | .bus lines v => c.busEvents lines v
  | .reset => c.resetEvents
  | .tick player => Imf.Replay.tickEvents ⟨player, c⟩
  | .synthesis _ => []

def runEvents (c : Chip) : List Action → List Event
  | [] => []
  | a :: actions => c.actEvents a ++ (c.act a).runEvents actions

theorem runEvents_concat (actions : List Action) (a : Action) :
    c.runEvents (actions ++ [a]) = c.runEvents actions ++ (c.run actions).actEvents a := by
  induction actions generalizing c with
  | nil => exact List.append_nil _
  | cons b actions ih =>
    rw [List.cons_append, runEvents, ih, runEvents, run_cons, List.append_assoc]

theorem actEvents_eq {a : Action} (other : a ≠ .reset) :
    c.actEvents a = c.writeAllEvents (c.writes a) := by
  cases a with
  | write w => exact (List.append_nil _).symm
  | bus lines v =>
    by_cases data : lines.CarriesData
    · rw [actEvents, busEvents, if_pos (lines.carriesData_iff.mp data), writes, if_pos data]
      exact (List.append_nil _).symm
    · rw [actEvents, busEvents, if_neg (lines.carriesData_iff.not.mp data), writes, if_neg data]
      rfl
  | reset => exact absurd rfl other
  | tick player => rfl
  | synthesis t => rfl

/-! The writes on record. -/

theorem write?_of_mem_storeEvents {r : Register} {v : Byte} {e : Event}
    (h : e ∈ c.storeEvents r v) : e ≠ .reset ∧ e.write? = none := by
  have joins (after : Chip) (h : e ∈ c.joinEvents after) : e ≠ .reset ∧ e.write? = none := by
    obtain ⟨p, -, rfl⟩ := List.mem_map.mp h
    exact ⟨Event.noConfusion, rfl⟩
  cases r with
  | noteSelect | operator kind s => cases h
  | channel kind ch =>
    cases kind with
    | connection =>
      obtain ⟨p, -, rfl⟩ := List.mem_map.mp h
      exact ⟨Event.noConfusion, rfl⟩
    | _ => cases h
  | rhythm =>
    simp only [storeEvents] at h
    split at h
    · cases h
    · rw [List.mem_singleton.mp h]
      exact ⟨Event.noConfusion, rfl⟩
  | fourOpEnable =>
    rcases List.mem_cons.mp h with rfl | joined
    · exact ⟨Event.noConfusion, rfl⟩
    · exact joins _ joined
  | opl3Enable =>
    simp only [storeEvents] at h
    split at h
    · cases h
    · rcases List.mem_cons.mp h with rfl | joined
      · exact ⟨Event.noConfusion, rfl⟩
      · exact joins _ joined

/-- The write itself comes first, and nothing that follows from it is a write or a reset. -/
theorem writeEvents_eq (a : UInt16) (v : Byte) :
    ∃ effects, c.writeEvents a v = .write a v :: effects ∧
      ∀ e ∈ effects, e ≠ .reset ∧ e.write? = none := by
  rw [writeEvents]
  cases Register.ofAddress? a with
  | none => exact ⟨[], rfl, fun _ h => (List.not_mem_nil h).elim⟩
  | some r => exact ⟨_, rfl, fun _ => write?_of_mem_storeEvents⟩

theorem reset_notMem_writeAllEvents (ws : List RegisterWrite) : .reset ∉ c.writeAllEvents ws := by
  induction ws generalizing c with
  | nil => exact List.not_mem_nil
  | cons w ws ih =>
    obtain ⟨effects, events, quiet⟩ := c.writeEvents_eq w.address w.value
    rw [writeAllEvents, events, List.mem_append, List.mem_cons]
    rintro ((first | effect) | later)
    · cases first
    · exact (quiet _ effect).1 rfl
    · exact ih later

theorem filterMap_writeAllEvents (ws : List RegisterWrite) :
    (c.writeAllEvents ws).filterMap Event.write? = ws := by
  induction ws generalizing c with
  | nil => rfl
  | cons w ws ih =>
    obtain ⟨effects, events, quiet⟩ := c.writeEvents_eq w.address w.value
    have own : (Event.write w.address w.value).write? = some w := rfl
    have others : effects.filterMap Event.write? = [] :=
      List.filterMap_eq_nil_iff.mpr fun e member => (quiet e member).2
    rw [writeAllEvents, events, List.cons_append, List.filterMap_cons_some own,
      List.filterMap_append, others, List.nil_append, ih]

/-- An action other than a reset adds its writes to those on record, and a reset starts the record
anew with its zeros. -/
theorem written_actEvents {a : Action} (other : a ≠ .reset) (earlier : List Event) :
    Event.written (earlier ++ c.actEvents a) = Event.written earlier ++ c.writes a := by
  rw [actEvents_eq other, Event.written_append (reset_notMem_writeAllEvents _),
    filterMap_writeAllEvents]

theorem written_resetEvents (earlier : List Event) :
    Event.written (earlier ++ c.resetEvents) = resetWrites := by
  rw [resetEvents, List.append_cons, Event.written_append (reset_notMem_writeAllEvents _),
    Event.written_reset, filterMap_writeAllEvents, List.nil_append]

/-! Replaying them. -/

theorem writeAll_unlatched (coherent : c.Coherent) (ws : List RegisterWrite) :
    ({ c with address := 0 } : Chip).writeAll ws = { c.writeAll ws with address := 0 } := by
  induction ws generalizing c with
  | nil => rfl
  | cons w ws ih =>
    rw [writeAll_cons, writeAll_cons, write_unlatched coherent, ih (coherent.write _ _)]

theorem act_unlatched {a : Action} (other : a ≠ .reset) (quiet : ∀ t, a ≠ .synthesis t) :
    { c.act a with address := 0 } = { c.writeAll (c.writes a) with address := 0 } := by
  cases a with
  | write w | tick player => rfl
  | bus lines v =>
    rw [act_bus, writes]
    split <;> rfl
  | reset => exact absurd rfl other
  | synthesis t => exact absurd rfl (quiet t)

/-- The writes on record bring a fresh chip to the final one. -/
theorem replay_written {head : List Event} (start : head = [] ∨ head = (zero settings).resetEvents)
    {actions : List Action} (quiet : ∀ t, .synthesis t ∉ actions) :
    { (fresh settings).writeAll (Event.written (head ++ (fresh settings).runEvents actions)) with
      address := 0 } = { (fresh settings).run actions with address := 0 } := by
  have swept : (fresh settings).writeAll resetWrites = fresh settings := by
    rw [fresh_eq]
    exact writeAll_idle fun _ => value_of_mem_resetWrites
  -- From the end of the run: a reset there leaves no more of the record than its own zeros.
  induction actions using List.reverseRecOn with
  | nil =>
    have begun : (fresh settings).writeAll (Event.written head) = fresh settings := by
      rcases start with rfl | rfl
      · rfl
      · rw [← List.nil_append (resetEvents _), written_resetEvents, swept]
    rw [runEvents, List.append_nil, begun]
    rfl
  | append_singleton before a ih =>
    have earlier := ih fun t member => quiet t (List.mem_append_left _ member)
    rw [runEvents_concat, run_concat, ← List.append_assoc]
    by_cases reset : a = .reset
    · rw [reset, act_reset_run, actEvents, written_resetEvents, swept]
    · have other (t : Synthesis) : a ≠ .synthesis t := by
        rintro rfl
        exact quiet t (List.mem_append_right _ (List.mem_singleton_self _))
      have coherent := coherent_run settings before
      have initial : (fresh settings).Coherent := coherent_run settings []
      have replayed : ((fresh settings).writeAll
          (Event.written (head ++ (fresh settings).runEvents before))).Coherent :=
        (kept_coherent settings).writeAll initial _
      rw [written_actEvents reset, writeAll_append, ← writeAll_unlatched replayed, earlier,
        writeAll_unlatched coherent, act_unlatched reset other]

/-! The modes. -/

def modes (c : Chip) : Modes :=
  ⟨c.opl3Mode, c.rhythmMode, fun p => (c.channel p.primary).extended⟩

theorem modes_congr {b : Chip} (globals : b.globals = c.globals)
    (marks : ∀ ch, (b.channel ch).extended = (c.channel ch).extended) : b.modes = c.modes := by
  have stored := congrArg (fun d : Chip => (d.opl3Mode, d.rhythmMode)) globals
  simp only [Chip.globals, Prod.mk.injEq] at stored
  rw [modes, modes, stored.1, stored.2]
  simp only [marks]

theorem modes_mapOperators (f : Slot → Operator → Operator) : (c.mapOperators f).modes = c.modes :=
  modes_congr (globals_mapOperators c f) fun ch => congrArg _ (channel_mapOperators c f ch)

theorem modes_writeOperator (kind : OperatorRegister) (s : Slot) (v : Byte) :
    (c.writeOperator kind s v).modes = c.modes :=
  modes_congr (globals_modifyOperator ..) fun _ => congrArg _ (channel_modifyOperator ..)

theorem modes_setBlockFnum (ch : ChannelId) (blockFnum : Nat) :
    (c.setBlockFnum ch blockFnum).modes = c.modes :=
  modes_congr (globals_setBlockFnum ch blockFnum) fun d => by rw [channel_setBlockFnum]

theorem modes_setConnection (ch : ChannelId) (v : Byte) :
    (c.setConnection ch v).modes = c.modes :=
  modes_congr (globals_setConnection ch v) fun d => congrArg _ (channel_setConnection ch d v)

theorem modes_writeRhythm (v : Byte) :
    (c.writeRhythm v).modes = { c.modes with rhythmMode := (c.writeRhythm v).rhythmMode } := by
  simp only [modes, writeRhythm, mapOperators, channel]

theorem modes_setFourOpEnable (v : Byte) :
    (c.setFourOpEnable v).modes = { c.modes with extended := fun p => v.bit p } := by
  rw [setFourOpEnable, settle, modes_mapOperators]
  simp [modes, channel]

theorem modes_setOpl3Mode (on : Bool) :
    (c.setOpl3Mode on).modes = { c.modes with opl3Mode := (c.setOpl3Mode on).opl3Mode } := by
  rw [setOpl3Mode]
  split
  · rfl
  · simp only [modes, settle, mapOperators, channel]

theorem modes_synthesize (t : Synthesis) : (c.synthesize t).modes = c.modes := by
  obtain ⟨a, b, globals⟩ := globals_synthesize (c := c) t
  have stored := congrArg (fun d : Chip => (d.opl3Mode, d.rhythmMode)) globals
  simp only [Chip.globals, Prod.mk.injEq] at stored
  rw [modes, modes, stored.1, stored.2]
  simp only [extended_synthesize]

theorem foldl_step_joinEvents (after : Chip) (m : Modes) :
    (c.joinEvents after).foldl Modes.step m = m := by
  rw [joinEvents, List.foldl_map]
  exact List.foldl_fixed _

theorem foldl_step_storeEvents (r : Register) (v : Byte) :
    (c.storeEvents r v).foldl Modes.step c.modes = (c.store r v).modes := by
  cases r with
  | noteSelect => simp only [storeEvents, store, List.foldl_nil, modes, channel]
  | operator kind s => exact (modes_writeOperator kind s v).symm
  | channel kind ch =>
    cases kind with
    | fnumLow => exact (modes_setBlockFnum ..).symm
    | keyBlock => exact ((modes_setBlockFnum ..).trans (modes_mapOperators _)).symm
    | connection =>
      rw [storeEvents, List.foldl_map]
      exact (List.foldl_fixed _).trans (modes_setConnection ch v).symm
  | rhythm =>
    have after : (c.store .rhythm v).modes =
        { c.modes with rhythmMode := (c.store .rhythm v).rhythmMode } := c.modes_writeRhythm v
    rw [after]
    simp only [storeEvents]
    -- There is no message unless the mode changes.
    split
    · rename_i same
      rw [same]
      rfl
    · rfl
  | fourOpEnable =>
    have after : (c.store .fourOpEnable v).modes = _ := c.modes_setFourOpEnable v
    rw [after, storeEvents, List.foldl_cons, foldl_step_joinEvents]
    rfl
  | opl3Enable =>
    have after : (c.store .opl3Enable v).modes =
        { c.modes with opl3Mode := (c.store .opl3Enable v).opl3Mode } := c.modes_setOpl3Mode _
    rw [after]
    simp only [storeEvents]
    split
    · rename_i same
      rw [same]
      rfl
    · rw [List.foldl_cons, foldl_step_joinEvents]
      rfl

theorem foldl_step_writeEvents (a : UInt16) (v : Byte) :
    (c.writeEvents a v).foldl Modes.step c.modes = (c.write a v).modes := by
  rw [writeEvents, List.foldl_cons]
  cases named : Register.ofAddress? a with
  | none =>
    rw [write_of_none named]
    rfl
  | some r =>
    rw [write_of_some named]
    exact foldl_step_storeEvents r v

theorem foldl_step_writeAllEvents (ws : List RegisterWrite) :
    (c.writeAllEvents ws).foldl Modes.step c.modes = (c.writeAll ws).modes := by
  induction ws generalizing c with
  | nil => rfl
  | cons w ws ih =>
    rw [writeAllEvents, List.foldl_append, foldl_step_writeEvents, ih, writeAll_cons]

theorem foldl_step_resetEvents (m : Modes) :
    c.resetEvents.foldl Modes.step m = c.reset.modes := by
  have cleared : Modes.off = (zero c.settings).modes := by
    simp [modes, Modes.off, zero, channel, Channel.zero]
  rw [resetEvents, List.foldl_cons, reset, silence, modes_mapOperators, ← foldl_step_writeAllEvents,
    ← cleared]
  rfl

theorem foldl_step_actEvents (a : Action) :
    (c.actEvents a).foldl Modes.step c.modes = (c.act a).modes := by
  by_cases reset : a = .reset
  · subst reset
    exact foldl_step_resetEvents _
  · have written : (c.writeAll (c.writes a)).modes = (c.act a).modes := by
      cases a with
      | write w | tick player => rfl
      | bus lines v =>
        rw [act_bus, writes]
        split
        · rfl
        · simp only [writeAll_nil, modes, channel]
      | reset => exact absurd rfl reset
      | synthesis t => exact (modes_synthesize t).symm
    rw [actEvents_eq reset, foldl_step_writeAllEvents, written]

theorem foldl_step_runEvents (actions : List Action) :
    (c.runEvents actions).foldl Modes.step c.modes = (c.run actions).modes := by
  induction actions generalizing c with
  | nil => rfl
  | cons a actions ih => rw [runEvents, List.foldl_append, foldl_step_actEvents, ih, run_cons]

/-- The log of a run that synthesis has no part in, with or without the lines of power on in front,
holds all that is needed to repeat it: replay the writes that follow the last reset. And at either
level, the lines about modes give those of every run. -/
theorem transcript_run (settings : Settings) (actions : List Action) (head : List Event)
    (start : head = [] ∨ head = (zero settings).resetEvents) :
    let c := (fresh settings).run actions
    let log (level : LogLevel) := level.lines (head ++ (fresh settings).runEvents actions)
    ((∀ t, .synthesis t ∉ actions) →
      let writes := (LogLine.sinceReset (log .trace)).filterMap LogLine.write?
      { (fresh settings).writeAll writes with address := 0 } = { c with address := 0 }) ∧
    ∀ level, (log level).foldl Modes.read .off =
      ⟨c.opl3Mode, c.rhythmMode, fun p => (c.channel p.primary).extended⟩ := by
  intro c log
  constructor
  · intro quiet
    rw [Event.written_lines]
    exact replay_written start quiet
  · intro level
    have cleared : Modes.off = (fresh settings).modes := by
      rw [fresh_eq]
      simp [modes, Modes.off, idle, zero, channel, Channel.zero]
    have begun : head.foldl Modes.step .off = (fresh settings).modes := by
      rcases start with rfl | rfl
      · exact cleared
      · exact foldl_step_resetEvents _
    rw [Modes.foldl_read_lines, List.foldl_append, begun, foldl_step_runEvents]
    rfl

/-- Over the bus the mode is switched on and a note is keyed; two pairs are joined, and the rhythm
section comes in. -/
theorem transcript_run_joined :
    let actions : List Action := [.bus 2 0x05, .bus 3 1, .write ⟨0x104, 0x21⟩, .write ⟨0xBD, 0x20⟩,
      .bus 0 0xB0, .bus 1 0x31]
    let c := (fresh .default).run actions
    (∀ t, .synthesis t ∉ actions) ∧
      { (fresh .default).writeAll [⟨0x105, 1⟩, ⟨0x104, 0x21⟩, ⟨0xBD, 0x20⟩, ⟨0xB0, 0x31⟩] with
        address := 0 } = { c with address := 0 } ∧
      Modes.read (Modes.read (Modes.read .off "DEBUG OPL3 mode on") "DEBUG 4-op enable 100001")
        "DEBUG rhythm mode on" =
        ⟨c.opl3Mode, c.rhythmMode, fun p => (c.channel p.primary).extended⟩ := by
  intro actions c
  have quiet : ∀ t, .synthesis t ∉ actions := by simp [actions]
  obtain ⟨replays, modes⟩ := transcript_run .default actions [] (.inl rfl)
  have writes : Event.written ([] ++ (fresh .default).runEvents actions) =
      [⟨0x105, 1⟩, ⟨0x104, 0x21⟩, ⟨0xBD, 0x20⟩, ⟨0xB0, 0x31⟩] := by
    simp only [fresh_eq]
    decide +kernel
  have lines : LogLevel.debug.lines ([] ++ (fresh .default).runEvents actions) =
      ["DEBUG OPL3 mode on", "DEBUG 4-op enable 100001", "DEBUG rhythm mode on"] := by
    simp only [fresh_eq]
    decide +kernel
  refine ⟨quiet, ?_, ?_⟩
  · have replayed := replays quiet
    rwa [Event.written_lines, writes] at replayed
  · simpa only [lines, List.foldl_cons, List.foldl_nil] using modes .debug

end Ymf262.Chip
