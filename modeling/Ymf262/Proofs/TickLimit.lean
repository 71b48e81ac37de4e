import Ymf262.Dump.Run
import Ymf262.Proofs.Schedule

/-! How long a replay goes on. A log whose delays fit in the clock stays on its schedule until the
last record is played, so that a run has a number of ticks that the due times give. A limit cuts
it short, though never before the first tick. -/
namespace Ymf262.Imf

/-- The tick that plays the last record is the last one, and an empty log takes one as well. -/
def span (records : List Record) : Nat := dueTime records (records.length - 1) + 1

/-- The ticks of a run. The limit is looked at after a tick, so that zero does what one does. -/
def runTicks (limit : Option UInt32) (records : List Record) : Nat :=
  match limit with
  | none => span records
  | some t => min (max t.toNat 1) (span records)

@[simp] theorem runTicks_none (records : List Record) : runTicks none records = span records := rfl

@[simp] theorem runTicks_some (t : UInt32) (records : List Record) :
    runTicks (some t) records = min (max t.toNat 1) (span records) := rfl

theorem span_pos (records : List Record) : 0 < span records := Nat.succ_pos _

theorem runTicks_le (limit : Option UInt32) (records : List Record) :
    runTicks limit records ≤ span records := by
  cases limit with
  | none => exact Nat.le_refl _
  | some t => exact Nat.min_le_right ..

theorem runTicks_pos (limit : Option UInt32) (records : List Record) :
    0 < runTicks limit records := by
  cases limit with
  | none => exact span_pos records
  | some t =>
    have := span_pos records
    rw [runTicks_some]
    omega

variable {records : List Record} {chip : Chip} {limit : Option UInt32}

theorem lt_runTicks_iff {n : Nat} (inside : n < span records) :
    n < runTicks limit records ↔ ∀ t ∈ limit, n < max t.toNat 1 := by
  cases limit with
  | none => simp [inside]
  | some t =>
    simp only [runTicks_some, Nat.lt_min, inside, and_true, Option.mem_some_iff, forall_eq']

theorem dueTime_add_duration_drop (records : List Record) (i : Nat) :
    dueTime records i + duration (records.drop i) = duration records := by
  rw [dueTime, ← duration_append, List.take_append_drop]

theorem dueTime_le_duration (records : List Record) (i : Nat) :
    dueTime records i ≤ duration records := by
  rw [← dueTime_add_duration_drop records i]
  exact Nat.le_add_right ..

theorem delay_le_duration {d : Record} (member : d ∈ records) :
    d.delay.toNat ≤ duration records := by
  induction member with
  | head rest => exact Nat.le_add_right ..
  | tail r _ ih => exact Nat.le_add_left_of_le ih

theorem dueTime_lt_span {i : Nat} (bound : i < records.length) :
    dueTime records i < span records :=
  Nat.lt_succ_of_le (dueTime_mono records (Nat.le_sub_one_of_lt bound))

namespace OnSchedule

variable {n : Nat} {r : Replay}

theorem pending_eq_nil_iff (h : OnSchedule records chip n r) (begun : 0 < n) :
    r.player.pending = [] ↔ span records ≤ n := by
  rw [h.pending, List.drop_eq_nil_iff]
  cases length : records.length with
  | zero =>
    have : dueTime records 0 = 0 := rfl
    unfold span
    rw [length, this]
    omega
  | succ last =>
    -- The last record is played if and only if all are.
    have := h.lt_position_iff (i := last) (by omega)
    unfold span
    rw [length, Nat.add_sub_cancel]
    omega

/-- No delay that is still to come takes the deadline past the end of the log, and no tick takes
the clock further than that. -/
theorem tick_within (h : OnSchedule records chip n r) (short : duration records < 2 ^ 32 - 1)
    (more : n < span records) : OnSchedule records chip (n + 1) r.tick := by
  have begun : n ≤ duration records :=
    (Nat.le_of_lt_succ more).trans (dueTime_le_duration ..)
  refine h.tick (by omega) fun d member => ?_
  have now := h.ahead (List.ne_nil_of_mem member)
  have total := dueTime_add_duration_drop records r.player.position
  rw [h.pending] at member
  have := delay_le_duration member
  omega

end OnSchedule

theorem onSchedule_within (records : List Record) (chip : Chip)
    (short : duration records < 2 ^ 32 - 1) {n : Nat} (within : n ≤ span records) :
    OnSchedule records chip n (Replay.tick^[n] ⟨.start records, chip⟩) := by
  induction n with
  | zero => exact .start records chip
  | succ n ih =>
    rw [Function.iterate_succ_apply']
    exact (ih (Nat.le_of_succ_le within)).tick_within short within

namespace Replay

def Stops (limit : Option UInt32) (r : Replay) : Prop :=
  r.player.pending = [] ∨ limit.any (· ≤ r.player.time)

theorem run_of_stops {r : Replay} (stops : Stops limit r.tick) : run limit r = r.tick := by
  unfold run
  split
  · rename_i more
    rw [if_pos (stops.resolve_left (play_iff.mp more))]
  · rfl

theorem run_of_not_stops {r : Replay} (goes : ¬ Stops limit r.tick) :
    run limit r = run limit r.tick := by
  obtain ⟨pending, below⟩ := not_or.mp goes
  rw [run, if_pos (play_iff.mpr pending), if_neg below]

/-- A run ends after the first tick that leaves a reason to stop. -/
theorem run_eq_iterate {n : Nat} {r : Replay}
    (goes : ∀ m, 0 < m → m ≤ n → ¬ Stops limit (tick^[m] r))
    (stops : Stops limit (tick^[n + 1] r)) : run limit r = tick^[n + 1] r := by
  induction n generalizing r with
  | zero => exact run_of_stops stops
  | succ n ih =>
    rw [run_of_not_stops (goes 1 Nat.one_pos (Nat.le_add_left ..))]
    apply ih
    · intro m _ bound
      exact goes (m + 1) (Nat.succ_pos m) (Nat.succ_le_succ bound)
    · exact stops

end Replay

theorem OnSchedule.stops_iff {n : Nat} {r : Replay} (h : OnSchedule records chip n r)
    (begun : 0 < n) : r.Stops limit ↔ runTicks limit records ≤ n := by
  unfold Replay.Stops
  rw [h.pending_eq_nil_iff begun]
  cases limit with
  | none => simp
  | some t =>
    rw [Option.any_some, decide_eq_true_iff, UInt32.le_iff_toNat_le, h.time, runTicks_some]
    omega

theorem run_start (records : List Record) (chip : Chip) (limit : Option UInt32)
    (short : duration records < 2 ^ 32 - 1) :
    Replay.run limit ⟨.start records, chip⟩ =
      Replay.tick^[runTicks limit records] ⟨.start records, chip⟩ := by
  have within := runTicks_le limit records
  obtain ⟨n, last⟩ := Nat.exists_eq_add_of_lt (runTicks_pos limit records)
  rw [Nat.zero_add] at last
  rw [last] at within ⊢
  apply Replay.run_eq_iterate
  · intro m begun bound
    rw [(onSchedule_within records chip short (by omega)).stops_iff begun]
    omega
  · rw [(onSchedule_within records chip short within).stops_iff (Nat.succ_pos n)]
    exact last.le

end Ymf262.Imf

namespace Ymf262.Dump
open Imf

section
variable {files : Files} {o : Options} {path : String} {records : List Record}
variable {writes : List RegisterWrite}

theorem run_of_load (file : o.file = some path)
    (loaded : load (format o) (files path) = .ok records)
    (parsed : o.writes.mapM RegisterWrite.parse = .ok writes) :
    let r := Replay.run o.ticks ⟨.start records, (Chip.fresh .default).writeAll writes⟩
    run files o = .ok (replayLine r.player :: report r.chip o.all) := by
  intro r
  unfold run
  rw [parsed, file]
  show (load (format o) (files path) >>= _) = _
  rw [loaded]
  rfl

theorem replayLine_of_schedule {chip : Chip} {n : Nat} {r : Replay}
    (h : OnSchedule records chip n r) :
    replayLine r.player = "replayed " ++ Text.decimal r.player.position ++ "/" ++
      Text.decimal records.length ++ " writes in " ++ Text.decimal n ++ " ticks" := by
  rw [replayLine, h.whole, h.time]

end

/-- A replay from the command line makes as many ticks as the log has without a limit, and no more
than the limit, but at least one. The records that are due in these ticks are applied, and the
first line of the report counts both. -/
theorem run_tick_limit (files : Files) (o : Options) (path : String) (records : List Record)
    (writes : List RegisterWrite) (file : o.file = some path)
    (loaded : load (format o) (files path) = .ok records)
    (parsed : o.writes.mapM RegisterWrite.parse = .ok writes)
    (short : duration records < 2 ^ 32 - 1) :
    let start : Replay := ⟨.start records, (Chip.fresh .default).writeAll writes⟩
    let r := Replay.run o.ticks start
    let applied := r.player.position
    let ticks := runTicks o.ticks records
    r = Replay.tick^[ticks] start ∧
    applied ≤ records.length ∧
    (∀ i < records.length,
      (i < applied ↔ ∀ t ∈ o.ticks, dueTime records i < max t.toNat 1)) ∧
    r.chip = (records.take applied).foldl
      (fun c d => c.write d.register.toUInt16 d.value) start.chip ∧
    run files o = .ok
      (("replayed " ++ Text.decimal applied ++ "/" ++ Text.decimal records.length ++
        " writes in " ++ Text.decimal ticks ++ " ticks") :: report r.chip o.all) := by
  intro start r applied ticks
  have same : r = Replay.tick^[ticks] start := run_start records _ o.ticks short
  have schedule : OnSchedule records start.chip ticks r := by
    rw [same]
    exact onSchedule_within records _ short (runTicks_le o.ticks records)
  refine ⟨same, schedule.position_le, ?_, schedule.chip_eq, ?_⟩
  · intro i bound
    rw [schedule.lt_position_iff bound]
    exact lt_runTicks_iff (dueTime_lt_span bound)
  · rw [run_of_load file loaded parsed, replayLine_of_schedule schedule]

/-- The limit comes before the last of three records. The first two are due at once. -/
theorem run_tick_limit_three :
    let files : Files := fun _ => .ok [0xA0, 0x98, 0, 0, 0xB0, 0x31, 3, 0, 0xB0, 0x11, 0, 0]
    let o : Options := ⟨some "song", false, some 3, ["0x105=1"], false⟩
    let c := (Chip.fresh .default).write 0x105 1
    run files o = .ok ("replayed 2/3 writes in 3 ticks" ::
      report ((c.write 0xA0 0x98).write 0xB0 0x31) false) := by
  intro files o c
  let records : List Record := [⟨0xA0, 0x98, 0⟩, ⟨0xB0, 0x31, 3⟩, ⟨0xB0, 0x11, 0⟩]
  obtain ⟨-, -, played, chip, lines⟩ := run_tick_limit files o "song" records [⟨0x105, 1⟩] rfl
    (by decide) (by decide) (by decide)
  have two := Nat.le_antisymm
    (Nat.le_of_not_lt fun third => absurd ((played 2 (by decide)).mp third 3 rfl) (by decide))
    ((played 1 (by decide)).mpr fun t limit => by
      cases limit
      decide)
  have line : "replayed " ++ Text.decimal 2 ++ "/" ++ Text.decimal records.length ++
      " writes in " ++ Text.decimal (runTicks o.ticks records) ++ " ticks" =
        "replayed 2/3 writes in 3 ticks" := by decide
  have written (c : Chip) :
      (records.take 2).foldl (fun c d => c.write d.register.toUInt16 d.value)
        (c.writeAll [⟨0x105, 1⟩]) = ((c.write 0x105 1).write 0xA0 0x98).write 0xB0 0x31 := rfl
  rw [lines, chip, two, line, written]

/-- A limit of zero does not keep the first tick from being made. -/
theorem zero_limit_ticks :
    let files : Files := fun _ => .ok [0xB0, 0x31, 0, 0]
    let records : List Record := [⟨0xB0, 0x31, 0⟩]
    let o : Options := ⟨some "song", false, some 0, [], false⟩
    let r := Replay.run o.ticks ⟨.start records, .fresh .default⟩
    load (format o) (files "song") = .ok records ∧ duration records < 2 ^ 32 - 1 ∧
    r.player.time.toNat ≠ min (0 : UInt32).toNat (span records) ∧ r.player.position ≠ 0 ∧
    run files o = .ok ("replayed 1/1 writes in 1 ticks" :: report r.chip false) := by
  intro files records o r
  have once : r = Replay.tick ⟨.start records, .fresh .default⟩ :=
    Replay.run_of_stops (.inl rfl)
  have loaded : load (format o) (files "song") = .ok records := by decide
  refine ⟨loaded, by decide, ?_, ?_, ?_⟩
  · rw [once]
    decide
  · rw [once]
    decide
  · have line : replayLine r.player = "replayed 1/1 writes in 1 ticks" := by
      rw [once]
      decide
    have unwritten : o.writes.mapM RegisterWrite.parse = .ok [] := rfl
    have replayed := run_of_load rfl loaded unwritten
    rw [← line]
    exact replayed

end Ymf262.Dump
