import Mathlib.Data.Nat.Count
import Mathlib.Order.Monotone.Basic
import Ymf262.Imf.Replay
import Ymf262.Proofs.Reset

/-! When records are played. A player counts ticks and keeps one deadline; a record is due once the
delays of all the records before it have passed. `OnSchedule` ties the two together after every
tick, as long as the clock has room for one more delay. -/
namespace Ymf262.Imf

def duration : List Record → Nat
  | [] => 0
  | r :: rest => r.delay.toNat + duration rest

/-- The ticks from the start until a record is due. -/
def dueTime (records : List Record) (i : Nat) : Nat := duration (records.take i)

@[simp] theorem duration_nil : duration [] = 0 := rfl

@[simp] theorem duration_cons (r : Record) (rest : List Record) :
    duration (r :: rest) = r.delay.toNat + duration rest := rfl

@[simp] theorem duration_append (rs us : List Record) :
    duration (rs ++ us) = duration rs + duration us := by
  induction rs with
  | nil => rw [List.nil_append, duration_nil, Nat.zero_add]
  | cons r rest ih => rw [List.cons_append, duration_cons, ih, duration_cons, Nat.add_assoc]

variable {records : List Record} {chip : Chip}

theorem dueTime_succ {i : Nat} (h : i < records.length) :
    dueTime records (i + 1) = dueTime records i + records[i].delay.toNat := by
  rw [dueTime, List.take_succ_eq_append_getElem h, duration_append, duration_cons, duration_nil]
  rfl

theorem dueTime_cons_succ (r : Record) (rest : List Record) (i : Nat) :
    dueTime (r :: rest) (i + 1) = r.delay.toNat + dueTime rest i := by
  rw [dueTime, List.take_succ_cons, duration_cons, dueTime]

theorem dueTime_add (records : List Record) (i j : Nat) :
    dueTime records (i + j) = dueTime records i + dueTime (records.drop i) j := by
  rw [dueTime, List.take_add, duration_append, dueTime, dueTime]

theorem dueTime_mono (records : List Record) : Monotone (dueTime records) := by
  refine monotone_nat_of_le_succ fun i => ?_
  by_cases h : i < records.length
  · rw [dueTime_succ h]
    exact Nat.le_add_right ..
  · rw [dueTime, dueTime, List.take_of_length_le (by omega), List.take_of_length_le (by omega)]

theorem writeAll_map_write (chip : Chip) (records : List Record) :
    chip.writeAll (records.map Record.write) =
      records.foldl (fun c d => c.write d.register.toUInt16 d.value) chip :=
  List.foldl_map

namespace Player

/-- A player of some records, whatever has happened to it. -/
inductive Plays (records : List Record) : Player → Prop
  | start : Plays records (.start records)
  | tick {p : Player} : Plays records p → Plays records p.tick
  | rewind {p : Player} : Plays records p → Plays records p.rewind

theorem Plays.same_records {p : Player} (h : p.Plays records) : p.records = records := by
  induction h with
  | start => rfl
  | tick _ ih => rw [records_tick, ih]
  | rewind _ ih => exact ih

theorem played_tick (p : Player) : p.tick.played.reverse = p.played.reverse ++ p.due := by
  rw [tick, List.reverse_append, List.reverse_reverse, due]

theorem position_tick (p : Player) : p.tick.position = p.position + p.due.length := by
  rw [position, ← List.length_reverse, played_tick, List.length_append, List.length_reverse,
    position]

/-- A deadline that has not passed moves by the delays of the records that are due, and stops at
the first one that is not. -/
theorem split_spec {time deadline : UInt32} {rs : List Record}
    (room : ∀ r ∈ rs, time.toNat + r.delay.toNat < 2 ^ 32) (ahead : rs ≠ [] → time ≤ deadline) :
    (split time deadline rs).2.2.toNat =
      deadline.toNat + duration (split time deadline rs).1 ∧
    (∀ i < (split time deadline rs).1.length,
      deadline.toNat + dueTime (split time deadline rs).1 i ≤ time.toNat) ∧
    ((split time deadline rs).2.1 ≠ [] → time < (split time deadline rs).2.2) := by
  fun_induction split time deadline rs with
  | case1 deadline => simp
  | case2 deadline r rest now due later deadline' moved ih =>
    -- The next deadline counts from the clock, so that a late record would delay all others.
    have clock : time.toNat = deadline.toNat :=
      Nat.le_antisymm (ahead (List.cons_ne_nil r rest)) now
    have wait : (time + r.delay.toUInt32).toNat = time.toNat + r.delay.toNat := by
      rw [UInt32.toNat_add, UInt16.toNat_toUInt32, Nat.mod_eq_of_lt (room r List.mem_cons_self)]
    have onward : time ≤ time + r.delay.toUInt32 := by
      rw [UInt32.le_iff_toNat_le, wait]
      exact Nat.le_add_right ..
    obtain ⟨moves, past, stop⟩ :=
      ih (fun u member => room u (List.mem_cons_of_mem _ member)) fun _ => onward
    simp only [moved, wait] at moves past stop
    refine ⟨?_, ?_, stop⟩
    · rw [moves, duration_cons]
      omega
    · intro i h
      cases i with
      | zero => exact now
      | succ i =>
        have := past i (Nat.lt_of_succ_lt_succ h)
        rw [dueTime_cons_succ]
        omega
  | case3 deadline r rest wait =>
    exact ⟨rfl, fun _ h => (Nat.not_lt_zero _ h).elim, fun _ => UInt32.not_le.mp wait⟩

end Player

/-- A replay of some records that is `n` ticks old: the records played were due, and the first one
pending is not. -/
structure OnSchedule (records : List Record) (chip : Chip) (n : Nat) (r : Replay) : Prop where
  time : r.player.time.toNat = n
  whole : r.player.records = records
  deadline : r.player.waitUntil.toNat = dueTime records r.player.position
  past : ∀ i < r.player.position, dueTime records i < n
  ahead : r.player.pending ≠ [] → n ≤ dueTime records r.player.position
  written : r.chip = chip.writeAll (r.player.played.reverse.map Record.write)

namespace OnSchedule

variable {n : Nat} {r : Replay}

theorem start (records : List Record) (chip : Chip) :
    OnSchedule records chip 0 ⟨.start records, chip⟩ where
  time := rfl
  whole := rfl
  deadline := rfl
  past := fun _ h => (Nat.not_lt_zero _ h).elim
  ahead := fun _ => Nat.zero_le _
  written := rfl

theorem played (h : OnSchedule records chip n r) :
    r.player.played.reverse = records.take r.player.position := by
  rw [← h.whole, Player.records, Player.position, ← List.length_reverse, List.take_left]

theorem pending (h : OnSchedule records chip n r) :
    r.player.pending = records.drop r.player.position := by
  rw [← h.whole, Player.records, Player.position, ← List.length_reverse, List.drop_left]

theorem dueTime_due (h : OnSchedule records chip n r) {i : Nat} (bound : i ≤ r.player.due.length) :
    dueTime records (r.player.position + i) =
      dueTime records r.player.position + dueTime r.player.due i := by
  rw [dueTime_add, ← h.pending, ← r.player.due_append_pending, dueTime, dueTime,
    List.take_append_of_le_length bound, dueTime]

theorem chip_eq (h : OnSchedule records chip n r) :
    r.chip = (records.take r.player.position).foldl
      (fun c d => c.write d.register.toUInt16 d.value) chip := by
  rw [← h.played, ← writeAll_map_write]
  exact h.written

/-- A tick keeps the schedule if the clock has room for it and for the delays to come. -/
theorem tick (h : OnSchedule records chip n r) (clock : n + 1 < 2 ^ 32)
    (room : ∀ d ∈ r.player.pending, n + d.delay.toNat < 2 ^ 32) :
    OnSchedule records chip (n + 1) r.tick := by
  obtain ⟨moves, past, stop⟩ := Player.split_spec (h.time ▸ room) fun pending =>
    UInt32.le_iff_toNat_le.mpr (h.time ▸ h.deadline ▸ h.ahead pending)
  have place : r.tick.player.position = r.player.position + r.player.due.length :=
    r.player.position_tick
  have deadline : r.tick.player.waitUntil.toNat = dueTime records r.tick.player.position := by
    rw [place, h.dueTime_due (Nat.le_refl _), ← h.deadline, dueTime, List.take_length]
    exact moves
  constructor
  · show (r.player.time + 1).toNat = n + 1
    rw [UInt32.toNat_add, h.time, UInt32.toNat_one, Nat.mod_eq_of_lt clock]
  · exact r.player.records_tick.trans h.whole
  · exact deadline
  · intro i before
    rw [place] at before
    by_cases earlier : i < r.player.position
    · exact Nat.lt_succ_of_lt (h.past i earlier)
    · obtain ⟨j, rfl⟩ := Nat.exists_eq_add_of_le (Nat.le_of_not_lt earlier)
      have now : j < r.player.due.length := by omega
      have := past j now
      rw [h.deadline, h.time] at this
      rw [h.dueTime_due now.le]
      exact Nat.lt_succ_of_le this
  · intro pending
    have := UInt32.lt_iff_toNat_lt.mp (stop pending)
    rw [h.time] at this
    rw [← deadline]
    exact this
  · have played : r.tick.player.played.reverse = _ := r.player.played_tick
    rw [played, List.map_append, Chip.writeAll_append, ← h.written]
    rfl

theorem position_le (h : OnSchedule records chip n r) : r.player.position ≤ records.length := by
  rw [← h.whole, Player.records, List.length_append, List.length_reverse]
  exact Nat.le_add_right ..

theorem finished_iff (h : OnSchedule records chip n r) :
    r.player.finished = false ↔ r.player.position < records.length := by
  rw [Player.finished, h.pending, List.isEmpty_eq_false_iff, ne_eq, List.drop_eq_nil_iff,
    Nat.not_le]

theorem lt_position_iff (h : OnSchedule records chip n r) {i : Nat} (bound : i < records.length) :
    i < r.player.position ↔ dueTime records i < n := by
  constructor
  · exact h.past i
  · intro due
    by_contra later
    have order := Nat.le_of_not_lt later
    have pending : r.player.pending ≠ [] := by
      rw [h.pending, ne_eq, List.drop_eq_nil_iff]
      omega
    have := h.ahead pending
    have := dueTime_mono records order
    omega

/-- Due times do not decrease, so that those before the clock are those of the records played. -/
theorem position_eq (h : OnSchedule records chip n r) :
    r.player.position = Nat.count (dueTime records · < n) records.length := by
  obtain ⟨left, total⟩ := Nat.exists_eq_add_of_le h.position_le
  have future : ∀ i < left, ¬ dueTime records (r.player.position + i) < n := by
    intro i within
    rw [← h.lt_position_iff (by omega)]
    omega
  rw [total, Nat.count_add, Nat.count_iff_forall.mpr h.past, Nat.count_iff_forall_not.mpr future,
    Nat.add_zero]

end OnSchedule

theorem onSchedule_iterate (records : List Record) (chip : Chip) {n : Nat}
    (room : n + 65535 ≤ 2 ^ 32) :
    OnSchedule records chip n (Replay.tick^[n] ⟨.start records, chip⟩) := by
  induction n with
  | zero => exact .start records chip
  | succ n ih =>
    rw [Function.iterate_succ_apply']
    refine (ih (by omega)).tick (by omega) fun d _ => ?_
    have := d.delay.toNat_lt
    omega

/-- A new player and a rewound one write the records due before the clock to the chip, in order, and
nothing else. A tick answers whether records are left after it. -/
theorem replay_schedule (records : List Record) (chip : Chip) (player : Player)
    (unplayed : player = .start records ∨
      ∃ used : Player, used.Plays records ∧ player = used.rewind)
    (n : Nat) (room : n + 65535 ≤ 2 ^ 32) :
    let after (ticks : Nat) := Replay.tick^[ticks] ⟨player, chip⟩
    let r := after n
    r.player.time.toNat = n ∧
    r.player.position = Nat.count (dueTime records · < n) records.length ∧
    r.chip = (records.take r.player.position).foldl
      (fun c d => c.write d.register.toUInt16 d.value) chip ∧
    ∀ m, n = m + 1 → (after m).play = (decide (r.player.position < records.length), r) := by
  have new : player = .start records := by
    rcases unplayed with new | ⟨used, plays, rewound⟩
    · exact new
    · rw [rewound, Player.rewind, plays.same_records]
  intro after r
  have schedule : OnSchedule records chip n r := by
    have := onSchedule_iterate records chip room
    rwa [← new] at this
  refine ⟨schedule.time, schedule.position_eq, schedule.chip_eq, ?_⟩
  intro m last
  have left : (after m).tick = r := by
    show Replay.tick (Replay.tick^[m] _) = Replay.tick^[n] _
    rw [last, Function.iterate_succ_apply']
  apply Prod.ext
  · rw [Replay.play_fst, left, Bool.eq_iff_iff, Bool.not_eq_true', decide_eq_true_iff]
    exact schedule.finished_iff
  · exact left

/-- Two records in the first tick and one three ticks later, after a rewind in between. The third
tick is not the last one. -/
theorem replay_schedule_rewound :
    let records : List Record := [⟨0x20, 0x01, 0⟩, ⟨0xA0, 0x98, 3⟩, ⟨0xB0, 0x31, 0⟩]
    let used := (Player.start records).tick.tick
    let start : Replay := ⟨used.rewind, .fresh .default⟩
    let r := Replay.tick^[3] start
    used.Plays records ∧ r.player.time.toNat = 3 ∧ r.player.position = 2 ∧
      r.chip = ((Chip.fresh .default).write 0x20 0x01).write 0xA0 0x98 ∧
      (r.chip.operator 0).multiple = 2308 ∧ (r.chip.tuning 0).blockFnum = 0x98 ∧
      (Replay.tick^[2] start).play.1 = true := by
  intro records used start r
  have plays : used.Plays records := .tick (.tick .start)
  obtain ⟨time, position, chip, answer⟩ := replay_schedule records (.fresh .default) used.rewind
    (.inr ⟨used, plays, rfl⟩) 3 (by decide)
  have two : r.player.position = 2 := position.trans (by decide)
  have written : r.chip = ((Chip.fresh .default).write 0x20 0x01).write 0xA0 0x98 := by
    rw [chip, two]
    generalize Chip.fresh .default = c
    rfl
  refine ⟨plays, time, two, written, ?_, ?_, ?_⟩
  · rw [written, Chip.fresh_eq]
    decide +kernel
  · rw [written, Chip.fresh_eq]
    decide +kernel
  · have left : r.player.position < records.length := two.trans_lt (by decide)
    have third : (Replay.tick^[2] start).play = (decide (r.player.position < records.length), r) :=
      answer 2 rfl
    rw [third, decide_eq_true left]

end Ymf262.Imf
