import Mathlib.Algebra.Order.Floor.Div
import Ymf262.Monitor.Basic
import Ymf262.Proofs.Run
import Ymf262.Proofs.TickLimit

/-! Stepping through a log. A step of a monitor breaks off at the tick that plays the last record,
and every step after it makes one tick, so that steps play what the same number of single ticks
would and only the clock falls behind. A restart leaves nothing of what a monitor has been through. -/
namespace Ymf262

namespace Imf.Replay

variable {r : Replay} {N : Nat}

/-- The first tick that leaves nothing to play is the one with number `N`. -/
structure EndsAfter (r : Replay) (N : Nat) : Prop where
  pos : 0 < N
  finished : (tick^[N] r).player.finished
  running : ∀ n, 0 < n → n < N → (tick^[n] r).player.finished = false

theorem tick_of_finished (h : r.player.finished) :
    r.tick = ⟨{ r.player with time := r.player.time + 1 }, r.chip⟩ := by
  obtain ⟨⟨played, pending, waitUntil, time⟩, chip⟩ := r
  obtain rfl : pending = [] := List.isEmpty_iff.mp h
  rfl

theorem iterate_tick_of_finished (h : r.player.finished) (n : Nat) :
    (tick^[n] r).player.finished ∧ (tick^[n] r).chip = r.chip ∧
      (tick^[n] r).player.position = r.player.position := by
  induction n with
  | zero => exact ⟨h, rfl, rfl⟩
  | succ n ih =>
    obtain ⟨finished, chip, position⟩ := ih
    rw [Function.iterate_succ_apply', tick_of_finished finished]
    exact ⟨finished, chip, position⟩

/-- Every log is exhausted at some time, even where its delays leave the clock's range. -/
theorem exists_finished (r : Replay) : ∃ n, 0 < n ∧ (tick^[n] r).player.finished := by
  induction r using Replay.run.induct none with
  | case1 r _ limit => cases limit
  | case2 r _ _ ih =>
    obtain ⟨n, _, finished⟩ := ih
    exact ⟨n + 1, Nat.succ_pos n, finished⟩
  | case3 r last => exact ⟨1, Nat.one_pos, by simpa [play_fst] using last⟩

theorem exists_endsAfter (r : Replay) : ∃ N, r.EndsAfter N := by
  have ends := r.exists_finished
  obtain ⟨pos, finished⟩ := Nat.find_spec ends
  refine ⟨Nat.find ends, pos, finished, ?_⟩
  intro n begun before
  have running := Nat.find_min ends before
  simpa [begun] using running

namespace EndsAfter

theorem finished_iff (h : r.EndsAfter N) {n : Nat} (begun : 0 < n) :
    (tick^[n] r).player.finished ↔ N ≤ n := by
  constructor
  · intro finished
    by_contra before
    rw [h.running n begun (Nat.lt_of_not_le before)] at finished
    cases finished
  · intro past
    obtain ⟨more, rfl⟩ := Nat.exists_eq_add_of_le' past
    rw [Function.iterate_add_apply]
    exact (iterate_tick_of_finished h.finished more).1

theorem exhausted (h : r.EndsAfter N) {n : Nat} (past : N ≤ n) :
    (tick^[n] r).chip = (tick^[N] r).chip ∧
      (tick^[n] r).player.position = (tick^[N] r).player.position := by
  obtain ⟨more, rfl⟩ := Nat.exists_eq_add_of_le' past
  rw [Function.iterate_add_apply]
  exact (iterate_tick_of_finished h.finished more).2

theorem unique {M : Nat} (h : r.EndsAfter N) (other : r.EndsAfter M) : N = M :=
  Nat.le_antisymm ((h.finished_iff other.pos).mp other.finished)
    ((other.finished_iff h.pos).mp h.finished)

theorem iterate (h : r.EndsAfter N) (n : Nat) : (tick^[n] r).EndsAfter (max (N - n) 1) := by
  refine ⟨by omega, ?_, ?_⟩
  · rw [← Function.iterate_add_apply, h.finished_iff (by omega)]
    omega
  · intro m begun before
    rw [← Function.iterate_add_apply]
    apply h.running <;> omega

theorem advance_eq (h : r.EndsAfter N) (n : Nat) : r.advance n = tick^[min n N] r := by
  induction n generalizing r N with
  | zero =>
    rw [Nat.zero_min]
    rfl
  | succ n ih =>
    have pos := h.pos
    have first := h.finished_iff Nat.one_pos
    rw [Function.iterate_one] at first
    have answer : r.play.1 ↔ 1 < N := by
      rw [play_fst, Bool.not_eq_true', ← Bool.not_eq_true, first, Nat.not_le]
    unfold advance
    split
    · rename_i more
      rw [answer] at more
      have rest : min (n + 1) N = min n (max (N - 1) 1) + 1 := by omega
      have later := ih (h.iterate 1)
      rw [Function.iterate_one] at later
      rw [later, rest, Function.iterate_succ_apply]
    · rename_i last
      rw [answer] at last
      have one : min (n + 1) N = 1 := by omega
      rw [one]
      rfl

end EndsAfter

/-- The ticks of some steps of one size: all of them up to the end of the log, and one for each
step after it. -/
def steppedTicks (size N steps : Nat) : Nat :=
  if steps * size ≤ N then steps * size else N + (steps - N ⌈/⌉ size)

variable {size : Nat}

theorem steppedTicks_zero (size N : Nat) : steppedTicks size N 0 = 0 := by
  simp [steppedTicks]

theorem steppedTicks_succ (nonzero : 0 < size) (pos : 0 < N) (steps : Nat) :
    steppedTicks size N (steps + 1) =
      min size (max (N - steppedTicks size N steps) 1) + steppedTicks size N steps := by
  -- The log ends within the step with the number of the rounded quotient.
  have ends (n : Nat) : N ⌈/⌉ size ≤ n ↔ N ≤ n * size := by
    rw [ceilDiv_le_iff_le_mul nonzero, Nat.mul_comm]
  have now := ends steps
  have next := ends (steps + 1)
  have last := ends (steps - 1)
  unfold steppedTicks
  rw [Nat.sub_mul] at last
  rw [Nat.succ_mul] at next ⊢
  split <;> split <;> omega

theorem steppedTicks_le (nonzero : 0 < size) (pos : 0 < N) (steps : Nat) :
    steppedTicks size N steps ≤ steps * size := by
  induction steps with
  | zero => rw [steppedTicks_zero, Nat.zero_mul]
  | succ steps ih =>
    rw [steppedTicks_succ nonzero pos, Nat.succ_mul]
    omega

theorem EndsAfter.steppedTicks_plays (h : r.EndsAfter N) (size steps : Nat) :
    (tick^[steppedTicks size N steps] r).chip = (tick^[steps * size] r).chip ∧
      (tick^[steppedTicks size N steps] r).player.position =
        (tick^[steps * size] r).player.position := by
  unfold steppedTicks
  split
  · exact ⟨rfl, rfl⟩
  · rename_i past
    obtain ⟨chip, position⟩ := h.exhausted (Nat.le_of_not_le past)
    rw [chip, position]
    exact h.exhausted (Nat.le_add_right ..)

theorem EndsAfter.iterate_advance (h : r.EndsAfter N) (nonzero : 0 < size) (steps : Nat) :
    (advance size)^[steps] r = tick^[steppedTicks size N steps] r := by
  induction steps with
  | zero =>
    rw [steppedTicks_zero]
    rfl
  | succ steps ih =>
    rw [Function.iterate_succ_apply', ih, (h.iterate _).advance_eq, ← Function.iterate_add_apply,
      steppedTicks_succ nonzero h.pos]

/-! What ticks and steps keep. -/

theorem records_iterate_tick (r : Replay) (n : Nat) :
    (tick^[n] r).player.records = r.player.records := by
  induction n with
  | zero => rfl
  | succ n ih =>
    rw [Function.iterate_succ_apply', ← ih]
    exact Player.records_tick _

theorem exists_run_iterate_tick (r : Replay) (n : Nat) :
    ∃ actions, (tick^[n] r).chip = r.chip.run actions := by
  induction n with
  | zero => exact ⟨[], rfl⟩
  | succ n ih =>
    obtain ⟨actions, before⟩ := ih
    refine ⟨actions ++ [.tick (tick^[n] r).player], ?_⟩
    rw [Chip.run_concat, ← before, Function.iterate_succ_apply']
    rfl

theorem exists_iterate_eq_advance (r : Replay) (n : Nat) : ∃ m, r.advance n = tick^[m] r := by
  obtain ⟨N, ends⟩ := r.exists_endsAfter
  exact ⟨_, ends.advance_eq n⟩

end Imf.Replay

namespace Imf

theorem endsAfter_span {records : List Record} (chip : Chip)
    (short : duration records < 2 ^ 32 - 1) :
    Replay.EndsAfter ⟨.start records, chip⟩ (span records) := by
  have pending {n : Nat} (begun : 0 < n) (within : n ≤ span records) :=
    (onSchedule_within records chip short within).pending_eq_nil_iff begun
  refine ⟨span_pos records, ?_, ?_⟩
  · apply List.isEmpty_iff.mpr
    exact (pending (span_pos records) (Nat.le_refl _)).mpr (Nat.le_refl _)
  · intro n begun before
    apply List.isEmpty_eq_false_iff.mpr
    rw [ne_eq, pending begun before.le]
    exact Nat.not_le_of_lt before

end Imf

namespace Monitor
open Imf

/-- What can happen to a monitor: it is stepped or restarted, or its chip is changed by hand. -/
inductive Move where
  | advance
  | restart
  | write (w : RegisterWrite)
  | envelope (s : Slot) (e : EnvelopePhase)

def move (m : Monitor) : Move → Monitor
  | .advance => m.advance
  | .restart => m.restart
  | .write w => m.write w
  | .envelope s e => m.setEnvelope s e

def run (m : Monitor) (moves : List Move) : Monitor := moves.foldl move m

variable {records : List Record} {step : Nat} {m : Monitor}

theorem run_concat (m : Monitor) (moves : List Move) (a : Move) :
    m.run (moves ++ [a]) = (m.run moves).move a := by
  rw [run, List.foldl_append]
  rfl

/-- What no move takes from a monitor: its records, its step, and a chip that has been run since
power on. -/
structure Loaded (records : List Record) (step : Nat) (m : Monitor) : Prop where
  records : m.player.records = records
  step : m.step = step
  chip : ∃ actions, m.chip = (Chip.fresh .default).run actions

theorem loaded_start (records : List Record) (step : Nat) :
    (start records step).Loaded records step :=
  ⟨rfl, rfl, [], rfl⟩

theorem Loaded.withAction (h : m.Loaded records step) (a : Action) :
    (m.withChip (m.chip.act a)).Loaded records step := by
  obtain ⟨actions, chip⟩ := h.chip
  refine ⟨h.records, h.step, actions ++ [a], ?_⟩
  rw [Chip.run_concat, ← chip]
  rfl

theorem Loaded.move (h : m.Loaded records step) (a : Move) : (m.move a).Loaded records step := by
  cases a with
  | advance =>
    obtain ⟨n, ticks⟩ := m.replay.exists_iterate_eq_advance m.step
    obtain ⟨before, chip⟩ := h.chip
    obtain ⟨after, advanced⟩ := m.replay.exists_run_iterate_tick n
    refine ⟨?_, h.step, before ++ after, ?_⟩
    · show (m.replay.advance m.step).player.records = records
      rw [ticks, Replay.records_iterate_tick]
      exact h.records
    · show (m.replay.advance m.step).chip = _
      rw [ticks, advanced, Chip.run_append, ← chip]
      rfl
  | restart =>
    obtain ⟨-, -, chip⟩ := h.withAction .reset
    exact ⟨h.records, h.step, chip⟩
  | write w => exact h.withAction (.write w)
  | envelope s e => exact h.withAction (.synthesis (.envelope s e))

theorem loaded_run (records : List Record) (step : Nat) (moves : List Move) :
    ((start records step).run moves).Loaded records step := by
  induction moves using List.reverseRecOn with
  | nil => exact loaded_start records step
  | append_singleton moves a ih =>
    rw [run_concat]
    exact ih.move a

theorem Loaded.restart_eq (h : m.Loaded records step) : m.restart = start records step := by
  obtain ⟨actions, chip⟩ := h.chip
  have settings : m.chip.settings = .default := by
    rw [chip]
    exact Chip.run_keeps (Chip.kept_settings .default) actions
  have reset : m.chip.reset = Chip.fresh .default := by
    rw [Chip.reset_eq, settings, Chip.fresh_eq]
  show Monitor.mk ⟨.start m.player.records, m.chip.reset⟩ m.step = _
  rw [h.records, reset, h.step]
  rfl

theorem iterate_advance (m : Monitor) (k : Nat) :
    advance^[k] m = { m with replay := (Replay.advance m.step)^[k] m.replay } := by
  induction k with
  | zero => rfl
  | succ k ih =>
    rw [Function.iterate_succ_apply', Function.iterate_succ_apply', ih]
    rfl

theorem advance_of_finished (nonzero : 0 < m.step) (h : m.player.finished) :
    m.advance = { m with replay := m.replay.tick } := by
  obtain ⟨n, last⟩ := Nat.exists_eq_add_of_lt nonzero
  have finished : m.replay.tick.player.finished :=
    (Replay.iterate_tick_of_finished h 1).1
  have stops : m.replay.advance m.step = m.replay.tick := by
    rw [last, Nat.zero_add, Replay.advance, if_neg]
    rw [Replay.play_fst, finished]
    decide
  rw [advance, stops]

/-- Steps of any size play what as many single ticks as they ask for would. The clock keeps up with
them to the end of the log, which there always is, and from then on counts the steps. After a
restart nothing is left of what has happened to the monitor, so that the same steps lead to the
same states again. -/
theorem steps_run (records : List Record) (step : Nat) (nonzero : 1 ≤ step) :
    let m := start records step
    ∃ N, m.replay.EndsAfter N ∧ (duration records < 2 ^ 32 - 1 → N = span records) ∧
      (∀ k, k * step + 65535 ≤ 2 ^ 32 →
        let stepped := advance^[k] m
        let ticked := Replay.tick^[k * step] m.replay
        stepped.chip = ticked.chip ∧ stepped.player.position = ticked.player.position ∧
        stepped.player.time.toNat =
          if k * step ≤ N then k * step else N + (k - N ⌈/⌉ step)) ∧
      (∀ k, (advance^[k] m).player.finished →
        (advance^[k + 1] m).player.time = (advance^[k] m).player.time + 1) ∧
      ∀ moves, (m.run moves).restart = m ∧
        ∀ k, advance^[k] (m.run moves).restart = advance^[k] m := by
  intro m
  obtain ⟨N, ends⟩ := m.replay.exists_endsAfter
  refine ⟨N, ends, ?_, ?_, ?_, ?_⟩
  · intro short
    exact ends.unique (endsAfter_span _ short)
  · intro k room stepped ticked
    have replay : stepped.replay = Replay.tick^[Replay.steppedTicks step N k] m.replay := by
      show (advance^[k] m).replay = _
      rw [iterate_advance]
      exact ends.iterate_advance nonzero k
    have behind := Replay.steppedTicks_le nonzero ends.pos k
    have schedule := onSchedule_iterate records (.fresh .default)
      (n := Replay.steppedTicks step N k) (by omega)
    obtain ⟨chip, position⟩ := ends.steppedTicks_plays step k
    unfold Monitor.chip Monitor.player
    rw [replay]
    exact ⟨chip, position, schedule.time⟩
  · intro k finished
    have same : (advance^[k] m).step = step := by
      rw [iterate_advance]
      rfl
    rw [Function.iterate_succ_apply', advance_of_finished (same ▸ nonzero) finished]
    rfl
  · intro moves
    have back : (m.run moves).restart = m := (loaded_run records step moves).restart_eq
    refine ⟨back, fun k => ?_⟩
    rw [back]

/-- The second step of three ticks breaks off at the end of the log, and the next two make one tick
each. A restart undoes them, together with a pair joined and an envelope set by hand. -/
theorem steps_run_past_end :
    let records : List Record := [⟨0x20, 0x01, 0⟩, ⟨0xA0, 0x98, 3⟩, ⟨0xB0, 0x31, 0⟩]
    let m := start records 3
    let moves : List Move := [.advance, .write ⟨0x105, 1⟩, .write ⟨0x104, 1⟩,
      .envelope 0 .sustain, .advance, .advance, .advance]
    (advance^[4] m).player.time.toNat = 6 ∧ (advance^[4] m).player.position = 3 ∧
      (m.run moves).restart = m := by
  intro records m moves
  obtain ⟨N, -, ended, plays, -, restarts⟩ := steps_run records 3 (by decide)
  obtain rfl : N = 4 := ended (by decide)
  obtain ⟨-, position, time⟩ := plays 4 (by decide)
  exact ⟨time, position.trans (by decide), (restarts moves).1⟩

end Monitor

end Ymf262
