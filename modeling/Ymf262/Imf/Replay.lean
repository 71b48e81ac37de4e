import Ymf262.Chip.Event
import Ymf262.Imf.Player

/-! A chip and the player that feeds it. A run goes on until the log is exhausted or a tick
limit is reached; the limit is only looked at after a tick, so the first tick always happens.
A run ends because a tick either plays a record or brings the clock nearer to the deadline. -/
namespace Ymf262.Imf

structure Replay where
  player : Player
  chip : Chip
  deriving DecidableEq

namespace Replay

/-- One tick: the records that are due are written to the chip, and the answer says whether any
are left. -/
def play (r : Replay) : Bool × Replay :=
  let player := r.player.tick
  (!player.finished, ⟨player, r.chip.writeAll (r.player.due.map Record.write)⟩)

def tick (r : Replay) : Replay := r.play.2

theorem play_fst (r : Replay) : r.play.1 = !r.tick.player.finished := rfl

def tickEvents (r : Replay) : List Event := r.chip.writeAllEvents (r.player.due.map Record.write)

def distance (p : Player) : Nat := p.waitUntil.toNat - p.time.toNat

theorem length_tick_le (p : Player) : p.tick.pending.length ≤ p.pending.length := by
  have := congrArg List.length p.due_append_pending
  simp only [List.length_append] at this
  omega

theorem tick_of_due_nil {p : Player} (h : p.tick.pending ≠ []) (idle : p.due = []) :
    p.tick.waitUntil = p.waitUntil ∧ p.time < p.waitUntil := by
  unfold Player.due at idle
  unfold Player.tick at h ⊢
  cases hp : p.pending with
  | nil => simp [hp, Player.split] at h
  | cons r rest =>
    by_cases hw : p.waitUntil ≤ p.time
    · simp [hp, Player.split, hw] at idle
    · simp [Player.split, hw, UInt32.not_le.mp hw]

theorem distance_tick {p : Player} (h : p.tick.pending ≠ [])
    (same : p.tick.pending.length = p.pending.length) : distance p.tick < distance p := by
  have idle : p.due = [] := by
    have := congrArg List.length p.due_append_pending
    rw [List.length_append, same] at this
    exact List.eq_nil_of_length_eq_zero (by omega)
  obtain ⟨kept, later⟩ := tick_of_due_nil h idle
  have time : p.tick.time = p.time + 1 := rfl
  have bound := p.waitUntil.toNat_lt
  rw [UInt32.lt_iff_toNat_lt] at later
  rw [distance, distance, kept, time, UInt32.toNat_add, UInt32.toNat_one,
    Nat.mod_eq_of_lt (by omega)]
  omega

theorem play_iff {r : Replay} : r.play.1 ↔ r.tick.player.pending ≠ [] := by
  rw [play_fst, Player.finished, Bool.not_eq_true', List.isEmpty_eq_false_iff]

def run (limit : Option UInt32) (r : Replay) : Replay :=
  if r.play.1 then
    if limit.any (· ≤ r.tick.player.time) then r.tick else run limit r.tick
  else r.tick
termination_by (r.player.pending.length, distance r.player)
decreasing_by
  rename_i more _
  simp only [Prod.lex_def]
  exact (Nat.lt_or_eq_of_le (length_tick_le r.player)).imp id
    fun same => ⟨same, distance_tick (play_iff.mp more) same⟩

/-- At most `n` ticks, none after the one that plays the last record. -/
def advance : Nat → Replay → Replay
  | 0, r => r
  | n + 1, r => if r.play.1 then advance n r.tick else r.tick

end Replay

end Ymf262.Imf
