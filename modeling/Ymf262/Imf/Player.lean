import Ymf262.Imf.Record

/-! Playing a log, one tick at a time. A record is due once the time has reached the deadline
that the record before it set, and a record without delay makes the next one due in the same
tick. -/
namespace Ymf262.Imf

structure Player where
  /-- The records already played, the latest first. -/
  played : List Record
  pending : List Record
  waitUntil : UInt32
  time : UInt32
  deriving DecidableEq

namespace Player

def start (records : List Record) : Player := ⟨[], records, 0, 0⟩

def records (p : Player) : List Record := p.played.reverse ++ p.pending

def position (p : Player) : Nat := p.played.length

def finished (p : Player) : Bool := p.pending.isEmpty

def rewind (p : Player) : Player := start p.records

/-- The records due at `time`, the others, and the deadline that is left standing. -/
def split (time waitUntil : UInt32) : List Record → List Record × List Record × UInt32
  | [] => ([], [], waitUntil)
  | r :: rest =>
    if waitUntil ≤ time then
      let (due, later, deadline) := split time (time + r.delay.toUInt32) rest
      (r :: due, later, deadline)
    else ([], r :: rest, waitUntil)

def due (p : Player) : List Record := (split p.time p.waitUntil p.pending).1

def tick (p : Player) : Player :=
  let moved := split p.time p.waitUntil p.pending
  ⟨moved.1.reverse ++ p.played, moved.2.1, moved.2.2, p.time + 1⟩

theorem split_append (time waitUntil : UInt32) (rs : List Record) :
    (split time waitUntil rs).1 ++ (split time waitUntil rs).2.1 = rs := by
  fun_induction split time waitUntil rs <;> simp_all

theorem due_append_pending (p : Player) : p.due ++ p.tick.pending = p.pending :=
  split_append ..

theorem records_tick (p : Player) : p.tick.records = p.records := by
  simp [records, tick, split_append]

end Player

end Ymf262.Imf
