import Ymf262.Chip.Basic

/-! Voices. A pair is joined while the chip is in OPL3 mode and the primary is marked, and its
channels then make one voice, led by the primary: they take pitch and key from it and share
one signal graph. Every other channel is a voice of its own. `settle` brings the pairs that
have just been joined or split in line with this. -/
namespace Ymf262.Chip

def joined (c : Chip) (p : Pair) : Bool := c.opl3Mode && (c.channel p.primary).extended

def activePair? (c : Chip) (channel : Nat) : Option Pair :=
  (Pair.containing? channel).filter c.joined

def leader (c : Chip) (ch : ChannelId) : ChannelId :=
  match c.activePair? ch with
  | some p => p.primary
  | none => ch

def pitch (c : Chip) (ch : ChannelId) : Tuning := c.tuning (c.leader ch)

def connectionCode (c : Chip) (p : Pair) : Fin 4 :=
  Destination.connectionCode (c.connection p.primary) (c.connection p.secondary)

def route (c : Chip) (s : Slot) : Destination :=
  match c.activePair? s.channel with
  | some p =>
    let graph := Destination.fourOp p (c.connectionCode p)
    if s.channel = p.primary then graph[s.index.val] else graph[2 + s.index.val]
  | none => (Destination.twoOp s.channel (c.connection s.channel))[s.index]

/-- Routes the slots that `moved` picks out. -/
def reroute (c : Chip) (moved : Slot → Bool) : Chip :=
  c.mapOperators fun s o => if moved s then { o with destination := c.route s } else o

def toggled (before after : Chip) (channel : Nat) : Option Pair :=
  (Pair.containing? channel).filter fun p => before.joined p != after.joined p

/-- Routes both halves of each pair that was joined or split since `before`, and gives the
secondary the pitch it follows now. -/
def settle (before after : Chip) : Chip :=
  after.mapOperators fun s o =>
    match toggled before after s.channel with
    | none => o
    | some p =>
      let routed := { o with destination := after.route s }
      if s.channel = p.secondary then routed.follow (after.pitch s.channel) else routed

theorem leader_congr {b c : Chip} (h : b.joined = c.joined) : b.leader = c.leader := by
  funext ch
  rw [leader, leader, activePair?, activePair?, h]

@[simp] theorem joined_mapOperators (c : Chip) (f : Slot → Operator → Operator) :
    (c.mapOperators f).joined = c.joined := by
  funext p
  rw [joined, joined, channel_mapOperators, opl3Mode_mapOperators]

@[simp] theorem pitch_mapOperators (c : Chip) (f : Slot → Operator → Operator)
    (ch : ChannelId) : (c.mapOperators f).pitch ch = c.pitch ch := by
  rw [pitch, pitch, leader_congr (joined_mapOperators c f), tuning, tuning, channel_mapOperators]

end Ymf262.Chip
