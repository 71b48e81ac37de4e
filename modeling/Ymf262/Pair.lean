import Ymf262.Error
import Ymf262.Slot

/-! The six channel pairs that can be joined into four operator voices. The secondary of a
pair lies three channels above its primary; channels 6 to 8 and 15 to 17 are in no pair. -/
namespace Ymf262

abbrev Pair := Fin 6

namespace Pair

def primary (p : Pair) : ChannelId := ⟨if p.val < 3 then p.val else p.val + 6, by split <;> omega⟩

def secondary (p : Pair) : ChannelId := ⟨p.primary.val + 3, by unfold primary; simp only; split <;> omega⟩

def startingAt? (channel : Nat) : Option Pair :=
  if h : channel < 3 then some ⟨channel, by omega⟩
  else if h : 9 ≤ channel ∧ channel < 12 then some ⟨channel - 6, by omega⟩
  else none

def containing? (channel : Nat) : Option Pair :=
  startingAt? channel <|> if 3 ≤ channel then startingAt? (channel - 3) else none

def starting (channel : Nat) : Except Error Pair :=
  match startingAt? channel with
  | some p => .ok p
  | none => .error (.pair channel)

def all : List Pair := List.finRange 6

@[simp] theorem startingAt?_primary (p : Pair) : startingAt? p.primary = some p := by
  revert p; decide

@[simp] theorem containing?_primary (p : Pair) : containing? p.primary = some p := by
  revert p; decide

@[simp] theorem containing?_secondary (p : Pair) : containing? p.secondary = some p := by
  revert p; decide

theorem containing?_eq_some_iff {c : ChannelId} {p : Pair} :
    containing? c = some p ↔ c = p.primary ∨ c = p.secondary := by
  revert c p; decide

end Pair

inductive PairRole where
  | primary
  | secondary
  | single
  deriving DecidableEq

def PairRole.of (channel : Nat) : PairRole :=
  match Pair.containing? channel with
  | none => .single
  | some p => if channel = p.primary then .primary else .secondary

def PairRole.text : PairRole → String
  | primary => "Primary"
  | secondary => "Secondary"
  | single => "Single"

end Ymf262
