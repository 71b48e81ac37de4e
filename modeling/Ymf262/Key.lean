/-! An operator is keyed by the note of its channel, by the rhythm section, or by both. It is
held while either source holds it. -/
namespace Ymf262

inductive KeySource where
  | note
  | rhythm
  deriving DecidableEq

structure Keys where
  note : Bool
  rhythm : Bool
  deriving DecidableEq

namespace Keys

def none : Keys := ⟨false, false⟩

def held (k : Keys) : Bool := k.note || k.rhythm

def set (k : Keys) (source : KeySource) (on : Bool) : Keys :=
  match source with
  | .note => { k with note := on }
  | .rhythm => { k with rhythm := on }

/-- The weight of a source in the two bit mask. -/
def weight : KeySource → Nat
  | .note => 1
  | .rhythm => 2

def mask (k : Keys) : Nat := k.note.toNat * weight .note + k.rhythm.toNat * weight .rhythm

theorem mask_eq_zero_iff (k : Keys) : k.mask = 0 ↔ k.held = false := by
  obtain ⟨_ | _, _ | _⟩ := k <;> decide

end Keys

end Ymf262
