import Ymf262.Proofs.Address
import Ymf262.Proofs.Run

/-! The register map against the decoder. An address outside the map names no register and is
ignored, but for the second names of the connection registers: of an address in their group the
decoder looks at the last four bits only, and so finds each of them twice. -/
namespace Ymf262

namespace Register

/-- The map of the registers: the two that switch modes, note select, five registers to each of
the eighteen operators of a bank and three to each of its nine channels, and the rhythm register. -/
def Listed (a : UInt16) : Prop :=
  a = 0x104 ∨ a = 0x105 ∨ a.toNat % 256 = 0x08 ∨
  (∃ first ∈ [0x20, 0x40, 0x60, 0x80, 0xE0],
    first ≤ a.toNat % 256 ∧ a.toNat % 256 ≤ first + 0x15 ∧
      (a.toNat % 32 ≤ 0x05 ∨ 0x08 ≤ a.toNat % 32 ∧ a.toNat % 32 ≤ 0x0D ∨
        0x10 ≤ a.toNat % 32 ∧ a.toNat % 32 ≤ 0x15)) ∨
  (∃ first ∈ [0xA0, 0xB0, 0xC0], first ≤ a.toNat % 256 ∧ a.toNat % 256 ≤ first + 0x08) ∨
  a = 0xBD

instance : DecidablePred Listed := fun _ => inferInstanceAs (Decidable (_ ∨ _))

def SecondName (a : UInt16) : Prop := 0xD0 ≤ a.toNat % 256 ∧ a.toNat % 256 ≤ 0xD8

instance : DecidablePred SecondName := fun _ => inferInstanceAs (Decidable (_ ∧ _))

theorem ofAddress?_isSome_iff {a : UInt16} (bound : a.toNat < 0x200) :
    (ofAddress? a).isSome ↔ Listed a ∨ SecondName a := by
  have all : ∀ n : Fin 0x200, (ofAddress? (.ofNat n)).isSome ↔
      Listed (.ofNat n) ∨ SecondName (.ofNat n) := by
    decide +kernel
  simpa using all ⟨a.toNat, bound⟩

theorem ofAddress?_secondName {a : UInt16} (bound : a.toNat < 0x200) (h : SecondName a) :
    ofAddress? a = ofAddress? (a - 0x10) := by
  have first : canonical a = a - 0x10 := if_pos h
  rw [← ofAddress?_canonical bound, first]

end Register

namespace Chip

/-- After every run a write outside the map is ignored, except that the second name of a connection
register does what the first one does. -/
theorem write_outside_map (settings : Settings) (actions : List Action) {a : UInt16}
    (bound : a.toNat ≤ 0x1FF) (outside : ¬ Register.Listed a) (v : Byte) :
    let c := (fresh settings).run actions
    (¬ Register.SecondName a → c.write a v = c) ∧
      (Register.SecondName a → c.write a v = c.write (a - 0x10) v) := by
  intro c
  constructor
  · intro other
    have unnamed : ¬ (Register.ofAddress? a).isSome := by
      rw [Register.ofAddress?_isSome_iff (Nat.lt_succ_of_le bound)]
      exact not_or.mpr ⟨outside, other⟩
    exact write_of_none (Option.not_isSome_iff_eq_none.mp unnamed) v
  · intro second
    rw [write, write, Register.ofAddress?_secondName (Nat.lt_succ_of_le bound) second]

/-- There is no rhythm register in the second bank. -/
theorem write_outside_map_holes :
    let c := (fresh .default).run [.write ⟨0x105, 1⟩, .write ⟨0x104, 0x3F⟩]
    ¬ Register.Listed 0x1BD ∧ c.write 0x1BD 0x3F = c ∧
      ¬ Register.Listed 0x1D3 ∧ c.write 0x1D3 1 = c.write 0x1C3 1 := by
  intro c
  have hole : ¬ Register.Listed 0x1BD := by decide
  have second : ¬ Register.Listed 0x1D3 := by decide
  exact ⟨hole, (write_outside_map .default _ (by decide) hole 0x3F).1 (by decide), second,
    (write_outside_map .default _ (by decide) second 1).2 (by decide)⟩

/-- The map does not list the second names, and yet they are not ignored. -/
theorem second_name_not_ignored :
    (0xD0 : UInt16).toNat ≤ 0x1FF ∧ ¬ Register.Listed 0xD0 ∧
      ((fresh .default).run []).write 0xD0 1 ≠ (fresh .default).run [] := by
  refine ⟨by decide, by decide, fun same => ?_⟩
  have connections : (((idle .default).write 0xD0 1).operator 0).connection ≠
      ((idle .default).operator 0).connection := by
    decide +kernel
  apply connections
  have := congrArg (fun c : Chip => (c.operator 0).connection) same
  simpa only [run, List.foldl_nil, fresh_eq] using this

end Chip

end Ymf262
