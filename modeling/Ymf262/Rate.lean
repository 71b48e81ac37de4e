/-! Envelope rates. A rate index runs over 96 entries: sixteen that never move the envelope,
four steps to each of the rates 0 to 15, and sixteen that repeat the last. An entry is the
number of bits the envelope counter is shifted by and the row of the increment table. -/
namespace Ymf262

structure Rate where
  shift : Nat
  select : Nat
  deriving DecidableEq

namespace Rate

/-- Rows of the increment table are this far apart. -/
def step : Nat := 8

/-- An attack takes no time from this index on. Decay and release get here, too, and go on by the
table. -/
def instant : Nat := 16 + 60

def selects : List Nat :=
  List.replicate 16 112 ++ (List.replicate 13 [0, 8, 16, 24]).flatten ++
    [32, 40, 48, 56, 64, 72, 80, 88] ++ List.replicate 20 96

def shifts : List Nat :=
  List.replicate 16 0 ++ ((List.range 12).flatMap fun i => List.replicate 4 (12 - i)) ++
    List.replicate 32 0

def ofIndex (i : Nat) : Rate := ⟨shifts.getD i 0, selects.getD i 0⟩

def attackOfIndex (i : Nat) : Rate :=
  if i < instant then ofIndex i else ⟨0, 13 * step⟩

/-- The index of a rate nibble before key scaling. A zero nibble stays among the first
sixteen entries however large the key scale value. -/
def code (nibble : Nat) : Nat := if nibble = 0 then 0 else 16 + 4 * nibble

theorem selects_length : selects.length = 96 := rfl

theorem shifts_length : shifts.length = 96 := rfl

end Rate

end Ymf262
