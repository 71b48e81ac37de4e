import Ymf262.Error
import Ymf262.Register

/-! Register logs in the IMF format: records of four bytes, a register of the first bank, a
value, and the ticks to wait before the next record. A chunk puts the length of its records in
front and may be followed by other data. -/
namespace Ymf262.Imf

inductive Format where
  | raw
  | chunk
  deriving DecidableEq

structure Record where
  register : Byte
  value : Byte
  delay : UInt16
  deriving DecidableEq

/-- Ticks a second of most logs. -/
def clockRate : Nat := 560

/-- Ticks a second of the logs of Wolfenstein 3D. -/
def wolfensteinClockRate : Nat := 700

def word (low high : Byte) : Nat := low.toNat + 256 * high.toNat

def wordBytes (n : Nat) : List Byte := [UInt8.ofNat n, UInt8.ofNat (n / 256)]

namespace Record

def write (r : Record) : RegisterWrite := ⟨r.register.toUInt16, r.value⟩

def encode (r : Record) : List Byte := r.register :: r.value :: wordBytes r.delay.toNat

end Record

def encode (records : List Record) : List Byte := records.flatMap Record.encode

/-- Records up to the end of the data. The offset is that of the first byte. -/
def records (offset : Nat) : List Byte → Except Error (List Record)
  | [] => .ok []
  | register :: value :: low :: high :: rest =>
    (records (offset + 4) rest).map (⟨register, value, UInt16.ofNat (word low high)⟩ :: ·)
  | _ => .error (.truncated offset)

def parse (format : Format) (data : List Byte) : Except Error (List Record) :=
  match format, data with
  | .raw, data => records 0 data
  | .chunk, low :: high :: rest =>
    let declared := word low high
    if rest.length < declared then .error (.length declared rest.length)
    else records 2 (rest.take declared)
  | .chunk, _ => .error (.truncated 0)

def load (format : Format) (file : Except FileFault (List Byte)) :
    Except Error (List Record) :=
  match file with
  | .ok data => parse format data
  | .error fault => .error (.file fault)

end Ymf262.Imf
