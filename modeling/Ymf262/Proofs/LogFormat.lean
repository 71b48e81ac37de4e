import Ymf262.Imf.Record

/-! The two forms of a log, exactly. Records are read from whole groups of four bytes and written
back as they were, and a rest that is no whole group is refused at its own offset. A chunk reads as
many bytes as it declares and nothing after them. -/
namespace Ymf262.Imf

theorem word_lt (low high : Byte) : word low high < 65536 := by
  have := low.toNat_lt
  have := high.toNat_lt
  rw [word]
  omega

theorem word_wordBytes {n : Nat} (h : n < 65536) :
    word (UInt8.ofNat n) (UInt8.ofNat (n / 256)) = n := by
  have low : (UInt8.ofNat n).toNat = n % 256 := UInt8.toNat_ofNat'
  have high : (UInt8.ofNat (n / 256)).toNat = n / 256 :=
    UInt8.toNat_ofNat_of_lt' (by show _ < 256; omega)
  rw [word, low, high]
  omega

theorem wordBytes_word (low high : Byte) : wordBytes (word low high) = [low, high] := by
  have lowBound := low.toNat_lt
  have lower : UInt8.ofNat (word low high) = low := by
    apply UInt8.toNat_inj.mp
    rw [UInt8.toNat_ofNat', word]
    omega
  have upper : word low high / 256 = high.toNat := by
    rw [word]
    omega
  rw [wordBytes, lower, upper, UInt8.ofNat_toNat]

namespace Record

@[simp] theorem length_encode (r : Record) : r.encode.length = 4 := rfl

theorem encode_read (register value low high : Byte) :
    encode ⟨register, value, .ofNat (word low high)⟩ = [register, value, low, high] := by
  rw [encode, UInt16.toNat_ofNat_of_lt' (word_lt low high), wordBytes_word]

end Record

@[simp] theorem encode_cons (r : Record) (rs : List Record) :
    encode (r :: rs) = r.encode ++ encode rs := List.flatMap_cons

@[simp] theorem length_encode (rs : List Record) : (encode rs).length = 4 * rs.length := by
  induction rs with
  | nil => rfl
  | cons r rs ih =>
    rw [encode_cons, List.length_append, Record.length_encode, ih, List.length_cons]
    omega

variable {offset : Nat} {d : List Byte} {rs : List Record}

theorem records_encode (offset : Nat) (rs : List Record) :
    records offset (encode rs) = .ok rs := by
  induction rs generalizing offset with
  | nil => rfl
  | cons r rs ih =>
    have delay : UInt16.ofNat (word (.ofNat r.delay.toNat) (.ofNat (r.delay.toNat / 256))) =
        r.delay := by
      rw [word_wordBytes r.delay.toNat_lt, UInt16.ofNat_toNat]
    show (records (offset + 4) (encode rs)).map _ = _
    rw [ih, delay]
    rfl

theorem encode_of_records (h : records offset d = .ok rs) : encode rs = d := by
  fun_induction records offset d generalizing rs with
  | case1 offset =>
    cases h
    rfl
  | case2 offset register value low high rest ih =>
    cases later : records (offset + 4) rest with
    | error e =>
      rw [later] at h
      cases h
    | ok us =>
      rw [later] at h
      cases h
      rw [encode_cons, Record.encode_read, ih later]
      rfl
  | case3 => cases h

theorem length_of_rest (nonempty : d = [] → False)
    (part : ∀ register value low high rest, d = register :: value :: low :: high :: rest → False) :
    0 < d.length ∧ d.length < 4 := by
  match d with
  | [] => exact (nonempty rfl).elim
  | [_] | [_, _] | [_, _, _] => simp
  | _ :: _ :: _ :: _ :: _ => exact (part _ _ _ _ _ rfl).elim

theorem records_of_dvd (whole : 4 ∣ d.length) : ∃ rs, records offset d = .ok rs := by
  fun_induction records offset d with
  | case1 offset => exact ⟨[], rfl⟩
  | case2 offset register value low high rest ih =>
    have : 4 ∣ rest.length := by
      simp only [List.length_cons] at whole
      omega
    obtain ⟨us, later⟩ := ih this
    rw [later]
    exact ⟨_, rfl⟩
  | case3 d offset nonempty part =>
    have := length_of_rest nonempty part
    omega

theorem records_of_not_dvd (part : ¬ 4 ∣ d.length) :
    records offset d = .error (.truncated (offset + 4 * (d.length / 4))) := by
  fun_induction records offset d with
  | case1 offset => exact (part (Nat.dvd_zero 4)).elim
  | case2 offset register value low high rest ih =>
    simp only [List.length_cons] at part ⊢
    have place : offset + 4 + 4 * (rest.length / 4) =
        offset + 4 * ((rest.length + 1 + 1 + 1 + 1) / 4) := by
      omega
    rw [ih (by omega), ← place]
    rfl
  | case3 d offset nonempty rest =>
    have := length_of_rest nonempty rest
    have first : d.length / 4 = 0 := by omega
    rw [first, Nat.mul_zero, Nat.add_zero]

theorem records_isOk_iff : (∃ rs, records offset d = .ok rs) ↔ 4 ∣ d.length := by
  refine ⟨?_, records_of_dvd⟩
  rintro ⟨rs, h⟩
  rw [← encode_of_records h, length_encode]
  exact Nat.dvd_mul_right 4 _

/-- The declared bytes follow the two that declare them, so that offsets start at two. -/
theorem parse_chunk_of_le {low high : Byte} (h : word low high ≤ d.length) :
    parse .chunk (low :: high :: d) = records 2 (d.take (word low high)) := by
  rw [parse, if_neg (Nat.not_lt_of_le h)]

theorem parse_chunk_of_lt {low high : Byte} (h : d.length < word low high) :
    parse .chunk (low :: high :: d) = .error (.length (word low high) d.length) := by
  rw [parse, if_pos h]

theorem parse_chunk_of_short (h : d.length < 2) : parse .chunk d = .error (.truncated 0) := by
  match d with
  | [] | [_] => rfl
  | _ :: _ :: _ =>
    simp only [List.length_cons] at h
    omega

theorem parse_chunk_encode (tail : List Byte) (h : 4 * rs.length ≤ 65535) :
    parse .chunk (wordBytes (4 * rs.length) ++ encode rs ++ tail) = .ok rs := by
  have declared : word (.ofNat (4 * rs.length)) (.ofNat (4 * rs.length / 256)) =
      (encode rs).length := by
    rw [word_wordBytes (Nat.lt_succ_of_le h), length_encode]
  rw [wordBytes, List.append_assoc]
  show parse .chunk (_ :: _ :: (encode rs ++ tail)) = _
  rw [parse_chunk_of_le (by rw [declared, List.length_append]; omega), declared, List.take_left,
    records_encode]

/-- A log is read exactly when it consists of whole records, and written back to the bytes that
were read. Otherwise the fault is the first one that there is: no length, too few bytes for the
length, or the offset of the record that breaks off. -/
theorem parse_exact (d : List Byte) :
    ((∃ rs, parse .raw d = .ok rs) ↔ 4 ∣ d.length) ∧
    (¬ 4 ∣ d.length → parse .raw d = .error (.truncated (4 * (d.length / 4)))) ∧
    (∀ rs, parse .raw d = .ok rs → encode rs = d) ∧
    (d.length < 2 → parse .chunk d = .error (.truncated 0)) ∧
    (∀ low high rest, d = low :: high :: rest →
      let n := low.toNat + 256 * high.toNat
      (rest.length < n → parse .chunk d = .error (.length n rest.length)) ∧
      (n ≤ rest.length →
        (¬ 4 ∣ n → parse .chunk d = .error (.truncated (2 + 4 * (n / 4)))) ∧
        (4 ∣ n → ∃ rs, parse .chunk d = .ok rs ∧ encode rs = rest.take n) ∧
        ∀ tail, parse .chunk (low :: high :: rest.take n ++ tail) = parse .chunk d)) ∧
    (∀ rs, parse .raw (encode rs) = .ok rs) ∧
    ∀ rs tail, 4 * rs.length ≤ 65535 →
      parse .chunk (wordBytes (4 * rs.length) ++ encode rs ++ tail) = .ok rs := by
  refine ⟨records_isOk_iff, ?_, fun rs h => encode_of_records h, parse_chunk_of_short, ?_,
    fun rs => records_encode 0 rs, fun rs tail h => parse_chunk_encode tail h⟩
  · intro part
    have refused : parse .raw d = _ := @records_of_not_dvd 0 d part
    rw [refused, Nat.zero_add]
  · rintro low high rest rfl n
    refine ⟨parse_chunk_of_lt, fun enough => ?_⟩
    have length : (rest.take n).length = n := List.length_take_of_le enough
    have read : parse .chunk (low :: high :: rest) = records 2 (rest.take n) :=
      parse_chunk_of_le enough
    rw [read]
    refine ⟨?_, ?_, ?_⟩
    · intro part
      rw [records_of_not_dvd (length.symm ▸ part), length]
    · intro whole
      obtain ⟨rs, h⟩ := @records_of_dvd 2 _ (length.symm ▸ whole)
      exact ⟨rs, h, encode_of_records h⟩
    · intro tail
      have still : word low high ≤ (rest.take n ++ tail).length := by
        rw [List.length_append, length]
        exact Nat.le_add_right ..
      show parse .chunk (low :: high :: (rest.take n ++ tail)) = _
      rw [parse_chunk_of_le still]
      show records 2 ((rest.take n ++ tail).take n) = _
      rw [List.take_left' length]

/-- A chunk of one record with other data after it, and one that declares a byte too many. -/
theorem parse_exact_chunk :
    parse .chunk [4, 0, 0xA0, 0x98, 0x2C, 0x01, 0x74, 0x61] = .ok [⟨0xA0, 0x98, 300⟩] ∧
      parse .chunk [5, 0, 0xA0, 0x98, 0x2C, 0x01, 0x74] = .error (.truncated 6) := by
  obtain ⟨-, -, -, -, -, -, written⟩ := parse_exact []
  obtain ⟨-, -, -, -, declared, -⟩ := parse_exact [5, 0, 0xA0, 0x98, 0x2C, 0x01, 0x74]
  obtain ⟨broken, -⟩ := (declared 5 0 _ rfl).2 (by decide)
  exact ⟨written [⟨0xA0, 0x98, 300⟩] [0x74, 0x61] (by decide), broken (by decide)⟩

end Ymf262.Imf
