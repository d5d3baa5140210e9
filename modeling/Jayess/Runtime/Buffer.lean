import Jayess.Number.LittleEndian
import Jayess.Runtime.AudioQueue

/-!
# Buffers
-/

namespace Jayess.Runtime

/-- `runtime.Buffer`; a slice holds no more bytes than an int can count. -/
structure Buffer where
  data : List UInt8
  fits : data.length < 2 ^ 63

/-- `binary.LittleEndian.PutUint16` to the two bytes from an offset on. -/
def putUInt16LE (buffer : Buffer) (offset : Nat) (value : UInt16) : Buffer where
  data := (buffer.data.set offset value.toUInt8).set (offset + 1) (value >>> 8).toUInt8
  fits := by
    rw [List.length_set, List.length_set]
    exact buffer.fits

def clampRange (length start stop : Int64) : Int64 × Int64 :=
  let start := if start < 0 then 0 else start
  let stop := if stop < 0 ∨ length < stop then length else stop
  let start := if length < start then length else start
  let stop := if stop < start then start else stop
  (start, stop)

/-! A pointer that is nil is no buffer. The calls give nothing where a slice expression is out of range. -/

/-- `BufferSlice`, the bytes of the new buffer. -/
def bufferSlice (buffer : Option Buffer) (start stop : Int64) : Option (List UInt8) :=
  match buffer with
  | none => some []
  | some buffer =>
      let range := clampRange (Word.ofLength buffer.data.length) start stop
      sliceBetween buffer.data range.1 range.2

/-- `BufferCopy`, with the bytes of the target after it. -/
def bufferCopy (source target : Option Buffer) (offset : Int64) : Option (Nat × List UInt8) :=
  match source, target with
  | some source, some target =>
      if offset < 0 ∨ Word.ofLength target.data.length ≤ offset then some (0, target.data)
      else
        (sliceBetween target.data offset (Word.ofLength target.data.length)).map fun destination =>
          let count := min destination.length source.data.length
          (count, target.data.take offset.toInt.toNat ++
            (source.data.take count ++ destination.drop count))
  | none, some target => some (0, target.data)
  | _, none => some (0, [])

def bufferReadUInt16LE (buffer : Option Buffer) (offset : Int64) : Option (Except String UInt16) :=
  match buffer with
  | none => some (.error "buffer read out of range")
  | some buffer =>
      if offset < 0 ∨ Word.ofLength buffer.data.length < offset + 2 then
        some (.error "buffer read out of range")
      else
        (sliceBetween buffer.data offset (offset + 2)).map fun bytes => .ok (LittleEndian.uint16 bytes)

/-- `BufferWriteUInt16LE`, with the buffer after it. -/
def bufferWriteUInt16LE (buffer : Option Buffer) (value : UInt16) (offset : Int64) :
    Option (Except String Buffer) :=
  match buffer with
  | none => some (.error "buffer write out of range")
  | some buffer =>
      if offset < 0 ∨ Word.ofLength buffer.data.length < offset + 2 then
        some (.error "buffer write out of range")
      else
        (sliceBetween buffer.data offset (offset + 2)).map fun _ =>
          .ok (putUInt16LE buffer offset.toInt.toNat value)

namespace Buffer

/-- The bytes behind a pointer; none for nil. -/
def bytes (buffer : Option Buffer) : List UInt8 := (buffer.map (·.data)).getD []

def Outside (buffer : Option Buffer) (offset : Int64) : Prop :=
  offset.toInt < 0 ∨ (bytes buffer).length - 2 < offset.toInt

/-- A read completes, with an error exactly where two bytes do not fit. -/
def ReadRight (buffer : Option Buffer) (offset : Int64) : Prop :=
  ∃ result, bufferReadUInt16LE buffer offset = some result ∧
    ((∃ message, result = .error message) ↔ Outside buffer offset)

/-- A write completes, with an error exactly where two bytes do not fit; what it writes is read back, and no
byte but the two at the offset is changed. -/
def WriteRight (buffer : Option Buffer) (value : UInt16) (offset : Int64) : Prop :=
  ∃ result, bufferWriteUInt16LE buffer value offset = some result ∧
    ((∃ message, result = .error message) ↔ Outside buffer offset) ∧
    ∀ written, result = .ok written →
      bufferReadUInt16LE (some written) offset = some (.ok value) ∧
      written.data.length = (bytes buffer).length ∧
      ∀ index : Nat, (index : Int) ≠ offset.toInt → (index : Int) ≠ offset.toInt + 1 →
        written.data[index]? = (bytes buffer)[index]?

def clamp (low high value : Int) : Int := max low (min value high)

/-- A slice is the bytes between its ends, which are moved into the range of the buffer; a negative end is the
end of the buffer. -/
def SliceRight (buffer : Option Buffer) (start stop : Int64) : Prop :=
  let length : Int := (bytes buffer).length
  let low := clamp 0 length start.toInt
  let high := if stop.toInt < 0 then length else clamp 0 length stop.toInt
  bufferSlice buffer start stop =
    some (((bytes buffer).drop low.toNat).take (high - low).toNat)

/-- A copy replaces as many bytes from the offset on as the source has and the target has room for. -/
def CopyRight (source target : Option Buffer) (offset : Int64) : Prop :=
  let room : Int := if offset.toInt < 0 then 0 else (bytes target).length - offset.toInt
  let count := (clamp 0 (bytes source).length room).toNat
  bufferCopy source target offset =
    some (count, (bytes target).take offset.toInt.toNat ++ (bytes source).take count ++
      (bytes target).drop (offset.toInt.toNat + count))

section Pair

variable {buffer : Buffer} {offset : Int64}

theorem toInt_add_two (offset : Int64) : (offset + 2).toInt = (offset.toInt + 2).bmod (2 ^ 64) :=
  Int64.toInt_add offset 2

theorem outside_some : Outside (some buffer) offset ↔
    offset.toInt < 0 ∨ (buffer.data.length : Int) < offset.toInt + 2 := by
  rw [Outside, bytes, Option.map_some, Option.getD_some]
  omega

theorem guard_iff (hexact : offset.toInt < 2 ^ 63 - 2) :
    (offset < 0 ∨ Word.ofLength buffer.data.length < offset + 2) ↔ Outside (some buffer) offset := by
  have hbounds := Word.toInt_bounds offset
  rw [outside_some, Int64.lt_iff_toInt_lt, Int64.lt_iff_toInt_lt, Word.toInt_ofLength buffer.fits,
    toInt_add_two, Word.bmod_eq_self (by omega) (by omega)]
  rfl

theorem sliceBetween_pair (hexact : offset.toInt < 2 ^ 63 - 2)
    (hinside : ¬Outside (some buffer) offset) :
    sliceBetween buffer.data offset (offset + 2) =
      some ((buffer.data.drop offset.toInt.toNat).take 2) := by
  have hbounds := Word.toInt_bounds offset
  rw [outside_some] at hinside
  have hsum : (offset + 2).toInt = offset.toInt + 2 := by
    rw [toInt_add_two, Word.bmod_eq_self (by omega) (by omega)]
  rw [sliceBetween, if_pos (by omega), hsum]
  congr 2
  omega

/-- Past the largest exact offset the sum is negative: the guard lets it pass, and the slice is out of
range. -/
theorem wraps (hwraps : ¬offset.toInt < 2 ^ 63 - 2) :
    ¬(offset < 0 ∨ Word.ofLength buffer.data.length < offset + 2) ∧
      sliceBetween buffer.data offset (offset + 2) = none := by
  have hbounds := Word.toInt_bounds offset
  have hsum : (offset + 2).toInt = offset.toInt + 2 - 2 ^ 64 := by
    rw [toInt_add_two, Int.bmod_def]
    omega
  rw [Int64.lt_iff_toInt_lt, Int64.lt_iff_toInt_lt, Word.toInt_ofLength buffer.fits, hsum]
  constructor
  · change ¬(offset.toInt < 0 ∨ _)
    omega
  · rw [sliceBetween, if_neg (by omega)]

end Pair

section Access

variable {buffer : Buffer} {offset : Int64}

theorem readRight_iff : ReadRight (some buffer) offset ↔ offset.toInt < 2 ^ 63 - 2 := by
  constructor
  · rintro ⟨result, hread, -⟩
    by_contra hwraps
    obtain ⟨hguard, hslice⟩ := @wraps buffer offset hwraps
    rw [bufferReadUInt16LE, if_neg hguard, hslice] at hread
    cases hread
  · intro hexact
    by_cases houtside : Outside (some buffer) offset
    · refine ⟨_, by rw [bufferReadUInt16LE, if_pos ((guard_iff hexact).mpr houtside)], ?_⟩
      exact iff_of_true ⟨_, rfl⟩ houtside
    · have hread : bufferReadUInt16LE (some buffer) offset =
          some (.ok (LittleEndian.uint16 ((buffer.data.drop offset.toInt.toNat).take 2))) := by
        rw [bufferReadUInt16LE, if_neg (mt (guard_iff hexact).mp houtside),
          sliceBetween_pair hexact houtside]
        rfl
      refine ⟨_, hread, iff_of_false ?_ houtside⟩
      rintro ⟨message, hmessage⟩
      cases hmessage

theorem take_putUInt16LE {start : Nat} (value : UInt16) (hfits : start + 1 < buffer.data.length) :
    ((putUInt16LE buffer start value).data.drop start).take 2 =
      LittleEndian.bytes16 value := by
  have hfirst : start < buffer.data.length := by omega
  apply List.ext_getElem?
  intro index
  rw [List.getElem?_take, List.getElem?_drop, putUInt16LE]
  match index with
  | 0 => simp [LittleEndian.bytes16, hfirst]
  | 1 => simp [LittleEndian.bytes16, hfits]
  | index + 2 => simp [LittleEndian.bytes16]

theorem read_putUInt16LE (value : UInt16) (hexact : offset.toInt < 2 ^ 63 - 2)
    (hinside : ¬Outside (some buffer) offset) :
    bufferReadUInt16LE (some (putUInt16LE buffer offset.toInt.toNat value)) offset =
      some (.ok value) := by
  have hlength : (putUInt16LE buffer offset.toInt.toNat value).data.length = buffer.data.length := by
    rw [putUInt16LE, List.length_set, List.length_set]
  have hinside' : ¬Outside (some (putUInt16LE buffer offset.toInt.toNat value)) offset := by
    rwa [outside_some, hlength, ← outside_some]
  rw [bufferReadUInt16LE, if_neg (mt (guard_iff hexact).mp hinside'),
    sliceBetween_pair hexact hinside', Option.map_some]
  rw [outside_some] at hinside
  rw [take_putUInt16LE value (by omega), LittleEndian.uint16_bytes16]

theorem writeRight_iff (value : UInt16) :
    WriteRight (some buffer) value offset ↔ offset.toInt < 2 ^ 63 - 2 := by
  constructor
  · rintro ⟨result, hwrite, -⟩
    by_contra hwraps
    obtain ⟨hguard, hslice⟩ := @wraps buffer offset hwraps
    rw [bufferWriteUInt16LE, if_neg hguard, hslice] at hwrite
    cases hwrite
  · intro hexact
    by_cases houtside : Outside (some buffer) offset
    · refine ⟨_, by rw [bufferWriteUInt16LE, if_pos ((guard_iff hexact).mpr houtside)], ?_, ?_⟩
      · exact iff_of_true ⟨_, rfl⟩ houtside
      · intro written hwritten
        cases hwritten
    · have hwrite : bufferWriteUInt16LE (some buffer) value offset =
          some (.ok (putUInt16LE buffer offset.toInt.toNat value)) := by
        rw [bufferWriteUInt16LE, if_neg (mt (guard_iff hexact).mp houtside),
          sliceBetween_pair hexact houtside]
        rfl
      refine ⟨_, hwrite, iff_of_false ?_ houtside, ?_⟩
      · rintro ⟨message, hmessage⟩
        cases hmessage
      · rintro written ⟨⟩
        refine ⟨read_putUInt16LE value hexact houtside, ?_, ?_⟩
        · rw [putUInt16LE, List.length_set, List.length_set]
          rfl
        · intro index hfirst hsecond
          rw [outside_some] at houtside
          rw [putUInt16LE, List.getElem?_set_ne (by omega), List.getElem?_set_ne (by omega)]
          rfl

end Access

theorem toInt_clampRange {length : Int64} (hlength : 0 ≤ length.toInt) (start stop : Int64) :
    (clampRange length start stop).1.toInt = clamp 0 length.toInt start.toInt ∧
      (clampRange length start stop).2.toInt =
        max (clamp 0 length.toInt start.toInt)
          (if stop.toInt < 0 then length.toInt else clamp 0 length.toInt stop.toInt) := by
  have hzero : (0 : Int64).toInt = 0 := rfl
  simp only [clampRange, clamp, Int64.lt_iff_toInt_lt, hzero]
  constructor
  · split_ifs <;> simp only [hzero] at * <;> omega
  · split_ifs <;> simp only [hzero] at * <;> omega

theorem sliceRight (buffer : Option Buffer) (start stop : Int64) : SliceRight buffer start stop := by
  cases buffer with
  | none =>
      rw [SliceRight, bytes, Option.map_none, Option.getD_none, List.drop_nil, List.take_nil]
      rfl
  | some buffer =>
      have hlength := Word.toInt_ofLength buffer.fits
      obtain ⟨hlow, hhigh⟩ := toInt_clampRange (by omega : 0 ≤ (Word.ofLength buffer.data.length).toInt)
        start stop
      rw [hlength] at hlow hhigh
      simp only [SliceRight, bufferSlice, bytes, Option.map_some, Option.getD_some]
      simp only [clamp] at *
      rw [sliceBetween, hlow, hhigh, if_pos]
      · congr 2
        split_ifs <;> omega
      · split_ifs <;> omega

theorem copyRight (source target : Option Buffer) (offset : Int64) : CopyRight source target offset := by
  by_cases hroom : 0 ≤ offset.toInt ∧ offset.toInt < (bytes target).length
  · cases target with
    | none => exact absurd hroom.2 (not_lt.mpr hroom.1)
    | some target =>
        cases source with
        | none => simp [CopyRight, bufferCopy, bytes, clamp]
        | some source =>
            obtain ⟨hlow, hhigh⟩ := hroom
            simp only [bytes, Option.map_some, Option.getD_some] at hhigh
            have hlength := Word.toInt_ofLength target.fits
            have hguard : ¬(offset < 0 ∨ Word.ofLength target.data.length ≤ offset) := by
              rw [Int64.lt_iff_toInt_lt, Int64.le_iff_toInt_le, hlength]
              exact not_or.mpr ⟨not_lt.mpr hlow, not_le.mpr hhigh⟩
            have hslice : sliceBetween target.data offset (Word.ofLength target.data.length) =
                some (target.data.drop offset.toInt.toNat) := by
              rw [sliceBetween, if_pos (by omega), hlength, List.take_of_length_le]
              rw [List.length_drop]
              omega
            have hcount : min (target.data.length - offset.toInt.toNat) source.data.length =
                (clamp 0 source.data.length (target.data.length - offset.toInt)).toNat := by
              rw [clamp]
              omega
            simp only [CopyRight, bytes, Option.map_some, Option.getD_some]
            rw [bufferCopy, if_neg hguard, hslice, Option.map_some, if_neg (not_lt.mpr hlow)]
            simp only [List.length_drop, List.drop_drop, List.append_assoc, hcount]
  · have hcopy : bufferCopy source target offset = some (0, bytes target) := by
      cases target with
      | none => cases source <;> rfl
      | some target =>
          cases source with
          | none => rfl
          | some source =>
              rw [bufferCopy, if_pos]
              · rfl
              · rw [Int64.lt_iff_toInt_lt, Int64.le_iff_toInt_le, Word.toInt_ofLength target.fits]
                simp only [bytes, Option.map_some, Option.getD_some] at hroom
                change offset.toInt < 0 ∨ _
                omega
    have hcount : (clamp 0 (bytes source).length
        (if offset.toInt < 0 then 0 else (bytes target).length - offset.toInt)).toNat = 0 := by
      rw [clamp]
      split_ifs <;> omega
    rw [CopyRight, hcopy]
    simp only [hcount, List.take_zero, List.append_nil, Nat.add_zero, List.take_append_drop]

/-- The calls do what they are to do exactly where two can be added to the offset of a read or a write, or the
pointer is nil. -/
theorem calls_right_iff (buffer target : Option Buffer) (offset start stop : Int64) (value : UInt16) :
    (ReadRight buffer offset ∧ WriteRight buffer value offset ∧ SliceRight buffer start stop ∧
      CopyRight buffer target offset) ↔ (buffer = none ∨ offset.toInt < 2 ^ 63 - 2) := by
  cases buffer with
  | none =>
      have houtside : Outside none offset := by
        rw [Outside, bytes, Option.map_none, Option.getD_none, List.length_nil]
        omega
      refine iff_of_true ⟨?_, ?_, sliceRight none start stop, copyRight none target offset⟩ (.inl rfl)
      · exact ⟨_, rfl, iff_of_true ⟨_, rfl⟩ houtside⟩
      · refine ⟨_, rfl, iff_of_true ⟨_, rfl⟩ houtside, ?_⟩
        intro written hwritten
        cases hwritten
  | some buffer =>
      have hslice := sliceRight (some buffer) start stop
      have hcopy := copyRight (some buffer) target offset
      rw [readRight_iff, writeRight_iff value]
      constructor
      · exact fun hright => .inr hright.1
      · rintro (hnone | hexact)
        · cases hnone
        · exact ⟨hexact, hexact, hslice, hcopy⟩

/-- A buffer of two bytes. -/
def pair : Buffer := ⟨[0, 0], by decide⟩

/-- A read at the largest offset is no error but a slice out of range. -/
theorem read_wraps :
    ¬∀ (buffer target : Option Buffer) (offset start stop : Int64) (value : UInt16),
      ReadRight buffer offset ∧ WriteRight buffer value offset ∧ SliceRight buffer start stop ∧
        CopyRight buffer target offset := by
  intro hclaim
  obtain ⟨⟨result, hread, -⟩, -⟩ := hclaim (some pair) none Int64.maxValue 0 0 0
  have hpanics : bufferReadUInt16LE (some pair) Int64.maxValue = none := by decide
  rw [hpanics] at hread
  cases hread

end Buffer

end Jayess.Runtime
