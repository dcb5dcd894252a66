import Mathlib.Tactic
import Sequencer.Midi.Message
import Sequencer.Proofs.Midi.Reader

/-! # Quantities in a buffer

A variable-length quantity has the fewest digits that hold its number, and tells by itself where it
ends. Here it is also written the way a device does it, in words: the digits fill a buffer of four
bytes from the lowest on and leave it in reverse. No digit is without a place in the buffer, and
what leaves it is the quantity.
-/

namespace Sequencer.Midi

open Reader

/-- The byte for a digit: at all places but the first, which is the last to be written, it is marked
as one that others follow. -/
def digitAt (place : Nat) (digit : UInt8) : UInt8 :=
  if 0 < place then digit ||| 0x80 else digit

/-- Puts the digits of a number into the buffer from a place on, the lowest first, and tells the
place behind the last of them; none if a digit has no place. -/
def fillBuffer (buffer : Vector UInt8 4) (place : Nat) (value : UInt32) :
    Option (Vector UInt8 4 × Nat) :=
  if value = 0 then some (buffer, place)
  else if h : place < 4 then
    fillBuffer (buffer.set place (digitAt place (value &&& 0x7F).toUInt8)) (place + 1) (value >>> 7)
  else none
termination_by 4 - place

/-- Appends a number to the bytes of `out`, cut to 32 bits once its range has been checked. The
result stands before the bytes as they are left; there is neither if the buffer does not suffice. -/
def writeQuantity (out : List UInt8) (value : UInt64) :
    Option (Except Error Unit × List UInt8) :=
  if greatestQuantity < value.toNat then some (.error (.deltaOutOfRange value.toNat), out)
  else if value.toUInt32 = 0 then some (.ok (), out ++ [0])
  else do
    let (buffer, count) ← fillBuffer (.replicate 4 0) 0 value.toUInt32
    some (.ok (), out ++ (buffer.toList.take count).reverse)

/-- The bytes of a variable-length quantity, and no others. -/
structure QuantityOf (n : Nat) (bytes : List UInt8) : Prop where
  length_bounds : 1 ≤ bytes.length ∧ bytes.length ≤ 4
  fits : n < 128 ^ bytes.length
  fewest : ∀ count, 0 < count → n < 128 ^ count → bytes.length ≤ count
  /-- Bit 7 is set in all bytes but the last. -/
  marked : ∃ front last, bytes = front ++ [last] ∧ (∀ byte ∈ front, 128 ≤ byte) ∧ last < 128
  reads_back : ∀ rest, readQuantity (bytes ++ rest) = some (n, rest)

theorem length_leadingDigits_le {n k : Nat} (h : n < 128 ^ k) : (leadingDigits n).length ≤ k := by
  induction k generalizing n with
  | zero => rw [Nat.lt_one_iff.mp h, leadingDigits]; simp
  | succ k ih =>
    rw [leadingDigits]
    split_ifs
    · exact Nat.zero_le _
    · have hlength := ih (Nat.div_lt_of_lt_mul (by rwa [← Nat.pow_succ']))
      rw [List.length_append, List.length_singleton]
      omega

theorem readDigits_leadingDigits {n limit : Nat} (h : (leadingDigits n).length ≤ limit)
    (bytes : List UInt8) :
    readDigits limit 0 (leadingDigits n ++ bytes) =
      readDigits (limit - (leadingDigits n).length) n bytes := by
  induction n using Nat.strongRecOn generalizing bytes with
  | ind n ih =>
    by_cases hzero : n = 0
    · rw [hzero, leadingDigits]
      rfl
    · have hdigits : leadingDigits n =
          leadingDigits (n / 128) ++ [UInt8.ofNat (n % 128 + 128)] := by
        rw [leadingDigits, if_neg hzero]
      rw [hdigits, List.length_append, List.length_singleton] at h
      obtain ⟨room, hroom⟩ := Nat.exists_eq_add_of_le h
      have hdigit : (UInt8.ofNat (n % 128 + 128)).toNat = n % 128 + 128 :=
        UInt8.toNat_ofNat_of_lt' (by have : UInt8.size = 256 := rfl; omega)
      have hmarked : ¬ UInt8.ofNat (n % 128 + 128) < 128 := by
        rw [UInt8.lt_iff_toNat_lt, hdigit]
        exact not_lt.mpr (Nat.le_add_left _ _)
      have hleft : limit - (leadingDigits (n / 128)).length = room + 1 := by omega
      have hdone : limit - ((leadingDigits (n / 128)).length + 1) = room := by omega
      have hvalue : 128 * (n / 128) + (n % 128 + 128 - 128) = n := by omega
      rw [hdigits, List.append_assoc, ih (n / 128) (by omega) (by omega), hleft,
        List.length_append, List.length_singleton, hdone, List.singleton_append, readDigits,
        if_neg hmarked, hdigit, hvalue]

theorem quantity_eq_ok_iff {n : Nat} {bytes : List UInt8} :
    quantity n = .ok bytes ↔
      n ≤ 0x0FFFFFFF ∧ leadingDigits (n / 128) ++ [UInt8.ofNat (n % 128)] = bytes := by
  rw [quantity, greatestQuantity]
  by_cases h : n ≤ 0x0FFFFFFF <;> simp [h]

theorem readQuantity_quantity {n : Nat} {bytes : List UInt8} (h : quantity n = .ok bytes)
    (rest : List UInt8) : readQuantity (bytes ++ rest) = some (n, rest) := by
  obtain ⟨hn, rfl⟩ := quantity_eq_ok_iff.mp h
  have hlength : (leadingDigits (n / 128)).length ≤ 3 := length_leadingDigits_le (by omega)
  obtain ⟨room, hroom⟩ : ∃ room, 4 - (leadingDigits (n / 128)).length = room + 1 :=
    ⟨3 - (leadingDigits (n / 128)).length, by omega⟩
  have hdigit : (UInt8.ofNat (n % 128)).toNat = n % 128 :=
    UInt8.toNat_ofNat_of_lt' (by have : UInt8.size = 256 := rfl; omega)
  have hlast : UInt8.ofNat (n % 128) < 128 := by
    rw [UInt8.lt_iff_toNat_lt, hdigit]
    exact Nat.mod_lt n (by decide)
  rw [readQuantity, List.append_assoc, readDigits_leadingDigits (by omega), hroom,
    List.singleton_append, readDigits, if_pos hlast, hdigit, Nat.div_add_mod]

example : readQuantity [0x81, 0x02, 0x40] = some (130, [0x40]) := by decide

theorem quantity_of_lt {n : Nat} (h : n < 128) : quantity n = .ok [UInt8.ofNat n] := by
  have hzero : n / 128 = 0 := Nat.div_eq_of_lt h
  rw [quantity, if_pos (by rw [greatestQuantity]; omega), hzero, leadingDigits, if_pos rfl,
    Nat.mod_eq_of_lt h]
  rfl

theorem leadingDigits_of_ne_zero {n : Nat} (h : n ≠ 0) :
    leadingDigits n = leadingDigits (n / 128) ++ [UInt8.ofNat (n % 128 + 128)] := by
  rw [leadingDigits, if_neg h]

theorem lt_pow_length_leadingDigits (n : Nat) : n < 128 ^ (leadingDigits n).length := by
  induction n using Nat.strongRecOn with
  | ind n ih =>
    rw [leadingDigits]
    split_ifs with h
    · simp [h]
    · have := ih (n / 128) (by omega)
      rw [List.length_append, List.length_singleton, Nat.pow_succ]
      omega

theorem le_of_mem_leadingDigits {n : Nat} {byte : UInt8} (h : byte ∈ leadingDigits n) :
    128 ≤ byte := by
  induction n using Nat.strongRecOn with
  | ind n ih =>
    rw [leadingDigits] at h
    split_ifs at h with hn
    · cases h
    · rcases List.mem_append.mp h with h | h
      · exact ih (n / 128) (by omega) h
      · rw [List.mem_singleton.mp h, UInt8.le_iff_toNat_le, UInt8.toNat_ofNat']
        change 128 ≤ _
        omega

theorem quantityOf_digits {n : Nat} (h : n ≤ 0x0FFFFFFF) :
    QuantityOf n (leadingDigits (n / 128) ++ [UInt8.ofNat (n % 128)]) where
  length_bounds := by
    have := length_leadingDigits_le (show n / 128 < 128 ^ 3 by omega)
    rw [List.length_append, List.length_singleton]
    omega
  fits := by
    have := lt_pow_length_leadingDigits (n / 128)
    rw [List.length_append, List.length_singleton, Nat.pow_succ]
    omega
  fewest count hcount hn := by
    obtain ⟨k, rfl⟩ := Nat.exists_eq_add_one.mpr hcount
    rw [List.length_append, List.length_singleton]
    have := length_leadingDigits_le (Nat.div_lt_of_lt_mul (by rwa [← Nat.pow_succ']))
    omega
  marked := by
    refine ⟨_, _, rfl, fun byte => le_of_mem_leadingDigits, ?_⟩
    rw [UInt8.lt_iff_toNat_lt, UInt8.toNat_ofNat']
    change _ < 128
    omega
  reads_back := readQuantity_quantity (quantity_eq_ok_iff.mpr ⟨h, rfl⟩)

/-- Neither of two quantities goes on where the other one ends. -/
theorem quantity_prefix_free {m n : Nat} {bytes others : List UInt8}
    (hm : quantity m = .ok bytes) (hn : quantity n = .ok others) (hle : bytes <+: others) :
    m = n ∧ bytes = others := by
  obtain ⟨rest, rfl⟩ := hle
  have hread := readQuantity_quantity hn []
  rw [List.append_nil, readQuantity_quantity hm rest, Option.some.injEq, Prod.mk.injEq] at hread
  exact ⟨hread.1, by rw [hread.2, List.append_nil]⟩

theorem lowDigit_toNat (value : UInt32) : (value &&& 0x7F).toUInt8.toNat = value.toNat % 128 := by
  rw [UInt32.toNat_toUInt8, UInt32.toNat_and]
  have hmask : value.toNat &&& 127 = value.toNat % 128 :=
    Nat.and_two_pow_sub_one_eq_mod value.toNat 7
  change (value.toNat &&& 127) % 2 ^ 8 = _
  omega

theorem lowDigit_eq (value : UInt32) :
    (value &&& 0x7F).toUInt8 = UInt8.ofNat (value.toNat % 128) := by
  apply UInt8.toNat_inj.mp
  rw [lowDigit_toNat, UInt8.toNat_ofNat']
  omega

theorem lowDigit_marked (value : UInt32) :
    (value &&& 0x7F).toUInt8 ||| 0x80 = UInt8.ofNat (value.toNat % 128 + 128) := by
  have hmarked : value.toNat % 128 ||| 128 = 128 + value.toNat % 128 := by
    rw [Nat.or_comm]
    exact (Nat.two_pow_add_eq_or_of_lt (i := 7) (by omega) 1).symm
  apply UInt8.toNat_inj.mp
  rw [UInt8.toNat_or, lowDigit_toNat, UInt8.toNat_ofNat']
  change value.toNat % 128 ||| 128 = _
  omega

theorem shift_toNat (value : UInt32) : (value >>> 7).toNat = value.toNat / 128 := by
  rw [UInt32.toNat_shiftRight]
  exact Nat.shiftRight_eq_div_pow _ 7

theorem take_set_succ (buffer : Vector UInt8 4) {place : Nat} (h : place < 4) (byte : UInt8) :
    (buffer.set place byte).toList.take (place + 1) = buffer.toList.take place ++ [byte] := by
  have hlength : place < buffer.toList.length := by simpa using h
  rw [Vector.toList_set, List.take_add_one, List.take_set_of_le le_rfl,
    List.getElem?_set_self hlength]
  rfl

/-- Behind the first digit the buffer takes the digits that are marked. -/
theorem fillBuffer_eq {buffer : Vector UInt8 4} {place : Nat} {value : UInt32}
    (hplace : 0 < place) (hfits : value.toNat < 128 ^ (4 - place)) :
    ∃ filled count, fillBuffer buffer place value = some (filled, count) ∧
      (filled.toList.take count).reverse =
        leadingDigits value.toNat ++ (buffer.toList.take place).reverse := by
  fun_induction fillBuffer buffer place value with
  | case1 buffer place => exact ⟨buffer, place, rfl, by simp [leadingDigits]⟩
  | case2 buffer place value hvalue hroom ih =>
    have hpos : value.toNat ≠ 0 := fun h => hvalue (UInt32.toNat_inj.mp h)
    have hnext : (value >>> 7).toNat < 128 ^ (4 - (place + 1)) := by
      rw [shift_toNat]
      apply Nat.div_lt_of_lt_mul
      rwa [← Nat.pow_succ', show (4 - (place + 1)).succ = 4 - place by omega]
    obtain ⟨filled, count, hfill, htake⟩ := ih (Nat.succ_pos _) hnext
    refine ⟨filled, count, hfill, ?_⟩
    rw [htake, take_set_succ, digitAt, if_pos hplace, lowDigit_marked, shift_toNat,
      leadingDigits_of_ne_zero hpos]
    simp
  | case3 buffer place value hvalue hroom =>
    rw [show 4 - place = 0 by omega] at hfits
    exact absurd (UInt32.toNat_inj.mp (Nat.lt_one_iff.mp hfits)) hvalue

/-- From its first place on the buffer takes all digits of a number that has four at most. -/
theorem fillBuffer_quantity {value : UInt32} (hvalue : value ≠ 0)
    (hfits : value.toNat ≤ 0x0FFFFFFF) :
    ∃ filled count, fillBuffer (.replicate 4 0) 0 value = some (filled, count) ∧
      (filled.toList.take count).reverse =
        leadingDigits (value.toNat / 128) ++ [UInt8.ofNat (value.toNat % 128)] := by
  have hnext : (value >>> 7).toNat < 128 ^ (4 - 1) := by
    rw [shift_toNat]
    omega
  rw [fillBuffer, if_neg hvalue, dif_pos (by decide)]
  obtain ⟨filled, count, hfill, htake⟩ := fillBuffer_eq (Nat.succ_pos 0) hnext
  refine ⟨filled, count, hfill, ?_⟩
  rw [htake, take_set_succ, digitAt, if_neg (lt_irrefl 0), lowDigit_eq, shift_toNat]
  rfl

theorem toUInt32_toNat {value : UInt64} (h : value.toNat ≤ 0x0FFFFFFF) :
    value.toUInt32.toNat = value.toNat := by
  rw [UInt64.toNat_toUInt32]
  omega

theorem writeQuantity_of_le (out : List UInt8) {value : UInt64}
    (h : value.toNat ≤ 0x0FFFFFFF) :
    writeQuantity out value =
      some (.ok (), out ++ (leadingDigits (value.toNat / 128) ++
        [UInt8.ofNat (value.toNat % 128)])) := by
  rw [writeQuantity, if_neg (by rw [greatestQuantity]; omega)]
  by_cases hzero : value.toUInt32 = 0
  · have hvalue : value.toNat = 0 := by rw [← toUInt32_toNat h, hzero]; rfl
    rw [if_pos hzero, hvalue, leadingDigits, if_pos rfl]
    rfl
  · obtain ⟨filled, count, hfill, htake⟩ :=
      fillBuffer_quantity hzero ((toUInt32_toNat h).trans_le h)
    rw [if_neg hzero, hfill]
    simp only [Option.bind_eq_bind, Option.bind_some, htake, toUInt32_toNat h]

/-- Within the range a number is written as its quantity, in one to four bytes that delimit
themselves, and no quantity is a part of another one from its front; beyond the range it is refused
before it is cut, and nothing is written. The buffer suffices in any case. -/
theorem quantity_exact (out : List UInt8) (value : UInt64) :
    (value.toNat ≤ 0x0FFFFFFF → ∃ bytes, quantity value.toNat = .ok bytes ∧
      writeQuantity out value = some (.ok (), out ++ bytes) ∧ QuantityOf value.toNat bytes ∧
      value.toUInt32.toNat = value.toNat ∧
      ∀ (n : Nat) (others : List UInt8), quantity n = .ok others → bytes <+: others →
        value.toNat = n ∧ bytes = others) ∧
    (0x0FFFFFFF < value.toNat →
      quantity value.toNat = .error (.deltaOutOfRange value.toNat) ∧
      writeQuantity out value = some (.error (.deltaOutOfRange value.toNat), out)) := by
  constructor
  · intro h
    have hquantity := quantity_eq_ok_iff.mpr ⟨h, rfl⟩
    exact ⟨_, hquantity, writeQuantity_of_le out h, quantityOf_digits h,
      toUInt32_toNat h, fun n others => quantity_prefix_free hquantity⟩
  · intro h
    exact ⟨if_neg (not_le.mpr h), if_pos h⟩

/-- A number of three digits, and one that would be left with two if it were cut unchecked. -/
theorem quantity_exact_bounds :
    writeQuantity [0x40] 16384 = some (.ok (), [0x40, 0x81, 0x80, 0x00]) ∧
      readQuantity [0x81, 0x80, 0x00, 0x90] = some (16384, [0x90]) ∧
      (4294967424 : UInt64).toUInt32 = 128 ∧
      writeQuantity [0x40] 4294967424 = some (.error (.deltaOutOfRange 4294967424), [0x40]) := by
  have hquantity : quantity 16384 = .ok [0x81, 0x80, 0x00] := by cbv
  obtain ⟨bytes, hbytes, hwrite, hof, -⟩ := (quantity_exact [0x40] 16384).1 (by decide)
  obtain rfl : [0x81, 0x80, 0x00] = bytes := Except.ok.inj (hquantity.symm.trans hbytes)
  exact ⟨hwrite, hof.reads_back [0x90], by decide,
    ((quantity_exact [0x40] 4294967424).2 (by decide)).2⟩

end Sequencer.Midi
