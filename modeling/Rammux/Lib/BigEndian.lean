import Mathlib

/-!
# Numbers in big-endian bytes

A number is written as a fixed count of bytes, the most significant one first (`beBytes`), and read
back from them (`ofBe`). Writing and reading are inverse to each other on the numbers that fit.
-/

namespace Rammux.Lib

/-- The lowest `k` bytes of a number, the most significant one first. -/
def beBytes : ℕ → ℕ → List UInt8
  | 0, _ => []
  | k + 1, n => UInt8.ofNat (n / 256^k) :: beBytes k n

/-- The number that some bytes spell. -/
def ofBe : List UInt8 → ℕ
  | [] => 0
  | b :: bs => b.toNat * 256^bs.length + ofBe bs

/-- A number is written with as many bytes as asked for. -/
@[simp] theorem length_beBytes (k n : ℕ) : (beBytes k n).length = k := by
  induction k with
  | zero => rfl
  | succ k ih => rw [beBytes, List.length_cons, ih]

/-- What some bytes stand for is bounded by their number. -/
theorem ofBe_lt (bs : List UInt8) : ofBe bs < 256^bs.length := by
  induction bs with
  | nil => exact Nat.one_pos
  | cons b bs ih =>
    have hb : b.toNat + 1 ≤ 256 := b.toNat_lt
    calc ofBe (b :: bs) < b.toNat * 256^bs.length + 256^bs.length := Nat.add_lt_add_left ih _
      _ = (b.toNat + 1) * 256^bs.length := by ring
      _ ≤ 256 * 256^bs.length := Nat.mul_le_mul_right _ hb
      _ = 256^(b :: bs).length := by rw [List.length_cons, pow_succ, mul_comm]

/-- The bytes only depend on the number modulo what they can hold. -/
theorem beBytes_add_mul (k n m : ℕ) : beBytes k (n + 256^k * m) = beBytes k n := by
  induction k generalizing m with
  | zero => rfl
  | succ k ih =>
    have hhead : UInt8.ofNat ((n + 256^(k + 1) * m) / 256^k) = UInt8.ofNat (n / 256^k) := by
      rw [pow_succ, mul_assoc, Nat.add_mul_div_left _ _ (Nat.pow_pos (by norm_num))]
      exact UInt8.ofNat_eq_iff_mod_eq_toNat _ _ |>.mpr (by simp)
    have htail : beBytes k (n + 256^(k + 1) * m) = beBytes k n := by
      rw [pow_succ, mul_assoc]
      exact ih (256 * m)
    rw [beBytes, beBytes, hhead, htail]

/-- A number that fits is read back. -/
theorem ofBe_beBytes (k n : ℕ) : ofBe (beBytes k n) = n % 256^k := by
  induction k with
  | zero => rw [beBytes, ofBe, pow_zero, Nat.mod_one]
  | succ k ih =>
    have hsplit : n % (256^k * 256) = n % 256^k + 256^k * (n / 256^k % 256) := Nat.mod_mul
    rw [beBytes, ofBe, ih, length_beBytes, UInt8.toNat_ofNat', pow_succ 256 k, hsplit, mul_comm,
      add_comm]

/-- Bytes are what the number they spell is written as. -/
theorem beBytes_ofBe (bs : List UInt8) : beBytes bs.length (ofBe bs) = bs := by
  induction bs with
  | nil => rfl
  | cons b bs ih =>
    have hpos : 0 < 256^bs.length := Nat.pow_pos (by norm_num)
    have hhead : ofBe (b :: bs) / 256^bs.length = b.toNat := by
      rw [ofBe, mul_comm, Nat.mul_add_div hpos, Nat.div_eq_of_lt (ofBe_lt bs), add_zero]
    have htail : beBytes bs.length (ofBe (b :: bs)) = bs := by
      rw [ofBe, mul_comm, add_comm, beBytes_add_mul, ih]
    rw [List.length_cons, beBytes, hhead, htail, UInt8.ofNat_toNat]

/-! ## Two and four bytes -/

/-- A 16-bit number as bytes. -/
def be16 (n : UInt16) : List UInt8 := beBytes 2 n.toNat

/-- A 32-bit number as bytes. -/
def be32 (n : UInt32) : List UInt8 := beBytes 4 n.toNat

/-- The 16-bit number that bytes spell. -/
def ofBe16 (bs : List UInt8) : UInt16 := UInt16.ofNat (ofBe bs)

/-- The 32-bit number that bytes spell. -/
def ofBe32 (bs : List UInt8) : UInt32 := UInt32.ofNat (ofBe bs)

/-- A `u16` takes two bytes. -/
@[simp] theorem length_be16 (n : UInt16) : (be16 n).length = 2 := length_beBytes 2 _

/-- A `u32` takes four bytes. -/
@[simp] theorem length_be32 (n : UInt32) : (be32 n).length = 4 := length_beBytes 4 _

/-- A `u16` is read as it was written. -/
@[simp] theorem ofBe16_be16 (n : UInt16) : ofBe16 (be16 n) = n := by
  have hlt : n.toNat < 256^2 := n.toNat_lt
  rw [ofBe16, be16, ofBe_beBytes, Nat.mod_eq_of_lt hlt, UInt16.ofNat_toNat]

/-- A `u32` is read as it was written. -/
@[simp] theorem ofBe32_be32 (n : UInt32) : ofBe32 (be32 n) = n := by
  have hlt : n.toNat < 256^4 := n.toNat_lt
  rw [ofBe32, be32, ofBe_beBytes, Nat.mod_eq_of_lt hlt, UInt32.ofNat_toNat]

/-- Two bytes are written as they were read. -/
theorem be16_ofBe16 {bs : List UInt8} (h : bs.length = 2) : be16 (ofBe16 bs) = bs := by
  have hlt : ofBe bs < 2^16 := (ofBe_lt bs).trans_eq (by rw [h]; norm_num)
  rw [be16, ofBe16, UInt16.toNat_ofNat_of_lt' hlt, ← h, beBytes_ofBe]

/-- Four bytes are written as they were read. -/
theorem be32_ofBe32 {bs : List UInt8} (h : bs.length = 4) : be32 (ofBe32 bs) = bs := by
  have hlt : ofBe bs < 2^32 := (ofBe_lt bs).trans_eq (by rw [h]; norm_num)
  rw [be32, ofBe32, UInt32.toNat_ofNat_of_lt' hlt, ← h, beBytes_ofBe]

end Rammux.Lib
