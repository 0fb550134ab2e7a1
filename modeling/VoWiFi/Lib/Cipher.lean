import Mathlib.Data.Nat.Notation
import Mathlib.Tactic.Common

/-!
# Ciphers, signatures and padding

A cipher and a signature function with their keys set. Either of them can fail, but what a cipher has encrypted
it decrypts. Padding fills a text up to a multiple of the block size, with the number of the bytes in front of
it as its last byte.
-/

/-- A cipher that works on multiples of a block. -/
structure Crypter where
  blockSize : ℕ
  ivSize : ℕ
  encrypt : List UInt8 → List UInt8 → Option (List UInt8)
  decrypt : List UInt8 → List UInt8 → Option (List UInt8)
  blockSize_pos : 0 < blockSize
  length_encrypt : ∀ {iv plain crypt}, encrypt iv plain = some crypt → crypt.length = plain.length
  decrypt_encrypt : ∀ {iv plain crypt}, encrypt iv plain = some crypt → decrypt iv crypt = some plain

/-- A function for signatures of a fixed size. -/
structure Signer where
  size : ℕ
  sign : List UInt8 → Option (List UInt8)
  length_sign : ∀ {data sig}, sign data = some sig → sig.length = size

namespace Padding

/-- The number of bytes of the padding, at least one. -/
def size (blockSize length : ℕ) : ℕ := blockSize - length % blockSize

theorem size_pos {blockSize : ℕ} (h : 0 < blockSize) (length : ℕ) : 0 < size blockSize length :=
  Nat.sub_pos_of_lt (Nat.mod_lt _ h)

theorem size_le (blockSize length : ℕ) : size blockSize length ≤ blockSize := Nat.sub_le _ _

theorem add_size_mod {blockSize : ℕ} (h : 0 < blockSize) (length : ℕ) :
    (length + size blockSize length) % blockSize = 0 := by
  have hlt := Nat.mod_lt length h
  have hdiv := Nat.div_add_mod length blockSize
  have heq : length + size blockSize length = blockSize * (length / blockSize + 1) := by
    rw [size, Nat.mul_add, Nat.mul_one]
    omega
  rw [heq, Nat.mul_mod_right]

/-- The padding fills up to the next multiple only. -/
theorem add_size_le {blockSize length n : ℕ} (hpos : 0 < blockSize) (hn : n % blockSize = 0) (h : length < n) :
    length + size blockSize length ≤ n := by
  have hlt := Nat.mod_lt length hpos
  have hdiv := Nat.div_add_mod length blockSize
  have hdivn := Nat.div_add_mod n blockSize
  have hquot : length / blockSize + 1 ≤ n / blockSize := by
    refine Nat.div_lt_of_lt_mul ?_
    omega
  have hmul := Nat.mul_le_mul_left blockSize hquot
  rw [Nat.mul_add, Nat.mul_one] at hmul
  rw [size]
  omega

/-- The padding: some bytes and their number. -/
def bytes (fill : List UInt8) : List UInt8 := fill ++ [UInt8.ofNat fill.length]

theorem length_bytes (fill : List UInt8) : (bytes fill).length = fill.length + 1 := by
  rw [bytes, List.length_append, List.length_singleton]

/-- Take the padding off. -/
def strip (padded : List UInt8) : Option (List UInt8) :=
  match padded.getLast? with
  | none => none
  | some n => if n.toNat + 1 > padded.length then none else some (padded.take (padded.length - (n.toNat + 1)))

theorem strip_append_bytes (plain : List UInt8) {fill : List UInt8} (h : fill.length < 256) :
    strip (plain ++ bytes fill) = some plain := by
  have hlast : (plain ++ bytes fill).getLast? = some (UInt8.ofNat fill.length) := by
    rw [bytes, ← List.append_assoc, List.getLast?_concat]
  have hn : (UInt8.ofNat fill.length).toNat = fill.length := by
    rw [UInt8.toNat_ofNat', Nat.mod_eq_of_lt h]
  rw [strip, hlast]
  dsimp only
  rw [hn, List.length_append, length_bytes, if_neg (by omega), Nat.add_sub_cancel, List.take_left]

end Padding
