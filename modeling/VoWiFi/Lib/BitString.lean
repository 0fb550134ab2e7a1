import Mathlib.Algebra.Order.Ring.Nat
import Mathlib.Data.List.Induction
import Mathlib.Tactic.Common

/-!
# Bytes as strings of bits

A writer of single bits and a reader of single bits keep a byte that is not complete. What they have done is
said with the string of all bits, the most significant bit of each byte first. Numbers of several bytes have
the most significant byte first.
-/

namespace BitString

/-- The bits of a byte, the most significant one first. -/
def ofByte (b : UInt8) : List Bool := (List.range 8).map b.toBitVec.getMsbD

/-- The bits of a list of bytes. -/
def ofBytes (l : List UInt8) : List Bool := l.flatMap ofByte

/-- The byte with a single one, at bit `i` from the most significant one. -/
def mask (i : ℕ) : UInt8 := ⟨BitVec.twoPow 8 (7 - i)⟩

@[simp] theorem length_ofByte (b : UInt8) : (ofByte b).length = 8 := by
  rw [ofByte, List.length_map, List.length_range]

@[simp] theorem ofBytes_nil : ofBytes [] = [] := rfl

@[simp] theorem ofBytes_cons (b : UInt8) (l : List UInt8) :
    ofBytes (b :: l) = ofByte b ++ ofBytes l := List.flatMap_cons

@[simp] theorem ofBytes_append (l₁ l₂ : List UInt8) :
    ofBytes (l₁ ++ l₂) = ofBytes l₁ ++ ofBytes l₂ := List.flatMap_append

@[simp] theorem length_ofBytes (l : List UInt8) : (ofBytes l).length = 8 * l.length := by
  induction l with
  | nil => rfl
  | cons b l ih =>
    rw [ofBytes_cons, List.length_append, length_ofByte, ih, List.length_cons]
    omega

theorem getElem?_ofByte (b : UInt8) {i : ℕ} (hi : i < 8) :
    (ofByte b)[i]? = some (b.toBitVec.getMsbD i) := by
  rw [ofByte, List.getElem?_map, List.getElem?_range hi, Option.map_some]

theorem ofByte_injective : Function.Injective ofByte := by
  intro a b h
  refine UInt8.toBitVec_inj.1 (BitVec.eq_of_getMsbD_eq fun i hi => ?_)
  have hget := congrArg (·[i]?) h
  simp only [getElem?_ofByte _ hi, Option.some.injEq] at hget
  exact hget

/-- Bytes can be read off their bits. -/
theorem ofBytes_append_inj {l₁ l₂ : List UInt8} {s₁ s₂ : List Bool} (hlen : l₁.length = l₂.length)
    (h : ofBytes l₁ ++ s₁ = ofBytes l₂ ++ s₂) : l₁ = l₂ ∧ s₁ = s₂ := by
  have hparts := List.append_inj h (by rw [length_ofBytes, length_ofBytes, hlen])
  refine ⟨?_, hparts.2⟩
  obtain ⟨hbits, -⟩ := hparts
  clear h
  induction l₁ generalizing l₂ with
  | nil => exact (List.length_eq_zero_iff.1 hlen.symm).symm
  | cons b l₁ ih =>
    cases l₂ with
    | nil => cases hlen
    | cons c l₂ =>
      rw [ofBytes_cons, ofBytes_cons] at hbits
      have hfirst := List.append_inj hbits (by rw [length_ofByte, length_ofByte])
      rw [ofByte_injective hfirst.1, ih (Nat.succ.inj hlen) hfirst.2]

theorem ofBytes_injective : Function.Injective ofBytes := by
  intro l₁ l₂ h
  have hlen : l₁.length = l₂.length := by
    have := congrArg List.length h
    rw [length_ofBytes, length_ofBytes] at this
    omega
  exact (ofBytes_append_inj hlen (congrArg (· ++ []) h)).1

/-- The bits of a byte from a position on begin with the bit at it. -/
theorem drop_ofByte (b : UInt8) {i : ℕ} (hi : i < 8) :
    (ofByte b).drop i = b.toBitVec.getMsbD i :: (ofByte b).drop (i + 1) := by
  have hlt : i < (ofByte b).length := by rwa [length_ofByte]
  have hget := getElem?_ofByte b hi
  rw [List.getElem?_eq_getElem hlt, Option.some.injEq] at hget
  rw [List.drop_eq_getElem_cons hlt, hget]

theorem take_succ_ofByte (b : UInt8) {i : ℕ} (hi : i < 8) :
    (ofByte b).take (i + 1) = (ofByte b).take i ++ [b.toBitVec.getMsbD i] := by
  rw [List.take_add_one, getElem?_ofByte b hi, Option.toList_some]

/-- Two bytes agree in front of a bit. -/
theorem take_ofByte_congr {a b : UInt8} {n : ℕ} (hn : n ≤ 8)
    (h : ∀ i < n, a.toBitVec.getMsbD i = b.toBitVec.getMsbD i) :
    (ofByte a).take n = (ofByte b).take n := by
  induction n with
  | zero => rfl
  | succ n ih =>
    rw [take_succ_ofByte a hn, take_succ_ofByte b hn, h n (Nat.lt_succ_self n),
      ih (Nat.le_of_succ_le hn) fun i hi => h i (Nat.lt_succ_of_lt hi)]

theorem getMsbD_mask {i j : ℕ} (hi : i < 8) :
    (mask i).toBitVec.getMsbD j = decide (i = j) := by
  rw [mask, BitVec.getMsbD_twoPow, decide_eq_true (by omega : 7 - i < 8), Bool.true_and,
    decide_eq_decide]
  omega

/-- A bit is set if the byte and its mask have a one in common. -/
theorem and_mask_ne_zero (b : UInt8) {i : ℕ} (hi : i < 8) :
    (b &&& mask i ≠ 0) ↔ b.toBitVec.getMsbD i = true := by
  constructor
  · intro h
    by_contra hbit
    refine h (UInt8.toBitVec_inj.1 (BitVec.eq_of_getMsbD_eq fun j hj => ?_))
    rw [UInt8.toBitVec_and, BitVec.getMsbD_and, getMsbD_mask hi, UInt8.toBitVec_zero,
      BitVec.getMsbD_zero]
    by_cases hij : i = j
    · rw [← hij, Bool.eq_false_iff.2 hbit, Bool.false_and]
    · rw [decide_eq_false hij, Bool.and_false]
  · intro h hzero
    have hbit := congrArg (fun c : UInt8 => c.toBitVec.getMsbD i) hzero
    simp [UInt8.toBitVec_and, BitVec.getMsbD_and, getMsbD_mask hi, h] at hbit

/-! ## Numbers -/

/-- A number in `n` bytes. -/
def beBytes : ℕ → ℕ → List UInt8
  | 0, _ => []
  | n + 1, v => beBytes n (v / 256) ++ [UInt8.ofNat v]

/-- The number in a list of bytes. -/
def beValue (l : List UInt8) : ℕ := l.foldl (fun v b => 256 * v + b.toNat) 0

@[simp] theorem length_beBytes (n v : ℕ) : (beBytes n v).length = n := by
  induction n generalizing v with
  | zero => rfl
  | succ n ih => rw [beBytes, List.length_append, ih, List.length_singleton]

theorem beValue_append_singleton (l : List UInt8) (b : UInt8) :
    beValue (l ++ [b]) = 256 * beValue l + b.toNat := List.foldl_append

theorem beValue_beBytes {n v : ℕ} (h : v < 256 ^ n) : beValue (beBytes n v) = v := by
  induction n generalizing v with
  | zero => exact (Nat.lt_one_iff.1 h).symm
  | succ n ih =>
    have hdiv : v / 256 < 256 ^ n := Nat.div_lt_of_lt_mul (by rwa [← Nat.pow_succ'])
    rw [beBytes, beValue_append_singleton, ih hdiv, UInt8.toNat_ofNat']
    exact Nat.div_add_mod v 256

theorem beValue_lt (l : List UInt8) : beValue l < 256 ^ l.length := by
  induction l using List.reverseRecOn with
  | nil => exact Nat.one_pos
  | append_singleton l b ih =>
    rw [beValue_append_singleton, List.length_append, List.length_singleton, Nat.pow_succ]
    have hb := b.toNat_lt
    omega

theorem beBytes_beValue (l : List UInt8) : beBytes l.length (beValue l) = l := by
  induction l using List.reverseRecOn with
  | nil => rfl
  | append_singleton l b ih =>
    have hb := b.toNat_lt
    have hdiv : (256 * beValue l + b.toNat) / 256 = beValue l := by omega
    have hlast : UInt8.ofNat (256 * beValue l + b.toNat) = b := by
      rw [← UInt8.toNat_inj, UInt8.toNat_ofNat']
      omega
    rw [beValue_append_singleton, List.length_append, List.length_singleton, beBytes, hdiv, ih, hlast]

theorem getMsbD_ofNat (v : ℕ) {i : ℕ} (hi : i < 8) :
    (UInt8.ofNat v).toBitVec.getMsbD i = v.testBit (7 - i) := by
  rw [show (UInt8.ofNat v).toBitVec = BitVec.ofNat 8 v from rfl, BitVec.getMsbD_eq_getLsbD,
    BitVec.getLsbD_ofNat, decide_eq_true hi, decide_eq_true (by omega), Bool.true_and, Bool.true_and]

theorem ofByte_ofNat (v : ℕ) : ofByte (UInt8.ofNat v) = (List.range 8).map fun i => v.testBit (7 - i) :=
  List.map_congr_left fun _ hi => getMsbD_ofNat v (List.mem_range.1 hi)

/-- The bits of a number of several bytes. -/
theorem ofBytes_beBytes (n v : ℕ) :
    ofBytes (beBytes n v) = (List.range (8 * n)).map fun i => v.testBit (8 * n - 1 - i) := by
  induction n generalizing v with
  | zero => rfl
  | succ n ih =>
    rw [beBytes, ofBytes_append, ih, ofBytes_cons, ofBytes_nil, List.append_nil, ofByte_ofNat,
      Nat.mul_succ, List.range_add, List.map_append, List.map_map]
    congr 1
    · refine List.map_congr_left fun i hi => ?_
      rw [List.mem_range] at hi
      rw [show (256 : ℕ) = 2 ^ 8 from rfl, Nat.testBit_div_two_pow]
      congr 1
      omega
    · refine List.map_congr_left fun i hi => ?_
      rw [List.mem_range] at hi
      show _ = v.testBit (8 * n + 8 - 1 - (8 * n + i))
      congr 1
      omega

end BitString
