import Mathlib.Data.Nat.Digits.Lemmas
import Mathlib.Tactic.Ring
import VoWiFi.Epdg.Update

/-!
# What a query asks for, and what `char_to_int` makes of a numeral

The name of a query is the name of one response, and asks for nothing in any other one. A number is read
digit by digit: a letter counts 39 too much, so that the number read from a numeral is its value plus 39 times the number
that has a one at the place of each letter. The register keeps the low 32 bits of this, with a sign.
-/

namespace Epdg

variable {radix : Radix} {s : Text} {v : ℕ} {q : Query} {r : Round}

/-! ## A query is for one response -/

theorem eq_of_isQueryName {n : QNode} {a b : Text} (ha : isQueryName n (some a) = true)
    (hb : isQueryName n (some b) = true) : a = b := by
  unfold isQueryName at ha hb
  cases hn : n.name with
  | none =>
    rw [hn] at ha
    cases ha
  | some name =>
    rw [hn] at ha hb
    exact (of_decide_eq_true ha).symm.trans (of_decide_eq_true hb)

theorem responseText_injective :
    ∀ r ∈ generatedRounds, ∀ r' ∈ generatedRounds, r.responseText = r'.responseText → r = r' := by
  decide

theorem askedQuery_of_name (h : isQueryName q.label (some r.responseText) = true) (path : List Text) :
    askedQuery (some q) r path = Query.at? q path := if_pos h

theorem name_of_askedQuery {path : List Text} {t : Query} (h : askedQuery (some q) r path = some t) :
    isQueryName q.label (some r.responseText) = true ∧ Query.at? q path = some t := by
  by_cases hname : isQueryName q.label (some r.responseText) = true
  · exact ⟨hname, (askedQuery_of_name hname path).symm.trans h⟩
  · rw [askedQuery, Option.bind_some, if_neg hname] at h
    cases h

/-- A query for one response asks for nothing in another one. -/
theorem askedQuery_eq_none_of_ne {r' : Round} (hr : r ∈ generatedRounds) (hr' : r' ∈ generatedRounds)
    (hne : r' ≠ r) (h : isQueryName q.label (some r.responseText) = true) (path : List Text) :
    askedQuery (some q) r' path = none := by
  rw [Option.eq_none_iff_forall_ne_some]
  intro t ht
  have htext := eq_of_isQueryName (name_of_askedQuery ht).1 h
  exact hne (responseText_injective r' hr' r hr htext)

/-! ## The register -/

theorem foldl_bmod (base : ℕ) (s : Text) (m : ℤ) :
    s.foldl (fun n c => (n * base + (charValue c - 48)).bmod (2 ^ 32)) (m.bmod (2 ^ 32)) =
      (s.foldl (fun n c => n * base + (charValue c - 48)) m).bmod (2 ^ 32) := by
  induction s generalizing m with
  | nil => rfl
  | cons c s ih =>
    rw [List.foldl_cons, List.foldl_cons, ← ih]
    congr 1
    rw [← Int.bmod_add_bmod, Int.bmod_mul_bmod, Int.bmod_add_bmod]

/-- The register holds the low bits of the exact number. -/
theorem charToInt32_eq (base : ℕ) (s : Text) : charToInt32 base s = (charToInt base s).bmod (2 ^ 32) :=
  foldl_bmod base _ 0

/-! ## Digits -/

/-- One for a letter and zero for a decimal digit. -/
def letterValue (c : Char) : ℕ := if c.isDigit then 0 else 1

/-- The number with a one at the place of each letter. -/
def letters (base : ℕ) (s : Text) : ℕ := Nat.ofDigits base (s.map letterValue).reverse

theorem toNat_of_isDigit {c : Char} (h : c.isDigit = true) : 48 ≤ c.toNat ∧ c.toNat ≤ 57 :=
  Char.isDigit_iff_toNat.1 h

/-- A digit that is not decimal is a letter from `a` to `f`. -/
theorem toNat_of_letter {c : Char} (h : radix.isDigit c = true) (hd : ¬ c.isDigit = true) :
    radix = .hexadecimal ∧ 97 ≤ c.toNat ∧ c.toNat ≤ 102 := by
  cases radix with
  | decimal => exact absurd h hd
  | hexadecimal =>
    simp only [Radix.isDigit, Bool.or_eq_true, Bool.and_eq_true, decide_eq_true_eq] at h
    rcases h with h | ⟨hle, hge⟩
    · exact absurd h hd
    · exact ⟨rfl, hle, hge⟩

theorem charValue_digit {c : Char} (h : radix.isDigit c = true) :
    charValue c - 48 = ((digitValue c + 39 * letterValue c : ℕ) : ℤ) := by
  by_cases hd : c.isDigit = true
  · obtain ⟨hlo, hhi⟩ := toNat_of_isDigit hd
    rw [charValue, digitValue, letterValue, if_pos (by omega), if_pos hd, if_pos hd]
    omega
  · obtain ⟨-, hlo, hhi⟩ := toNat_of_letter h hd
    rw [charValue, digitValue, letterValue, if_pos (by omega), if_neg hd, if_neg hd]
    omega

theorem ne_space_of_isDigit {c : Char} (h : radix.isDigit c = true) : c ≠ ' ' := by
  rintro rfl
  cases radix <;> exact absurd h (by decide)

theorem letterValue_le {c : Char} (h : radix.isDigit c = true) : letterValue c ≤ digitValue c := by
  by_cases hd : c.isDigit = true
  · rw [letterValue, if_pos hd]
    exact Nat.zero_le _
  · obtain ⟨-, hlo, hhi⟩ := toNat_of_letter h hd
    rw [letterValue, digitValue, if_neg hd, if_neg hd]
    omega

/-! ## Sums of digits -/

theorem foldl_eq_ofDigits (base : ℕ) (g : Char → ℕ) (s : Text) :
    s.foldl (fun n c => n * (base : ℤ) + (g c : ℤ)) 0 = (Nat.ofDigits base (s.map g).reverse : ℕ) := by
  induction s using List.reverseRecOn with
  | nil => rfl
  | append_singleton s c ih =>
    rw [List.foldl_append, List.foldl_cons, List.foldl_nil, ih, List.map_append, List.reverse_append]
    simp only [List.map_cons, List.map_nil, List.reverse_cons, List.reverse_nil, List.nil_append,
      List.cons_append, Nat.ofDigits_cons]
    push_cast
    ring

theorem ofDigits_add_mul (base k : ℕ) (f g : Char → ℕ) (s : Text) :
    Nat.ofDigits base (s.map fun c => f c + k * g c) =
      Nat.ofDigits base (s.map f) + k * Nat.ofDigits base (s.map g) := by
  induction s with
  | nil => simp
  | cons c s ih =>
    simp only [List.map_cons, Nat.ofDigits_cons, ih]
    ring

theorem ofDigits_map_le (base : ℕ) {f g : Char → ℕ} (h : ∀ c ∈ s, f c ≤ g c) :
    Nat.ofDigits base (s.map f) ≤ Nat.ofDigits base (s.map g) := by
  induction s with
  | nil => exact le_refl _
  | cons c s ih =>
    rw [List.forall_mem_cons] at h
    simp only [List.map_cons, Nat.ofDigits_cons]
    exact Nat.add_le_add h.1 (Nat.mul_le_mul_left _ (ih h.2))

/-- What is read from digits in any base without the limits of the register. -/
theorem charToInt_eq_ofDigits (base : ℕ) (h : ∀ c ∈ s, radix.isDigit c = true) :
    charToInt base s = ((Nat.ofDigits base (s.map digitValue).reverse + 39 * letters base s : ℕ) : ℤ) := by
  have hspace : s.takeWhile (· ≠ ' ') = s := by
    refine List.takeWhile_eq_self_iff.2 fun c hc => ?_
    exact decide_eq_true (ne_space_of_isDigit (h c hc))
  have hdigits : s.foldl (fun n c => n * (base : ℤ) + (charValue c - 48)) 0 =
      s.foldl (fun n c => n * (base : ℤ) + ((digitValue c + 39 * letterValue c : ℕ) : ℤ)) 0 := by
    refine List.foldl_ext _ _ _ fun n c hc => ?_
    rw [charValue_digit (h c hc)]
  rw [charToInt, hspace, hdigits, foldl_eq_ofDigits, ← List.map_reverse, ofDigits_add_mul,
    List.map_reverse, List.map_reverse, letters]

theorem letters_le_ofDigits (base : ℕ) (h : ∀ c ∈ s, radix.isDigit c = true) :
    letters base s ≤ Nat.ofDigits base (s.map digitValue).reverse := by
  rw [letters, ← List.map_reverse, ← List.map_reverse]
  exact ofDigits_map_le _ fun c hc => letterValue_le (h c (List.mem_reverse.1 hc))

theorem Numeral.charToInt_eq (h : Numeral radix s v) :
    charToInt radix.base s = ((v + 39 * letters radix.base s : ℕ) : ℤ) := by
  rw [charToInt_eq_ofDigits radix.base h.digits, h.value]

theorem Numeral.letters_le (h : Numeral radix s v) : letters radix.base s ≤ v := by
  rw [← h.value]
  exact letters_le_ofDigits radix.base h.digits

/-- There is no letter exactly if the places of the letters add up to zero. -/
theorem ofDigits_letterValue_eq_zero_iff {base : ℕ} (hb : base ≠ 0) (s : Text) :
    Nat.ofDigits base (s.map letterValue) = 0 ↔ ∀ c ∈ s, c.isDigit = true := by
  constructor
  · intro h c hc
    have hzero := Nat.digits_zero_of_eq_zero hb h (letterValue c) (List.mem_map_of_mem hc)
    by_contra hd
    rw [letterValue, if_neg hd] at hzero
    cases hzero
  · intro hall
    have hzero : s.map letterValue = List.replicate s.length 0 := by
      refine List.eq_replicate_iff.2 ⟨List.length_map _, fun d hd => ?_⟩
      obtain ⟨c, hc, rfl⟩ := List.mem_map.1 hd
      exact if_pos (hall c hc)
    rw [hzero, Nat.ofDigits_replicate_zero]

theorem letters_eq_zero_iff {base : ℕ} (hb : base ≠ 0) (s : Text) :
    letters base s = 0 ↔ ∀ c ∈ s, c.isDigit = true := by
  rw [letters, ← List.map_reverse, ofDigits_letterValue_eq_zero_iff hb]
  simp only [List.mem_reverse]

/-- The low 32 bits have no letter in them exactly if the last eight digits are decimal. -/
theorem dvd_letters_iff (s : Text) :
    2 ^ 32 ∣ letters 16 s ↔ ∀ c ∈ s.reverse.take 8, c.isDigit = true := by
  have hsplit : letters 16 s = Nat.ofDigits 16 ((s.reverse.take 8).map letterValue) +
      16 ^ (s.reverse.take 8).length * Nat.ofDigits 16 ((s.reverse.drop 8).map letterValue) := by
    rw [letters, ← List.map_reverse]
    conv_lhs => rw [← List.take_append_drop 8 s.reverse, List.map_append, Nat.ofDigits_append]
    rw [List.length_map]
  have hlow : Nat.ofDigits 16 ((s.reverse.take 8).map letterValue) < 2 ^ 32 := by
    have hdigit : ∀ d ∈ (s.reverse.take 8).map letterValue, d < 16 := by
      intro d hd
      obtain ⟨c, -, rfl⟩ := List.mem_map.1 hd
      rw [letterValue]
      split <;> omega
    refine (Nat.ofDigits_lt_base_pow_length (by omega) hdigit).trans_le ?_
    rw [List.length_map, show (2 : ℕ) ^ 32 = 16 ^ 8 by norm_num]
    exact Nat.pow_le_pow_right (by omega) (List.length_take_le 8 _)
  -- digits before the last eight count multiples of `2 ^ 32`
  have hhigh : 2 ^ 32 ∣ 16 ^ (s.reverse.take 8).length *
      Nat.ofDigits 16 ((s.reverse.drop 8).map letterValue) := by
    by_cases hlen : 8 ≤ s.reverse.length
    · rw [List.length_take, min_eq_left hlen]
      exact Dvd.dvd.mul_right (by norm_num) _
    · rw [List.drop_eq_nil_of_le (by omega)]
      exact dvd_zero _
  rw [hsplit, (Nat.dvd_add_iff_left hhigh).symm, ← ofDigits_letterValue_eq_zero_iff (show (16 : ℕ) ≠ 0 by omega)]
  exact ⟨fun hdvd => Nat.eq_zero_of_dvd_of_lt hdvd hlow, fun hzero => hzero ▸ dvd_zero _⟩

/-! ## Exact numbers -/

/-- The condition on the letters, for either radix. -/
theorem Numeral.dvd_letters_iff (h : Numeral radix s v) :
    2 ^ 32 ∣ letters radix.base s ↔
      (radix = .hexadecimal → ∀ c ∈ s.reverse.take 8, c.isDigit = true) := by
  cases radix with
  | hexadecimal =>
    rw [Radix.base, Epdg.dvd_letters_iff]
    exact ⟨fun hall _ => hall, fun hall => hall rfl⟩
  | decimal =>
    refine iff_of_true ?_ nofun
    rw [Radix.base, (letters_eq_zero_iff (by omega) s).2 h.digits]
    exact dvd_zero _

theorem dvd_mul_letters {n k : ℕ} : 2 ^ k ∣ 39 * n ↔ 2 ^ k ∣ n := by
  have hcop : Nat.Coprime (2 ^ k) 39 := Nat.Coprime.pow_left k (by decide)
  exact ⟨hcop.dvd_of_dvd_mul_left, fun h => h.mul_left 39⟩

/-- The narrow widths only lose the sign. -/
theorem emod_bmod_of_le {k : ℕ} (hk : k ≤ 32) (n : ℕ) :
    ((n : ℤ).bmod (2 ^ 32) % 2 ^ k).toNat = n % 2 ^ k := by
  have hdvd : ((2 ^ k : ℕ) : ℤ) ∣ ((2 ^ 32 : ℕ) : ℤ) := Int.natCast_dvd_natCast.2 (pow_dvd_pow 2 hk)
  have hmod : (n : ℤ).bmod (2 ^ 32) % ((2 ^ k : ℕ) : ℤ) = (n : ℤ) % ((2 ^ k : ℕ) : ℤ) := by
    rw [← Int.emod_emod_of_dvd _ hdvd, Int.bmod_emod, Int.emod_emod_of_dvd _ hdvd]
  rw [show (2 : ℤ) ^ k = ((2 ^ k : ℕ) : ℤ) by push_cast; rfl, hmod, ← Int.natCast_mod, Int.toNat_natCast]

theorem narrow_iff {k l : ℕ} (hk : k ≤ 32) (hv : v < 2 ^ k) (hl : l ≤ v) :
    (((v + 39 * l : ℕ) : ℤ).bmod (2 ^ 32) % 2 ^ k).toNat = v ↔ 2 ^ 32 ∣ l := by
  have hle : 2 ^ k ≤ 2 ^ 32 := Nat.pow_le_pow_right (by omega) hk
  rw [emod_bmod_of_le hk]
  constructor
  · intro h
    have hdvd : 2 ^ k ∣ 39 * l := by
      refine (Nat.modEq_zero_iff_dvd).1 ?_
      refine Nat.ModEq.add_left_cancel' v ?_
      rw [Nat.ModEq, h, Nat.add_zero, Nat.mod_eq_of_lt hv]
    have hzero : l = 0 := Nat.eq_zero_of_dvd_of_lt (dvd_mul_letters.1 hdvd) (by omega)
    rw [hzero]
    exact dvd_zero _
  · intro h
    have hzero : l = 0 := Nat.eq_zero_of_dvd_of_lt h (by omega)
    rw [hzero, Nat.mul_zero, Nat.add_zero, Nat.mod_eq_of_lt hv]

/-- The sign is extended to 64 bits. -/
theorem wide_iff {l : ℕ} (hv : v < 2 ^ 64) :
    (((v + 39 * l : ℕ) : ℤ).bmod (2 ^ 32) % 2 ^ 64).toNat = v ↔
      2 ^ 32 ∣ l ∧ (v < 2 ^ 31 ∨ 2 ^ 64 - 2 ^ 31 ≤ v) := by
  have hdvd : 2 ^ 32 ∣ l ↔ (2 ^ 32 : ℕ) ∣ 39 * l := dvd_mul_letters.symm
  rw [hdvd]
  generalize 39 * l = m
  rw [Int.bmod_def]
  push_cast
  omega

theorem Numeral.charToInt32_exact_iff {w : Width} (h : Numeral radix s v) (hv : v < 2 ^ w.bits) :
    (charToInt32 radix.base s % 2 ^ w.bits).toNat = v ↔ Exact w radix s v := by
  have hexact : Exact w radix s v ↔
      2 ^ 32 ∣ letters radix.base s ∧ (w = .w64 → v < 2 ^ 31 ∨ 2 ^ 64 - 2 ^ 31 ≤ v) := by
    rw [h.dvd_letters_iff]
    exact ⟨fun hex => ⟨hex.letters, hex.extension⟩, fun hex => ⟨hex.1, hex.2⟩⟩
  rw [hexact, charToInt32_eq, h.charToInt_eq]
  cases w with
  | w64 => exact (wide_iff hv).trans (and_congr_right fun _ => ⟨fun hor _ => hor, fun hor => hor rfl⟩)
  | w8 => exact (narrow_iff (k := 8) (by omega) hv h.letters_le).trans (and_iff_left nofun).symm
  | w16 => exact (narrow_iff (k := 16) (by omega) hv h.letters_le).trans (and_iff_left nofun).symm
  | w32 => exact (narrow_iff (k := 32) (by omega) hv h.letters_le).trans (and_iff_left nofun).symm

end Epdg
