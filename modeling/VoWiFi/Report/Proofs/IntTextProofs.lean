import VoWiFi.Epdg.Proofs.UpdateProofs
import VoWiFi.Report.IntText
import VoWiFi.Report.Proofs.CodecProofs

/-!
# Which numbers survive as text

The two loops of `int_to_char` come to `intToChar`: as many of the last digits as the number has digits
other than zero. What `char_to_int` reads is 39 too much at the place of each letter.
-/

namespace Report

variable {server : Server} {base : Base} {n : ℕ}

/-! ## Writing -/

theorem countLoop_eq (base : Base) (tmp ret : ℕ) :
    countLoop base tmp ret = ret + (Nat.digits base.val tmp).countP (0 < ·) := by
  induction tmp using Nat.strong_induction_on generalizing ret with
  | _ tmp ih =>
    rw [countLoop]
    by_cases hpos : 0 < tmp
    · rw [dif_pos hpos, ih _ (Nat.div_lt_self hpos base.two_le), Nat.digits_def' base.two_le hpos,
        List.countP_cons]
      by_cases hrem : 0 < tmp % base.val
      · rw [if_pos hrem, if_pos (decide_eq_true hrem)]
        omega
      · rw [if_neg hrem, if_neg (by simpa using hrem)]
        omega
    · have hzero : tmp = 0 := by omega
      rw [dif_neg hpos, hzero, Nat.digits_zero, List.countP_nil, Nat.add_zero]

/-- There are always enough digits left for the second loop. -/
theorem writeLoop_eq (base : Base) {k tmp : ℕ} (hk : k ≤ (Nat.digits base.val tmp).length) (written : Text) :
    writeLoop base k tmp written =
      (((Nat.digits base.val tmp).take k).map digitByte).reverse ++ written := by
  induction k generalizing tmp written with
  | zero => rfl
  | succ k ih =>
    have hpos : 0 < tmp := by
      by_contra hzero
      rw [Nat.eq_zero_of_not_pos hzero, Nat.digits_zero] at hk
      exact absurd hk (Nat.not_succ_le_zero k)
    rw [Nat.digits_def' base.two_le hpos] at hk ⊢
    rw [writeLoop, ih (Nat.le_of_succ_le_succ hk), List.take_succ_cons, List.map_cons, List.reverse_cons,
      List.append_assoc]
    rfl

theorem intToChar_text (server : Server) (num : ℤ) (base : Base) :
    (server.intToChar num base).1 = intToChar num base.val := by
  rw [Server.intToChar]
  simp only
  rw [countLoop_eq, Nat.zero_add, writeLoop_eq base List.countP_le_length, List.append_nil, intToChar]

theorem intToChar_ret (server : Server) (num : ℤ) (base : Base) :
    (server.intToChar num base).2 = (server.intToChar num base).1.length := by
  rw [intToChar_text, intToChar, Server.intToChar]
  simp only
  rw [countLoop_eq, Nat.zero_add, List.length_reverse, List.length_map, List.length_take,
    Nat.min_eq_left List.countP_le_length]

/-! ## Reading -/

theorem charToInt_of_base (server : Server) (s : Text) (base : Base) :
    server.charToInt s base.val = .ok (Epdg.charToInt32 base.val s) := by
  have hb := base.two_le
  unfold Server.charToInt
  split
  · next hnil =>
    rw [hnil]
    rfl
  · rw [if_neg]
    rintro ⟨-, hzero⟩
    omega

theorem hex_isDigit_digitByte {d : ℕ} (hd : d < 16) :
    Epdg.Radix.hexadecimal.isDigit (digitByte d) = true := by
  interval_cases d <;> rfl

theorem digitValue_digitByte {d : ℕ} (hd : d < 16) : Epdg.digitValue (digitByte d) = d := by
  interval_cases d <;> rfl

theorem isDigit_digitByte_iff {d : ℕ} (hd : d < 16) : (digitByte d).isDigit = true ↔ d ≤ 9 := by
  interval_cases d <;> decide

/-- A number below `2 ^ 31` comes out of the register if and only if nothing is added to it. -/
theorem bmod_add_eq_iff {m : ℕ} (hn : n < 2 ^ 31) :
    ((n + m : ℕ) : ℤ).bmod (2 ^ 32) = n ↔ 2 ^ 32 ∣ m := by
  rw [Int.bmod_def]
  push_cast
  omega

/-- A full numeral is read back exactly if it has no letter. -/
theorem charToInt32_numeral_iff (base : Base) (hpos : n ≠ 0) (hn : n < 2 ^ 31) :
    Epdg.charToInt32 base.val (Nat.toDigits base.val n) = n ↔ ∀ d ∈ Nat.digits base.val n, d ≤ 9 := by
  have hb := base.two_le
  have hlt : ∀ d ∈ Nat.digits base.val n, d < 16 := by
    intro d hd
    exact (Nat.digits_lt_base hb hd).trans_le base.le_sixteen
  rw [toDigits_eq_digits hb base.le_sixteen hpos]
  have hhex : ∀ c ∈ ((Nat.digits base.val n).map digitByte).reverse,
      Epdg.Radix.hexadecimal.isDigit c = true := by
    intro c hc
    obtain ⟨d, hd, rfl⟩ := List.mem_map.1 (List.mem_reverse.1 hc)
    exact hex_isDigit_digitByte (hlt d hd)
  have hvalue : Nat.ofDigits base.val
      ((((Nat.digits base.val n).map digitByte).reverse).map Epdg.digitValue).reverse = n := by
    have hmap : ((Nat.digits base.val n).map digitByte).map Epdg.digitValue = Nat.digits base.val n := by
      rw [List.map_map]
      exact (List.map_congr_left fun d hd => digitValue_digitByte (hlt d hd)).trans (List.map_id _)
    rw [List.map_reverse, List.reverse_reverse, hmap, Nat.ofDigits_digits]
  have hle := Epdg.letters_le_ofDigits base.val hhex
  rw [hvalue] at hle
  rw [Epdg.charToInt32_eq, Epdg.charToInt_eq_ofDigits base.val hhex, hvalue, bmod_add_eq_iff hn,
    Epdg.dvd_mul_letters]
  -- the places of the letters add up to less than the number, so that they are zero
  have hzero : 2 ^ 32 ∣ Epdg.letters base.val ((Nat.digits base.val n).map digitByte).reverse ↔
      Epdg.letters base.val ((Nat.digits base.val n).map digitByte).reverse = 0 :=
    ⟨fun hdvd => Nat.eq_zero_of_dvd_of_lt hdvd (by omega), fun h => h ▸ dvd_zero _⟩
  rw [hzero, Epdg.letters_eq_zero_iff (by omega)]
  constructor
  · intro h d hd
    exact (isDigit_digitByte_iff (hlt d hd)).1 (h _ (List.mem_reverse.2 (List.mem_map_of_mem hd)))
  · intro h c hc
    obtain ⟨d, hd, rfl⟩ := List.mem_map.1 (List.mem_reverse.1 hc)
    exact (isDigit_digitByte_iff (hlt d hd)).2 (h d hd)

/-! ## Both ways -/

theorem codec_iff (server : Server) (base : Base) (hn : n < 2 ^ 31) :
    server.Codec base n ↔ PlainDigits base n := by
  have hnumeral : (server.intToChar n base).1 = Nat.toDigits base.val n ↔
      n ≠ 0 ∧ 0 ∉ Nat.digits base.val n := by
    rw [intToChar_text, intToChar_eq_numeral_iff base.two_le base.le_sixteen]
  constructor
  · intro h
    obtain ⟨hpos, hzero⟩ := hnumeral.1 h.numeral
    have hread := h.read
    rw [h.numeral, charToInt_of_base] at hread
    have hplain := (charToInt32_numeral_iff base hpos hn).1 (Except.ok.inj hread)
    exact ⟨hpos, fun d hd => ⟨fun h0 => hzero (h0 ▸ hd), hplain d hd⟩⟩
  · rintro ⟨hpos, hplain⟩
    have htext := hnumeral.2 ⟨hpos, fun hzero => (hplain 0 hzero).1 rfl⟩
    refine ⟨htext, by rw [intToChar_ret, htext], ?_⟩
    rw [htext, charToInt_of_base, (charToInt32_numeral_iff base hpos hn).2 fun d hd => (hplain d hd).2]

/-- The copies of the two servers agree. A number is written as its numeral, with its length returned, and
read back exactly if its digits are from one to nine: a zero is not counted, so that leading digits are
lost, and a letter is read as 39 more than it stands for. -/
theorem int_text_codec (base : Base) (hn : n < 2 ^ 31) :
    (∀ num : ℤ, Server.epdg.intToChar num base = Server.ims.intToChar num base) ∧
      (∀ s : Text, Server.epdg.charToInt s base.val = Server.ims.charToInt s base.val) ∧
      ((∀ server : Server, server.Codec base n) ↔ PlainDigits base n) := by
  refine ⟨fun _ => rfl, fun s => ?_, fun h => ?_, fun h server => ?_⟩
  · rw [charToInt_of_base, charToInt_of_base]
  · exact (codec_iff .epdg base hn).1 (h .epdg)
  · exact (codec_iff server base hn).2 h

def base10 : Base := ⟨10, by decide, by decide⟩

def base16 : Base := ⟨16, by decide, by decide⟩

theorem int_text_codec_57 : (57 : ℕ) < 2 ^ 31 ∧
    (∀ s : Text, Server.epdg.charToInt s base10.val = Server.ims.charToInt s base10.val) ∧
    ∀ server : Server, server.Codec base10 57 := by
  have h := int_text_codec base10 (n := 57) (by norm_num)
  exact ⟨by norm_num, h.2.1, h.2.2.2 ⟨by norm_num, by norm_num [base10]⟩⟩

/-- Nothing is written for zero, `0` for ten, and the hexadecimal numeral `a` is read as 49. -/
theorem int_text_lost :
    Server.ims.intToChar 0 base10 = ([], 0) ∧ Server.ims.intToChar 10 base10 = (['0'], 1) ∧
      Server.ims.intToChar 10 base16 = (['a'], 1) ∧ Server.ims.charToInt ['a'] 16 = .ok 49 ∧
      ∀ server : Server, ¬ server.Codec base10 0 ∧ ¬ server.Codec base10 10 ∧ ¬ server.Codec base16 10 := by
  refine ⟨by simp [Server.intToChar, countLoop, writeLoop], ?_, ?_, by decide, fun server => ⟨?_, ?_, ?_⟩⟩
  · simp [Server.intToChar, countLoop, writeLoop, base10]
    decide
  · simp [Server.intToChar, countLoop, writeLoop, base16]
    decide
  · rw [codec_iff server base10 (by norm_num)]
    exact fun h => h.1 rfl
  · rw [codec_iff server base10 (by norm_num)]
    exact fun h => (h.2 0 (by norm_num [base10])).1 rfl
  · rw [codec_iff server base16 (by norm_num)]
    exact fun h => absurd (h.2 10 (by norm_num [base16])).2 (by norm_num)

end Report
