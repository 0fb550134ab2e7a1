import VoWiFi.Epdg.Update
import VoWiFi.Report.Codec

/-!
# Numbers as text

Both servers have their own copy of `int_to_char` and `char_to_int`. The first counts the digits in one
loop and writes them from the last to the first in another. The second reads them from the first to the
last.
-/

namespace Report

/-- A base from 2 to 16. -/
structure Base where
  val : ℕ
  two_le : 2 ≤ val
  le_sixteen : val ≤ 16

/-- The first loop of `int_to_char`: a digit counts only if it is not zero. -/
def countLoop (base : Base) (tmp ret : ℕ) : ℕ :=
  if h : 0 < tmp then
    countLoop base (tmp / base.val) (if 0 < tmp % base.val then ret + 1 else ret)
  else ret
termination_by tmp
decreasing_by exact Nat.div_lt_self h base.two_le

/-- The second loop of `int_to_char` with `k` digits left to write, the ones behind them already
written. -/
def writeLoop (base : Base) : (k tmp : ℕ) → (written : Text) → Text
  | 0, _, written => written
  | k + 1, tmp, written => writeLoop base k (tmp / base.val) (digitByte (tmp % base.val) :: written)

/-- `int_to_char`, which has the same text in both servers: what is written into the buffer, and the
length that is returned. -/
def Server.intToChar (_server : Server) (num : ℤ) (base : Base) : Text × ℕ :=
  -- a negative number passes neither loop
  let ret := countLoop base num.toNat 0
  (writeLoop base ret num.toNat [], ret)

/-- `char_to_int` for a text and its length. Only the ePDG has the base zero, for which it looks for `0x`
and then reads as many characters behind it as the text has with it. -/
def Server.charToInt (server : Server) (str : Text) (base : ℕ) : Except Fault ℤ :=
  if str = [] then .ok 0
  else if server = .epdg ∧ base = 0 then
    match str with
    | ['0'] => .error .overread
    | '0' :: 'x' :: rest =>
      if ' ' ∈ rest then .ok (Epdg.charToInt32 16 rest) else .error .overread
    | _ => .ok (Epdg.charToInt32 10 str)
  else .ok (Epdg.charToInt32 base str)

/-- The number is written as its numeral and read back from it. -/
structure Server.Codec (server : Server) (base : Base) (n : ℕ) : Prop where
  numeral : (server.intToChar n base).1 = Nat.toDigits base.val n
  length : (server.intToChar n base).2 = (Nat.toDigits base.val n).length
  read : server.charToInt (server.intToChar n base).1 base.val = .ok (n : ℤ)

/-- The digits of the number are from one to nine. -/
def PlainDigits (base : Base) (n : ℕ) : Prop := n ≠ 0 ∧ ∀ d ∈ Nat.digits base.val n, d ≠ 0 ∧ d ≤ 9

end Report
