import Mathlib.Data.Nat.Digits.Defs
import VoWiFi.Lib.CString

/-!
# Reports to the controller

The ePDG and the IMS server report what they receive and send as a stream of messages (`msg_t`): the
start of a block, an attribute, the end of a block. The sender thread (`sender_run`) writes each of
them as one line.
-/

namespace Report

/-- The two servers that talk to the controller. -/
inductive Server where
  | epdg
  | ims
  deriving DecidableEq, Repr

/-- The `MSG_TYPE_` constants. -/
inductive MsgType where
  | attribute
  | blockStart
  | blockEnd
  deriving DecidableEq, Repr

/-- The byte a line of this type starts with. -/
def MsgType.byte : MsgType → Char
  | .attribute => '\x01'
  | .blockStart => '\x02'
  | .blockEnd => '\x03'

/-- The value of a report. -/
inductive Value where
  | none
  | integer (n : ℤ)
  | uint8 (n : UInt8)
  | uint16 (n : UInt16)
  | string (s : Text)
  deriving DecidableEq, Repr

/-- The fields of a `msg_t`. -/
structure Msg where
  mtype : MsgType
  /-- The initiator's SPI of the session. -/
  ispi : UInt64
  /-- The responder's SPI of the session. -/
  rspi : UInt64
  /-- The name, empty if there is none. -/
  key : Text
  value : Value
  deriving DecidableEq, Repr

/-- A digit as `int_to_char` writes it. -/
def digitByte (rem : ℕ) : Char := if rem ≤ 9 then Char.ofNat (rem + 48) else Char.ofNat (rem + 87)

/-- `int_to_char` for a base above one: as many of the last digits of the number as it has digits
other than zero. -/
def intToChar (num : ℤ) (base : ℕ) : Text :=
  let digits := Nat.digits base num.toNat
  ((digits.take (digits.countP (0 < ·))).map digitByte).reverse

/-- `%.16x`. -/
def hex16 (n : UInt64) : Text := (List.range 16).reverse.map fun i => digitByte (n.toNat / 16 ^ i % 16)

/-- The two SPIs at the start of a line; the IMS server has none and writes zeros. -/
def Server.spis : Server → Msg → Text
  | epdg, m => hex16 m.ispi ++ hex16 m.rspi
  | ims, _ => List.replicate 32 '0'

/-- The number of a value type (the `VAL_TYPE_` constants). -/
def Value.vtype : Value → ℕ
  | none => 1
  | integer _ => 2
  | uint8 _ => 3
  | uint16 _ => 5
  | string _ => 11

/-- The text of a value; the IMS server does not write values of type `uint8`. -/
def Server.valueText : Server → Value → Text
  | _, .none => []
  | _, .integer n => intToChar n 10
  | epdg, .uint8 n => intToChar n.toNat 10
  | ims, .uint8 _ => []
  | _, .uint16 n => intToChar n.toNat 10
  | _, .string s => s

/-- The value has a length above zero. -/
def Value.present : Value → Bool
  | none => false
  | string s => s ≠ []
  | _ => true

/-- The line `sender_run` writes for a report. -/
def Server.line (server : Server) (m : Msg) : Text :=
  m.mtype.byte :: server.spis m ++ m.key ++
    (if m.value.present then
      ':' :: intToChar m.value.vtype 10 ++ ':' :: server.valueText m.value
    else []) ++ ['\n']

def Server.maxQueueLen : Server → ℕ
  | epdg => 10
  | ims => 8

end Report
