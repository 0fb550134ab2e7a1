import Mathlib.Data.Nat.Digits.Defs
import VoWiFi.Epdg.Response

/-!
# Reading an update out of a query

The functions of `ike_sa_instance.c` that change a message look for a node of the current query by the
name of the message and a path of names, compare its operator and its value type, and turn its value
into a number or a text. They all read numbers with `char_to_int`, in a signed integer of 32 bits that
is converted to the type of the field afterwards.
-/

namespace Epdg

/-- The ways in which the code that changes a message does not come to its end. -/
inductive Stop where
  | nullPointer
  /-- A pointer is used that has never been set. -/
  | unsetPointer
  /-- The code of a character is used as a pointer. -/
  | wildPointer
  | outOfBounds
  /-- A pointer is used into memory that has been moved. -/
  | danglingPointer
  /-- A loop is still running. -/
  | running
  deriving DecidableEq, Repr

/-! ## Value types -/

inductive Width where
  | w8
  | w16
  | w32
  | w64
  deriving DecidableEq, Repr

def Width.bits : Width → ℕ
  | w8 => 8
  | w16 => 16
  | w32 => 32
  | w64 => 64

inductive Radix where
  | decimal
  | hexadecimal
  deriving DecidableEq, Repr

def Radix.base : Radix → ℕ
  | decimal => 10
  | hexadecimal => 16

/-- `VAL_TYPE_UINT8` up to `VAL_TYPE_UINT64`, and the same with an `H`. -/
def valTypeUint : Width → Radix → ℤ
  | .w8, .decimal => 3
  | .w8, .hexadecimal => 4
  | .w16, .decimal => 5
  | .w16, .hexadecimal => 6
  | .w32, .decimal => 7
  | .w32, .hexadecimal => 8
  | .w64, .decimal => 9
  | .w64, .hexadecimal => 10

def valTypeString : ℤ := 11

/-! ## Nodes and values -/

/-- `get_query`, `is_query_name` and `get_sub_query_by_name` one after another: the node at the end of a
path in the query for a response. -/
def askedQuery (query : Option Query) (r : Round) (path : List Text) : Option Query :=
  query.bind fun q =>
    if isQueryName q.label (some r.responseText) then Query.at? q path else none

/-- `get_query_value`, with a null pointer and length zero as the empty text. -/
def QNode.text (n : QNode) : Text := n.value.getD []

/-- `char_to_int` for a given base, in the `int` it computes with. -/
def charToInt32 (base : ℕ) (s : Text) : ℤ :=
  (s.takeWhile (· ≠ ' ')).foldl (fun n c => (n * base + (charValue c - 48)).bmod (2 ^ 32)) 0

/-- The number of an update with this value type. -/
def QNode.number? (n : QNode) (w : Width) (radix : Radix) : Option ℤ :=
  if n.vtype = valTypeUint w radix ∧ n.op = .update then some (charToInt32 radix.base n.text) else none

/-- The text of an update with a string. -/
def QNode.string? (n : QNode) : Option Text :=
  if n.vtype = valTypeString ∧ n.op = .update then some n.text else none

/-- The bytes of a text. -/
def bytesOf (s : Text) : Chunk := s.map fun c => UInt8.ofNat c.toNat

/-! ## Numerals -/

/-- What a digit is worth, letters included. -/
def digitValue (c : Char) : ℕ := if c.isDigit then c.toNat - 48 else c.toNat - 87

/-- The digits of a numeral. -/
def Radix.isDigit : Radix → Char → Bool
  | decimal, c => c.isDigit
  | hexadecimal, c => c.isDigit || ('a' ≤ c && c ≤ 'f')

/-- The text is a numeral with value `v`; leading zeros are allowed. -/
structure Numeral (radix : Radix) (s : Text) (v : ℕ) : Prop where
  digits : ∀ c ∈ s, radix.isDigit c = true
  value : Nat.ofDigits radix.base (s.map digitValue).reverse = v

instance (radix : Radix) (s : Text) (v : ℕ) : Decidable (Numeral radix s v) :=
  decidable_of_iff (s.all radix.isDigit = true ∧
      Nat.ofDigits radix.base (s.map digitValue).reverse = v)
    ⟨fun h => ⟨List.all_eq_true.1 h.1, h.2⟩, fun h => ⟨List.all_eq_true.2 h.1, h.2⟩⟩

/-- The number read from a numeral is its value once it is stored in a field of this width: there is no
letter among the last eight digits, and for 64 bits the value is one that the sign extension of 32 bits
can give. -/
structure Exact (w : Width) (radix : Radix) (s : Text) (v : ℕ) : Prop where
  letters : radix = .hexadecimal → ∀ c ∈ s.reverse.take 8, c.isDigit = true
  extension : w = .w64 → v < 2 ^ 31 ∨ 2 ^ 64 - 2 ^ 31 ≤ v

end Epdg
