import Mathlib.Algebra.Group.Nat.Even
import VoWiFi.Lib.CString

/-!
# Header values of SIP messages

The IMS server takes the value of a header apart into a list of attributes (`init_vlst` and `init_val`
of `sip_controller.c`) and writes it back with `serialize_value`. Both scanners are loops over the bytes
with one flag that says whether the scanner is inside a quoted string; for `init_vlst` angle brackets
set and clear the same flag.

Both loops read the byte behind the end of their text. In `init_val` it is a NUL, since the buffer of
`init_vlst` is cleared after each token; in `init_vlst` it lies behind the allocated copy of the value,
and is taken to be a NUL here as well.
-/

namespace Ims

/-- The fields of a `val_t`. -/
structure Val where
  /-- The name in front of the last `=`, if there is one. -/
  attr : Option Text
  /-- The value; `none` is a null pointer. -/
  val : Option Text
  /-- The separator that ended the token. -/
  delimiter : Option Char
  /-- A space follows. -/
  space : Bool
  deriving DecidableEq, Repr

/-- The loop of `init_val`: the attribute and the value, given the flag, what has been collected since
the last `=`, and the attribute so far. -/
def scanVal : Text → Bool → Text → Option Text → Option Text × Option Text
  | [], inside, t, attr => (attr, if inside then none else some t)
  | c :: cs, inside, t, attr =>
    if !inside && c = '=' then scanVal cs inside [] (some t)
    else scanVal cs (if c = '"' then !inside else inside) (t ++ [c]) attr

def initVal (tok : Text) (delimiter : Option Char) (space : Bool) : Val :=
  let (attr, val) := scanVal tok false [] none
  { attr := attr, val := val, delimiter := delimiter, space := space }

/-- A token of a header value, with what ended it. -/
structure Token where
  text : Text
  delimiter : Option Char
  space : Bool
  deriving DecidableEq, Repr

/-- The flag of `init_vlst` after a byte that ends no token. -/
def nextInside (inside : Bool) (c : Char) : Bool :=
  if c = '<' then true else if c = '>' then false else if c = '"' then !inside else inside

/-- The loop of `init_vlst`, given the flag and the token so far. A token that is still inside at the
end is lost. -/
def scanVlst : Text → Bool → Text → List Token
  | [], inside, q => if inside then [] else [⟨q, none, false⟩]
  | c :: cs, inside, q =>
    if !inside && c = ';' then ⟨q, some ';', false⟩ :: scanVlst cs false []
    else if !inside && c = ' ' then ⟨q, none, true⟩ :: scanVlst cs false []
    else if !inside && c = ',' then
      match cs with
      | [] => ⟨q, some ',', false⟩ :: scanVlst [] false []
      | d :: ds =>
        -- a space right after the comma belongs to it
        if d = ' ' then ⟨q, some ',', true⟩ :: scanVlst ds false []
        else ⟨q, some ',', false⟩ :: scanVlst (d :: ds) false []
    else scanVlst cs (nextInside inside c) (q ++ [c])

/-- The tokens of a header value. -/
def tokens (value : Text) : List Token := scanVlst value false []

def initVlst (value : Text) : List Val :=
  (tokens value).map fun t => initVal t.text t.delimiter t.space

/-- What `serialize_value` writes in front of a value. -/
def attrText : Option Text → Text
  | some attr => attr ++ ['=']
  | none => []

/-- What `serialize_value` writes for one attribute. -/
def Val.serialize (v : Val) : Text :=
  attrText v.attr ++ v.val.getD [] ++ v.delimiter.toList ++ if v.space then [' '] else []

def serializeValue (vlst : List Val) : Text := vlst.flatMap Val.serialize

/-! ## Values that survive -/

/-- The number of `=` in a token that are preceded by an even number of quotes, given whether an odd
number has been seen. -/
def assignments : Bool → Text → ℕ
  | _, [] => 0
  | odd, c :: cs =>
    (if !odd && c = '=' then 1 else 0) + assignments (if c = '"' then !odd else odd) cs

/-- A token that `init_val` keeps whole: its quotes are closed, and it has at most one assignment. -/
def Token.Kept (t : Token) : Prop := Even (t.text.count '"') ∧ assignments false t.text ≤ 1

instance (t : Token) : Decidable t.Kept := inferInstanceAs (Decidable (_ ∧ _))

/-- The scanner of `init_vlst` is outside quotes and brackets at the end. -/
def EndsOutside (value : Text) : Prop := value.foldl nextInside false = false

instance (value : Text) : Decidable (EndsOutside value) := inferInstanceAs (Decidable (_ = _))

/-- A header value that is written back as it was read. -/
def Lossless (value : Text) : Prop := EndsOutside value ∧ ∀ t ∈ tokens value, t.Kept

instance (value : Text) : Decidable (Lossless value) := inferInstanceAs (Decidable (_ ∧ _))

end Ims
