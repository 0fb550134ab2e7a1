import VoWiFi.Scripts.KeyExtractor

/-!
# The log of the ePDG

A log as the ePDG writes it: lines with an SPI, dumps of keys, the two lines for an ESP SA, and other
lines in any order. An entry is what belongs together. A poll may come between any two lines.
-/

namespace Scripts

/-- A key with its header line and the lines of its dump, sixteen bytes on each but the last. -/
structure Dump where
  header : Text
  body : List Text
  name : Text
  nbytes : ℤ
  header_name : ktype header = .ok name
  header_bytes : keyBytes header = .ok nbytes
  body_digits : ∀ line ∈ body, ∃ digits, dumpDigits line = .ok digits
  body_other : ∀ line ∈ body, lineKind line = .other
  body_long : nbytes ≤ 16 * body.length
  body_short : 16 * (body.length : ℤ) < nbytes + 16
  body_ne : body ≠ []

/-- The digits of a line of a dump. -/
def digitsOf (line : Text) : Text :=
  match dumpDigits line with
  | .ok digits => digits
  | .error _ => []

/-- The name of the key and its digits. -/
def Dump.text (d : Dump) : Text := d.name ++ colon ++ d.body.flatMap digitsOf

/-- An entry of the log. -/
inductive Entry where
  | other (line : Text) (kind : lineKind line = .other)
  | spi (line name digits : Text) (kind : lineKind line = .spi) (parts : spiParts line = .ok (name, digits))
  | secret (d : Dump) (kind : lineKind d.header = .secret)
  | initiatorKey (d : Dump) (kind : lineKind d.header = .initiatorKey)
  | responderKey (d : Dump) (kind : lineKind d.header = .responderKey)
  | espSa (line next name spi : Text) (kind : lineKind line = .espSa) (next_kind : lineKind next = .other)
    (parts : afterTag line = .ok name) (next_parts : afterTag next = .ok spi)

def Entry.lines : Entry → List Text
  | other line _ => [line]
  | spi line _ _ _ _ => [line]
  | secret d _ => d.header :: d.body
  | initiatorKey d _ => d.header :: d.body
  | responderKey d _ => d.header :: d.body
  | espSa line next _ _ _ _ _ _ => [line, next]

/-- The variable `key` is assigned. -/
def Entry.assignsKey : Entry → Bool
  | other _ _ => false
  | espSa _ _ _ _ _ _ _ _ => false
  | _ => true

/-- The variable `key` is read first. -/
def Entry.readsKey : Entry → Bool
  | responderKey _ _ => true
  | _ => false

/-- The variable `key` has been assigned whenever it is read, given whether it is at the beginning. -/
def Keyed : Bool → List Entry → Prop
  | _, [] => True
  | assigned, e :: es => (e.readsKey = true → assigned = true) ∧ Keyed (assigned || e.assignsKey) es

/-- A log in which a key stands before the first key of a responder, so that all of it can be read at
once. -/
structure KeyLog where
  entries : List Entry
  keyed : Keyed false entries

def KeyLog.lines (log : KeyLog) : List Text := log.entries.flatMap Entry.lines

/-- The polls come between entries, and each of them finds the key that a responder's key is added to. -/
def CutBetween (log : KeyLog) (added : List (List Text)) : Prop :=
  ∃ groups : List (List Entry), groups.flatten = log.entries ∧
    added = groups.map (·.flatMap Entry.lines) ∧ ∀ g ∈ groups, Keyed false g

end Scripts
