import VoWiFi.Lib.JavaString
import VoWiFi.Lib.PyString

/-!
# Extracting keys from the log

`key_extractor.py` follows the log of the ePDG. Once a second `main` calls `extract_keys` with the number
of lines that it has seen, and `extract_keys` goes through the lines behind them: it prints the SPIs of an
IKE SA, the keys that the log has as hexadecimal dumps of several lines, and the SPIs of ESP SAs. What it
has read of a dump is kept in local variables.

A log is a list of lines. A printed text is taken with the line feed behind it.
-/

namespace Scripts

/-- The local variables of `extract_keys`; `none` is a variable that has not been assigned. -/
structure Scan where
  extractIsakmpKeys : Bool
  extractEspKeys : Bool
  displayEspKeys : Bool
  key : Option Text
  nbytes : Option ℤ
  deriving DecidableEq, Repr

def Scan.start : Scan := ⟨false, false, false, none, none⟩

/-- The first of the texts, in the order of the tests, that a line has in it. -/
inductive LineKind where
  | spi
  | secret
  | initiatorKey
  | responderKey
  | espSa
  | other
  deriving DecidableEq, Repr

def LineKind.phrases : LineKind → List Text
  | spi => ["Initiator SPI".toList, "Responder SPI".toList]
  | secret => ["Sk_ai secret".toList, "Sk_ar secret".toList, "Sk_ei secret".toList, "Sk_er secret".toList]
  | initiatorKey => ["encryption initiator key".toList]
  | responderKey => ["encryption responder key".toList]
  | espSa => ["adding inbound ESP SA".toList, "adding outbound ESP SA".toList]
  | other => []

def lineKind (line : Text) : LineKind :=
  ([LineKind.spi, .secret, .initiatorKey, .responderKey, .espSa].find? fun kind =>
    kind.phrases.any (Text.contains line)).getD .other

/-! ## Parts of a line -/

/-- An element of a list, by its index. -/
def item (i : ℕ) (parts : List Text) : Except PyError Text :=
  match parts[i]? with
  | some part => .ok part
  | none => .error .indexError

/-- A variable that must have been assigned. -/
def bound {α : Type} : Option α → Except PyError α
  | some v => .ok v
  | none => .error .unboundLocalError

/-- The hexadecimal digits of a line of a dump. -/
def dumpDigits (line : Text) : Except PyError Text := do
  let t ← item 1 (Text.pySplit "]".toList (Text.pyStrip line))
  let t ← item 1 (Text.pySplit ":".toList (Text.pyStrip t))
  let t ← item 0 (Text.pySplit "  ".toList (Text.pyStrip t))
  return (Text.pySplit " ".toList (Text.pyStrip t)).flatten

/-- What follows the tag of a line. -/
def afterTag (line : Text) : Except PyError Text := item 1 (Text.pySplit "] ".toList (Text.pyStrip line))

/-- The name and the digits of an SPI. -/
def spiParts (line : Text) : Except PyError (Text × Text) := do
  let t ← afterTag line
  match Text.pySplit ": ".toList t with
  | [key, tmp] => return (key, tmp)
  | _ => .error .valueError

/-- The name of a key. -/
def ktype (line : Text) : Except PyError Text := do
  let t ← afterTag line
  let t ← item 0 (Text.pySplit "=>".toList (Text.pyStrip t))
  return Text.pyStrip t

/-- The number of bytes of a key. -/
def keyBytes (line : Text) : Except PyError ℤ := do
  let t ← item 1 (Text.pySplit "=>".toList (Text.pyStrip line))
  let t ← item 0 (Text.pySplit "bytes".toList (Text.pyStrip t))
  match Text.pyInt (Text.pyStrip t) with
  | some n => return n
  | none => .error .valueError

/-- The bytes of an SPI from the last to the first, given the digits from the last to the first. A digit
that is left over is lost, unless it is the only one. -/
def swapFrom (alone : Bool) : Text → Text
  | [] => []
  | [c] => if alone then [c] else []
  | d :: c :: rest => c :: d :: swapFrom false rest

def swapBytes (tmp : Text) : Text := swapFrom true tmp.reverse

/-! ## The scan -/

/-- The key and the bytes that are left after a line of a dump. -/
def Scan.dump (s : Scan) (line : Text) : Except PyError (Text × ℤ) := do
  let digits ← dumpDigits line
  let key ← bound s.key
  let nbytes ← bound s.nbytes
  return (key ++ digits, nbytes - 16)

/-- The separator between a name and a value. -/
def colon : Text := ": ".toList

/-- What `print` writes. -/
def printed (s : Text) : Text := s ++ ['\n']

/-- The body of the loop: the variables after a line, and what is printed. -/
def Scan.line (s : Scan) (line : Text) : Except PyError (Scan × Text) :=
  if s.extractIsakmpKeys then do
    let (key, nbytes) ← s.dump line
    let s := { s with key := some key, nbytes := some nbytes }
    if nbytes ≤ 0 then return ({ s with extractIsakmpKeys := false }, printed key) else return (s, [])
  else if lineKind line = .spi then do
    let (key, tmp) ← spiParts line
    return ({ s with key := some key }, printed (key ++ colon ++ swapBytes tmp))
  else if lineKind line = .secret then do
    let name ← ktype line
    let nbytes ← keyBytes line
    return ({ s with extractIsakmpKeys := true, key := some (name ++ colon), nbytes := some nbytes }, [])
  else if s.extractEspKeys then do
    let (key, nbytes) ← s.dump line
    let s := { s with key := some key, nbytes := some nbytes }
    if nbytes ≤ 0 then return ({ s with extractEspKeys := false }, printed key) else return (s, [])
  else if lineKind line = .initiatorKey then do
    let name ← ktype line
    let nbytes ← keyBytes line
    return ({ s with extractEspKeys := true, key := some (name ++ colon), nbytes := some nbytes }, [])
  else if lineKind line = .responderKey then do
    let name ← ktype line
    let nbytes ← keyBytes line
    let key ← bound s.key
    return ({ s with
      extractEspKeys := true, key := some (key ++ '\n' :: name ++ colon), nbytes := some nbytes }, [])
  else if s.displayEspKeys then do
    let spi ← afterTag line
    return ({ s with displayEspKeys := false }, printed (Text.pyStrip spi))
  else if lineKind line = .espSa then do
    let name ← afterTag line
    return ({ s with displayEspKeys := true }, printed (Text.pyStrip name))
  else .ok (s, [])

/-- The loop: what is printed, and the variables or the exception at the end. -/
def scan (s : Scan) : List Text → Text × Except PyError Scan
  | [] => ([], .ok s)
  | line :: lines =>
    match s.line line with
    | .error e => ([], .error e)
    | .ok (s', out) => (out ++ (scan s' lines).1, (scan s' lines).2)

/-- What is printed, and the number of lines or the exception. -/
structure Outcome where
  output : Text
  result : Except PyError ℕ

/-- The end of a call that has gone through its lines. -/
def Outcome.of (file : List Text) (r : Text × Except PyError Scan) : Outcome :=
  ⟨r.1, r.2.map fun _ => file.length⟩

/-- A call, and another one if the first has returned. -/
def Outcome.andThen (o : Outcome) (next : ℕ → Outcome) : Outcome :=
  match o.result with
  | .error e => ⟨o.output, .error e⟩
  | .ok n => ⟨o.output ++ (next n).output, (next n).result⟩

def extractKeys (file : List Text) (lastLine : ℕ) : Outcome :=
  let first := Outcome.of file (scan .start (file.drop lastLine))
  -- a file that has been truncated is read from its beginning
  if file.length < lastLine then first.andThen fun _ => .of file (scan .start file) else first

/-- The loop of `main`, with the file as it is after the last call and the lines that are added before each
of the next ones. -/
def follow (file : List Text) (lastLine : ℕ) : List (List Text) → Outcome
  | [] => ⟨[], .ok lastLine⟩
  | added :: more =>
    (extractKeys (file ++ added) lastLine).andThen fun n => follow (file ++ added) n more

end Scripts
