import Mathlib.Data.List.Dedup
import Mathlib.Logic.Function.Basic
import VoWiFi.Lib.JsonReader
import VoWiFi.Lib.PyString
import VoWiFi.Scripts.Generate

/-!
# Reading property files

The constructor of `Testcases` (`testcases.py`) goes through the lines of a property file. It notes the
names, and the values of the attributes that are written with `VALUE`; for these lines it puts a value, and
the lines are joined to a JSON text. `update_values` later looks the attributes up by their names.

A set of Python is a list without duplicates here. Nothing is assumed about the order in which a set is
gone through: the first element of one is given by a `Picker`.
-/

namespace Scripts

/-! ## Messages -/

def Message.text : Message → Text
  | ikeSaInitResponse => "ike_sa_init_response".toList
  | ikeAuth1Response => "ike_auth_1_response".toList
  | ikeAuth2Response => "ike_auth_2_response".toList
  | ikeAuth3Response => "ike_auth_3_response".toList
  | unauthorized401 => "401_unauthorized".toList
  | ok200 => "200_ok".toList

/-- The messages that a property file may be for. Testcases are filed for the responses only. -/
inductive PropertyMessage where
  | enableVowifi
  | response (m : Message)
  deriving DecidableEq, Repr

def PropertyMessage.text : PropertyMessage → Text
  | enableVowifi => "enable_vowifi".toList
  | response m => m.text

def PropertyMessage.response? : PropertyMessage → Option Message
  | enableVowifi => none
  | response m => some m

def PropertyMessage.all : List PropertyMessage :=
  [.enableVowifi, .response .ikeSaInitResponse, .response .ikeAuth1Response, .response .ikeAuth2Response,
    .response .ikeAuth3Response, .response .unauthorized401, .response .ok200]

/-- The message of a name, if the name is in the list of messages. -/
def PropertyMessage.ofName (name : Text) : Option PropertyMessage := all.find? (·.text = name)

/-! ## Parts of a line -/

/-- The text without a quotation mark at either end. -/
def unquote (s : Text) : Except PyError Text := do
  let c ← bound? s.head?
  let s := if c = '"' then s.tail else s
  let c ← bound? s.getLast?
  return if c = '"' then s.dropLast else s
where
  /-- The first or the last character, by its index. -/
  bound? : Option Char → Except PyError Char
    | some c => .ok c
    | none => .error .indexError

/-- What stands behind the only colon of a line. -/
def afterColon (line : Text) : Except PyError Text :=
  match Text.pySplit [':'] line with
  | [_, s] => .ok s
  | _ => .error .valueError

/-- The name on a line that has `name` in it. -/
def readName (line : Text) : Except PyError Text := do
  let target ← afterColon line
  let target := Text.pyStrip target
  match target.getLast? with
  | none => .error .indexError
  | some c => unquote (Text.pyStrip (if c = ',' then target.dropLast else target))

/-- The text between the first occurrences of two characters. -/
def between (left right : Char) (s : Text) : Except PyError Text :=
  if left ∈ s ∧ right ∈ s then .ok ((s.take (s.idxOf right)).drop (s.idxOf left + 1))
  else .error .valueError

def readPossible (v : Text) : Except PyError Value :=
  match Text.pyInt v with
  | some n => .ok (.int n)
  | none => do return .str (← unquote (Text.pyStrip v))

/-- A correct value that is not a number is kept as it stands, with what is around it. -/
def readCorrect (v : Text) : Value :=
  match Text.pyInt v with
  | some n => .int n
  | none => .str v

/-- The values of an attribute of which only `VALUE` is said. -/
def anyValues : List Value :=
  [.str "min".toList, .str "median".toList, .str "max".toList, .str "mean".toList, .str "random".toList]

/-- The correct values in what is behind the possible ones. -/
def readCorrects (tmp : Text) : Except PyError (List Value) :=
  if tmp = [] then .ok []
  else do
    let cvals ← between '[' ']' tmp
    return (Text.pySplit [','] cvals).map readCorrect

/-- The possible and the correct values behind the colon of a line that has `VALUE` in it. -/
def readValues (values : Text) : Except PyError (List Value × List Value) :=
  if '(' ∈ values then do
    let args ← between '(' ')' values
    let pvals ← between '[' ']' args
    let possible ← (Text.pySplit [','] pvals).mapM readPossible
    let correct ← readCorrects (Text.pyStrip (args.drop (args.idxOf ']' + 1)))
    return (possible.dedup, correct.dedup)
  else .ok (anyValues, [])

/-! ## Lines -/

/-- How the first element of a set is found. -/
structure Picker where
  first : List Value → Value
  mem : ∀ vs, vs ≠ [] → first vs ∈ vs

/-- What the constructor has gathered. -/
structure PropertyReader where
  js : Text
  target : Option Text
  names : List Text
  targets : List (Option Text)
  possibleValues : Option Text → Option (List Value)
  correctValues : Option Text → Option (List Value)

namespace PropertyReader

def start : PropertyReader := ⟨[], none, [], [], fun _ => none, fun _ => none⟩

/-- The beginning of a line that is put in the place of one with `VALUE`. -/
def valueKey : Text := "\"value\": ".toList

/-- The line that is put in the place of one with `VALUE`. -/
def valueLine (pick : Picker) (correct : List Value) : Text :=
  valueKey ++ if correct = [] then ['0'] else (pick.first correct).text

/-- A line with `name` in it. -/
def noteName (r : PropertyReader) (line : Text) : Except PyError PropertyReader :=
  if Text.contains line "name".toList then do
    let target ← readName line
    return { r with target := some target, names := r.names ++ [target] }
  else .ok r

/-- The values on a line are noted for the last name. -/
def noteValues (pick : Picker) (r : PropertyReader) (possible correct : List Value) : PropertyReader :=
  { r with
    targets := r.targets ++ [r.target]
    possibleValues := Function.update r.possibleValues r.target (some possible)
    correctValues := Function.update r.correctValues r.target (some correct)
    js := r.js ++ valueLine pick correct }

/-- A line with `VALUE` in it is replaced, and the comma at its end is lost. -/
def noteLine (pick : Picker) (r : PropertyReader) (line : Text) : Except PyError PropertyReader :=
  if Text.contains line "VALUE".toList then do
    let values ← afterColon line
    let (possible, correct) ← readValues values
    return r.noteValues pick possible correct
  else .ok { r with js := r.js ++ line }

/-- A line that is neither blank nor a comment, once its ends have been stripped. -/
def content (pick : Picker) (r : PropertyReader) (line : Text) : Except PyError PropertyReader := do
  let r ← r.noteName line
  r.noteLine pick line

def line (pick : Picker) (r : PropertyReader) (line : Text) : Except PyError PropertyReader :=
  let line := Text.pyStrip line
  if line = [] ∨ line.head? = some '#' then .ok r else content pick r line

end PropertyReader

/-! ## Testcases -/

/-- What the constructor returns, apart from the name and the number of the file. -/
structure Testcases where
  id : Option Text
  message : Option PropertyMessage
  defaultObject : Json
  targets : List (Option Text)
  possibleValues : Option Text → Option (List Value)
  correctValues : Option Text → Option (List Value)

namespace Testcases

/-- The last name that is the name of a message. -/
def messageOf (names : List Text) : Option PropertyMessage :=
  (names.filterMap PropertyMessage.ofName).getLast?

/-- The identifier: the message, and the names that are not names of messages. -/
def idOf (names : List Text) : Option Text :=
  let message := (messageOf names).map (·.text)
  let others := ((names.filter fun name => PropertyMessage.ofName name = none).map Text.pyStrip).filter (· ≠ [])
  if others = [] then message
  else some (message.getD "None".toList ++ ['-'] ++ List.intercalate ['-'] others)

/-- What follows the loop over the lines. -/
def ofReader (r : PropertyReader) : Except PyError Testcases :=
  match Json.loads r.js with
  | some obj => .ok ⟨idOf r.names, messageOf r.names, obj, r.targets, r.possibleValues, r.correctValues⟩
  | none => .error .valueError

/-- The constructor of `Testcases`, for the lines of a file. -/
def init (pick : Picker) (lines : List Text) : Except PyError Testcases := do
  let r ← lines.foldlM (PropertyReader.line pick) PropertyReader.start
  ofReader r

end Testcases

/-! ## The objects of a property file -/

/-- The value of an optional key, if it has the right type. -/
def optionalKey {α : Type} (keys : PyDict Json) (key : Text) (read : Json → Option α) :
    Option (Option α) :=
  match keys.get? key with
  | none => some none
  | some v => (read v).map some

def readText : Json → Option Text
  | .str s => some s
  | _ => none

def readOp : Json → Option Op
  | .str s => some (.single s)
  | .arr items => (items.mapM readText).map .list
  | _ => none

def readValue : Json → Option Value
  | .int n => some (.int n)
  | .str s => some (.str s)
  | _ => none

mutual

/-- A JSON value as an object of a testcase, by the keys that the scripts and the controller look up. -/
def Obj.ofJson : Json → Option Obj
  | .obj keys => do
    let name ← (PyDict.get? keys "name".toList).bind readText
    let id ← optionalKey keys "id".toList readText
    let op ← optionalKey keys "op".toList readOp
    let type ← optionalKey keys "type".toList readText
    let value ← optionalKey keys "value".toList readValue
    let sub ← subOfKeys keys
    return .node ⟨name, id, op, type, value, sub.any (·.isEmpty)⟩ (sub.getD [])
  | _ => none

/-- The objects under the key `sub`. -/
def subOfKeys : List (Text × Json) → Option (Option (List Obj))
  | [] => some none
  | (key, v) :: keys => if key = "sub".toList then (objsOfArray v).map some else subOfKeys keys

def objsOfArray : Json → Option (List Obj)
  | .arr items => objsOfItems items
  | _ => none

def objsOfItems : List Json → Option (List Obj)
  | [] => some []
  | j :: items => do
    let o ← Obj.ofJson j
    let os ← objsOfItems items
    return o :: os

end

def testcaseOfJson : Json → Option (List Obj)
  | .obj keys => (PyDict.get? keys "testcase".toList).bind objsOfArray
  | _ => none

/-- The arrays under the key `testcase` of the objects under the key `testcases`. -/
def testcasesOfJson : Json → Option (List (List Obj))
  | .obj keys =>
    match PyDict.get? keys "testcases".toList with
    | some (.arr items) => items.mapM testcaseOfJson
    | _ => none
  | _ => none

/-- What `update_values` makes use of, if the file is in the format of testcases and for a response. No
object is found for a target that is not a name. -/
def Testcases.property (tc : Testcases) : Option Property := do
  let message ← tc.message.bind PropertyMessage.response?
  let testcases ← testcasesOfJson tc.defaultObject
  return {
    id := tc.id.getD "None".toList
    message := message
    testcases := testcases
    targets := tc.targets.reduceOption
    possibleValues := fun target => (tc.possibleValues (some target)).getD []
    correctValues := fun target => (tc.correctValues (some target)).getD [] }

end Scripts
