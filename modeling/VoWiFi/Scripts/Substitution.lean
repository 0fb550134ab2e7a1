import VoWiFi.Scripts.PropertyFile

/-!
# Substituting error messages

`substitution` (`generate_testcases.py`) takes the testcases whose last message has no attributes and puts
an error message in its place: it goes through the property files, their testcases and the error messages
of a protocol, which it tells from the name of the last message. The testcases are filed for the message of
the property file. On its way it changes the last messages of the testcases and the error messages
themselves, so that all three loops hand on what they have changed.
-/

namespace Scripts

/-- A message of a testcase or an error message: its name and its other keys. -/
structure MessageObj where
  name : Text
  keys : PyDict Json

namespace MessageObj

def toJson (m : MessageObj) : Json := .obj (("name".toList, .str m.name) :: m.keys)

def set (m : MessageObj) (key : Text) (v : Json) : MessageObj := { m with keys := m.keys.set key v }

def del (m : MessageObj) (key : Text) : MessageObj := { m with keys := m.keys.erase key }

/-- The keys have the same values in both, in whatever order. -/
def Same (m m' : MessageObj) : Prop := m.name = m'.name ∧ ∀ key, m.keys.get? key = m'.keys.get? key

end MessageObj

/-- An array of messages that has a last one. -/
structure Sequence where
  init : List MessageObj
  last : MessageObj

/-- The testcases of a property file, as `substitution` reads them from an object of `Testcases`. -/
structure PropertyTestcases where
  id : Option Text
  message : Option PropertyMessage
  testcases : List Sequence

/-- A testcase that has been generated: the message that it is filed for, the property file and the
testcase in it that it is made from, its identifier, and its messages. -/
structure Filed where
  key : Message
  origin : ℕ × ℕ
  id : Text
  messages : List MessageObj

/-! ## The loops -/

/-- Set the key `id` of the first message. -/
def setFirstId (id : Text) : List MessageObj → List MessageObj
  | [] => []
  | m :: ms => m.set "id".toList (.str id) :: ms

/-- The operator is set in the testcase of the property file. -/
def markSubstitution (lc : MessageObj) : MessageObj :=
  (lc.del "op".toList).set "op".toList (.str "substitution".toList)

/-- The keys of an error message that are deleted from it. -/
def takeError (emsg : MessageObj) : MessageObj := (emsg.del "receiver".toList).del "reporter".toList

def substitutionId (id : Option Text) (ename : Text) (tnum : ℕ) : Text :=
  "substitution-".toList ++ id.getD "None".toList ++ ['-'] ++ ename ++ ['-'] ++ Nat.toDigits 10 tnum

/-- The copy of a testcase with an error message under its last message. -/
def substitute (tc : Sequence) (emsg : MessageObj) (id : Text) : List MessageObj :=
  setFirstId id (tc.init ++ [tc.last.set "sub".toList (.arr [emsg.toJson])])

/-- The loop over the error messages of a protocol: what is filed, the error messages afterwards, and the
number of the last testcase. -/
def errorLoop (ptc : PropertyTestcases) (origin : ℕ × ℕ) (tc : Sequence) :
    ℕ → List MessageObj → Except PyError (List Filed × List MessageObj × ℕ)
  | tnum, [] => .ok ([], [], tnum)
  | tnum, emsg :: emsgs =>
    let emsg := takeError emsg
    let id := substitutionId ptc.id emsg.name (tnum + 1)
    match ptc.message with
    | some (.response key) => do
      let (filed, emsgs, tnum) ← errorLoop ptc origin tc (tnum + 1) emsgs
      return (⟨key, origin, id, substitute tc emsg id⟩ :: filed, emsg :: emsgs, tnum)
    | _ => .error .keyError

/-- The error messages of both protocols. -/
structure Errors where
  ike : List MessageObj
  sip : List MessageObj

/-- One testcase of a property file: what is filed, the testcase and the error messages afterwards, and the
number of the last testcase. -/
def substituteTestcase (ptc : PropertyTestcases) (origin : ℕ × ℕ) (tnum : ℕ) (errors : Errors)
    (tc : Sequence) : Except PyError (List Filed × Sequence × Errors × ℕ) :=
  if (tc.last.keys.get? "sub".toList).isSome then .ok ([], tc, errors, tnum)
  else
    let tc := { tc with last := markSubstitution tc.last }
    if Text.contains tc.last.name "ike".toList then do
      let (filed, ike, tnum) ← errorLoop ptc origin tc tnum errors.ike
      return (filed, tc, { errors with ike := ike }, tnum)
    else if Text.contains tc.last.name "sip".toList then do
      let (filed, sip, tnum) ← errorLoop ptc origin tc tnum errors.sip
      return (filed, tc, { errors with sip := sip }, tnum)
    else .ok ([], tc, errors, tnum)

/-- The loop over the testcases of a property file, from the testcase of a number on. -/
def testcaseLoop (ptc : PropertyTestcases) (file : ℕ) :
    (index tnum : ℕ) → Errors → List Sequence → Except PyError (List Filed × List Sequence × Errors)
  | _, _, errors, [] => .ok ([], [], errors)
  | index, tnum, errors, tc :: tcs => do
    let (filed, tc, errors, tnum) ← substituteTestcase ptc (file, index) tnum errors tc
    let (rest, tcs, errors) ← testcaseLoop ptc file (index + 1) tnum errors tcs
    return (filed ++ rest, tc :: tcs, errors)

/-- The loop over the property files, from the file of a number on. -/
def fileLoop : (file : ℕ) → Errors → List PropertyTestcases →
    Except PyError (List Filed × List PropertyTestcases × Errors)
  | _, errors, [] => .ok ([], [], errors)
  | file, errors, ptc :: ptcs => do
    let (filed, tcs, errors) ← testcaseLoop ptc file 0 0 errors ptc.testcases
    let (rest, ptcs, errors) ← fileLoop (file + 1) errors ptcs
    return (filed ++ rest, { ptc with testcases := tcs } :: ptcs, errors)

/-- `substitution`: the testcases that are filed, the property files and the error messages afterwards. -/
def substitution (ptcs : List PropertyTestcases) (errors : Errors) :
    Except PyError (List Filed × List PropertyTestcases × Errors) := fileLoop 0 errors ptcs

/-- `message_level_manipulation`: the testcases filed for each message. -/
def messageLevelManipulation (ptcs : List PropertyTestcases) (errors : Errors) :
    Except PyError (Message → List Filed) := do
  let (filed, _, _) ← substitution ptcs errors
  return fun key => filed.filter (·.key = key)

/-! ## Coverage -/

def Message.all : List Message :=
  [ikeSaInitResponse, ikeAuth1Response, ikeAuth2Response, ikeAuth3Response, unauthorized401, ok200]

/-- The message belongs to IKE, and not to SIP. -/
def Message.isIke : Message → Bool
  | ikeSaInitResponse | ikeAuth1Response | ikeAuth2Response | ikeAuth3Response => true
  | unauthorized401 | ok200 => false

/-- The error messages of the protocol of a message. -/
def Message.errors (m : Message) (errors : Errors) : List MessageObj :=
  if m.isIke then errors.ike else errors.sip

/-- The last message is a response that has no attributes. -/
def Sequence.EndsIn (tc : Sequence) (m : Message) : Prop :=
  tc.last.name = m.text ∧ tc.last.keys.get? "sub".toList = none

/-- The messages are those of the testcase, in which the last one has the operator for a substitution and
an error message as its only attribute, apart from the identifier of the first one. -/
def IsSubstituted (tc : Sequence) (f : Filed) (emsg : MessageObj) : Prop :=
  List.Forall₂ MessageObj.Same f.messages
    (setFirstId f.id (tc.init ++
      [(tc.last.set "op".toList (.str "substitution".toList)).set "sub".toList (.arr [emsg.toJson])]))

/-- Each testcase that ends in a response without attributes is taken once with each error message of the
protocol of this response and filed for it, and no two identifiers are the same. -/
structure Covered (ptcs : List PropertyTestcases) (errors : Errors) (filed : Message → List Filed) :
    Prop where
  each : ∀ file ptc, ptcs[file]? = some ptc → ∀ index tc, ptc.testcases[index]? = some tc →
    ∀ m, tc.EndsIn m →
      List.Forall₂ (IsSubstituted tc) ((filed m).filter (·.origin = (file, index))) (m.errors errors)
  ids : ((Message.all.flatMap filed).map (·.id)).Nodup

/-- The error messages that are taken for a testcase. -/
def Sequence.errors (tc : Sequence) (errors : Errors) : List MessageObj :=
  if (tc.last.keys.get? "sub".toList).isSome then []
  else if Text.contains tc.last.name "ike".toList then errors.ike
  else if Text.contains tc.last.name "sip".toList then errors.sip
  else []

/-- What the identifiers of a property file have in them, apart from their numbers. -/
def PropertyTestcases.labels (ptc : PropertyTestcases) (errors : Errors) : List Text :=
  (ptc.testcases.flatMap (·.errors errors)).map fun emsg => ptc.id.getD "None".toList ++ ['-'] ++ emsg.name

/-- The property files and error messages for which the testcases are covered. -/
structure Coverable (ptcs : List PropertyTestcases) (errors : Errors) : Prop where
  /-- A file that something is generated from is one for a response. -/
  filed : ∀ ptc ∈ ptcs, ptc.labels errors ≠ [] → ∃ m, ptc.message = some (.response m)
  /-- No SIP errors are substituted for the responses of SIP. -/
  sip : ∀ ptc ∈ ptcs, ∀ tc ∈ ptc.testcases, ∀ m, tc.EndsIn m → m.isIke = false → errors.sip = []
  /-- The response is the message of the file, and nothing is deleted from the errors. -/
  ike : ∀ ptc ∈ ptcs, ∀ tc ∈ ptc.testcases, ∀ m, tc.EndsIn m → m.isIke = true → ∀ emsg ∈ errors.ike,
    ptc.message = some (.response m) ∧
      emsg.keys.get? "receiver".toList = none ∧ emsg.keys.get? "reporter".toList = none
  /-- The identifiers of two files differ in more than the number. -/
  labels : ptcs.Pairwise fun ptc ptc' =>
    ∀ (n : ℕ) label, (ptc.labels errors)[n]? = some label → (ptc'.labels errors)[n]? ≠ some label

end Scripts
