import VoWiFi.Ims.Frame
import VoWiFi.Lib.FirstEach
import VoWiFi.Lib.Footprint

/-!
# What a query asks for

A query for a 401 response asks for at most one edit of each of six attributes. This module says what the
edits make of a message (`SipMessage.Framed`), when `process_query` carries them out without stopping
(`Safe`), and what it is to do no harm where there is nothing to edit (`Harmless`).
-/

namespace Ims

/-! ## Edits -/

/-- What is asked for at an attribute of a header. -/
inductive Edit where
  | keep
  | replace (value : Text)
  | remove
  deriving DecidableEq, Repr

/-- All entries of the name get a new value, or the first entry of the name goes. -/
def Edit.apply (attr : Text) : Edit → List Val → List Val
  | .keep, vlst => vlst
  | .replace value, vlst =>
    vlst.map fun v => if v.attr = some attr then { v with val := some value } else v
  | .remove, vlst => vlst.eraseP (·.attr = some attr)

/-- The edits of several attributes one after another. -/
def applyEdits (edits : List (Text × Edit)) (vlst : List Val) : List Val :=
  edits.foldl (fun vlst e => e.2.apply e.1 vlst) vlst

/-- The edit that a part of a query asks for. -/
def editOf (part : Option QNode) (value : Text → Text) : Edit :=
  match part with
  | none => .keep
  | some q =>
    if q.IsUpdate then .replace (value q.value) else if q.op = .drop then .remove else .keep

/-- The edits of `WWW-Authenticate`. A new nonce is as long as the first one of the header. -/
def authenticateEdits (query : Option Query) (rand : ℕ → ℕ) (vlst : List Val) :
    List (Text × Edit) :=
  let part := fun attr : String => attributeQuery query "www_authenticate".toList attr.toList
  let length := (getValueLength vlst "nonce".toList).getD 0
  [("nonce".toList, editOf (part "nonce") (nonceValue rand length)),
    ("algorithm".toList, editOf (part "algorithm") algorithmValue)]

/-- The attributes of `Security-Server` with the words for their values. -/
def serverValues : List (String × (Text → Text)) :=
  [("alg", choose ["hmac-md5-96", "hmac-sha-1-96"] "hmac-md5-96"),
    ("ealg", choose ["des-ede3-cbc", "null", "aes256-cbc"] "null"),
    ("prot", choose ["null", "esp", "ah", "trans"] "null"),
    ("mod", choose ["trans", "null", "tun"] "null")]

/-- The edits of `Security-Server`. -/
def serverEdits (query : Option Query) : List (Text × Edit) :=
  serverValues.map fun p =>
    (p.1.toList, editOf (attributeQuery query "security_server".toList p.1.toList) p.2)

/-- The first header of the name with a new list of attributes. -/
def SipMessage.editHeader (m : SipMessage) (key : Text) (f : List Val → List Val) : SipMessage :=
  { m with kvps := m.kvps.changeFirst Kvp.key (fun kvp => { kvp with vlst := f kvp.vlst }) key }

/-- The message after all edits of a query. -/
def SipMessage.mutated (m : SipMessage) (query : Option Query) (rand : ℕ → ℕ) : SipMessage :=
  (m.editHeader "WWW-Authenticate".toList fun vlst =>
    applyEdits (authenticateEdits query rand vlst) vlst).editHeader "Security-Server".toList
      (applyEdits (serverEdits query))

/-- The position of the first header of a name. -/
def SipMessage.position (m : SipMessage) (key : Text) : ℕ := m.kvps.findIdx (·.key = key)

/-- A message and what the edits of a query make of it. -/
structure SipMessage.Framed (m : SipMessage) (query : Option Query) (rand : ℕ → ℕ)
    (m' : SipMessage) : Prop where
  mtype : m'.mtype = m.mtype
  firstLine : m'.firstLine = m.firstLine
  keys : m'.kvps.map Kvp.key = m.kvps.map Kvp.key
  others : ∀ i, i ≠ m.position "WWW-Authenticate".toList → i ≠ m.position "Security-Server".toList →
    m'.kvps[i]? = m.kvps[i]?
  authenticate : m'.getKvp "WWW-Authenticate".toList =
    (m.getKvp "WWW-Authenticate".toList).map fun kvp =>
      { kvp with vlst := applyEdits (authenticateEdits query rand kvp.vlst) kvp.vlst }
  server : m'.getKvp "Security-Server".toList =
    (m.getKvp "Security-Server".toList).map fun kvp =>
      { kvp with vlst := applyEdits (serverEdits query) kvp.vlst }

/-! ## Stopping -/

/-- There is no first header of the name, or it has no such attribute. -/
def SipMessage.Lacks (m : SipMessage) (key attr : Text) : Prop :=
  ∀ vs ∈ m.attributes key attr, vs = []

/-- The query returns, and a block whose header or attribute is missing changes nothing. -/
structure Harmless (query : Option Query) (rand : ℕ → ℕ) (m : SipMessage) : Prop where
  returns : ∃ m', processQuery query rand m = .ok m'
  absent : ∀ before block behind m₁, blocks query rand = before ++ block :: behind →
    Footprint.runAll before m = .ok m₁ → m.Lacks block.1.1 block.1.2 → block.2 m₁ = .ok m₁

/-- What a query asks of the nonces of `WWW-Authenticate`: the header is there, with a first nonce that
is not empty for an update, and with any nonce for a drop. -/
def NonceSafe (query : Option Query) (nonces : Option (List Val)) : Prop :=
  ∀ q ∈ attributeQuery query "www_authenticate".toList "nonce".toList,
    ∃ vs, nonces = some vs ∧
      (q.IsUpdate → ∃ v ∈ vs.head?, v.val.getD [] ≠ []) ∧ (q.op = .drop → vs ≠ [])

/-- What a query asks of an attribute of `Security-Server`: what is dropped is there, unless the header
is missing. -/
def ServerSafe (query : Option Query) (attr : String) (entries : Option (List Val)) : Prop :=
  ∀ q ∈ attributeQuery query "security_server".toList attr.toList,
    q.op = .drop → ∀ vs ∈ entries, vs ≠ []

/-- What the message has to have for the query. -/
structure Safe (query : Option Query) (m : SipMessage) : Prop where
  nonce : NonceSafe query (m.attributes "WWW-Authenticate".toList "nonce".toList)
  /-- Nothing but an update of the algorithm is asked for. -/
  algorithm : ∀ q ∈ attributeQuery query "www_authenticate".toList "algorithm".toList, q.IsUpdate
  server : ∀ p ∈ serverValues,
    ServerSafe query p.1 (m.attributes "Security-Server".toList p.1.toList)

end Ims
