import VoWiFi.Ims.ProcessQuery

/-!
# Queries that leave a response alone

A query for a 401 response should touch no other response. `process_query` does not look at the status
code, though: it changes whatever message has the headers the query is about, and for `nonce` and
`algorithm` it may stop where they are missing. This module says what it is to leave a response alone,
and which parts of a query do so for a given message.
-/

namespace Ims

/-- The message passes `process_query` without a fault and unchanged, and what is then sent is what
would have been sent without the call. -/
structure SipMessage.Untouched (m : SipMessage) (query : Option Query) (rand : ℕ → ℕ) : Prop where
  message : processQuery query rand m = .ok m
  bytes : (do serializeSipMessage (← processQuery query rand m)) = serializeSipMessage m

/-- The blocks with the header and the attribute each of them is about. -/
def blocks (query : Option Query) (rand : ℕ → ℕ) :
    List ((Text × Text) × (SipMessage → Except Fault SipMessage)) :=
  [(("WWW-Authenticate".toList, "nonce".toList), changeNonce query rand),
    (("WWW-Authenticate".toList, "algorithm".toList), changeAlgorithm query),
    (("Security-Server".toList, "alg".toList), changeAlg query),
    (("Security-Server".toList, "ealg".toList), changeEalg query),
    (("Security-Server".toList, "prot".toList), changeProt query),
    (("Security-Server".toList, "mod".toList), changeMod query)]

/-- The attributes of a name in the first header of a name, if there is such a header. -/
def SipMessage.attributes (m : SipMessage) (key attr : Text) : Option (List Val) :=
  (m.getKvp key).map fun kvp => kvp.vlst.filter (·.attr = some attr)

/-- The header is missing, or all its attributes of the name have the value. -/
def SipMessage.Holds (m : SipMessage) (key attr value : Text) : Prop :=
  ∀ vs ∈ m.attributes key attr, ∀ v ∈ vs, v.val = some value

/-- The part of a query is an update of a string. -/
def QNode.IsUpdate (q : QNode) : Prop := q.vtype = valTypeString ∧ q.op = .update

instance (q : QNode) : Decidable q.IsUpdate := inferInstanceAs (Decidable (_ ∧ _))

/-- A query that sets an attribute of `Security-Server` only to what it is already, and drops it only
where there is no such header. -/
def ServerIdle (query : Option Query) (attr : String) (value : Text → Text) (m : SipMessage) : Prop :=
  ∀ q ∈ attributeQuery query "security_server".toList attr.toList,
    (q.IsUpdate → m.Holds "Security-Server".toList attr.toList (value q.value)) ∧
      (q.op = .drop → m.getKvp "Security-Server".toList = none)

/-- A query that updates `algorithm`, if it is about it, to what it is already. -/
def AlgorithmIdle (query : Option Query) (m : SipMessage) : Prop :=
  ∀ q ∈ attributeQuery query "www_authenticate".toList "algorithm".toList,
    q.IsUpdate ∧ m.Holds "WWW-Authenticate".toList "algorithm".toList (algorithmValue q.value)

/-- A query that is about `nonce` only where there is a header for it, does not drop it, and updates it
only to what it is already. -/
def NonceIdle (query : Option Query) (rand : ℕ → ℕ) (m : SipMessage) : Prop :=
  ∀ q ∈ attributeQuery query "www_authenticate".toList "nonce".toList,
    ∃ kvp, m.getKvp "WWW-Authenticate".toList = some kvp ∧ q.op ≠ .drop ∧
      (q.IsUpdate → ∃ length, getValueLength kvp.vlst "nonce".toList = some length ∧ 0 < length ∧
        m.Holds "WWW-Authenticate".toList "nonce".toList (nonceValue rand length q.value))

/-- Every part of the query has nothing to change. -/
structure Idle (query : Option Query) (rand : ℕ → ℕ) (m : SipMessage) : Prop where
  nonce : NonceIdle query rand m
  algorithm : AlgorithmIdle query m
  alg : ServerIdle query "alg" (choose ["hmac-md5-96", "hmac-sha-1-96"] "hmac-md5-96") m
  ealg : ServerIdle query "ealg" (choose ["des-ede3-cbc", "null", "aes256-cbc"] "null") m
  prot : ServerIdle query "prot" (choose ["null", "esp", "ah", "trans"] "null") m
  mod : ServerIdle query "mod" (choose ["trans", "null", "tun"] "null") m

end Ims
