import VoWiFi.Ims.Mutation

/-!
# Reading a changed header again

What `serialize_sip_message` writes for a header is what the phone gets to read. `init_vlst` puts the
separators into the entries they follow, so an entry that is taken out takes its separator along, and a
new value that has an `=` of its own is not read as it was set. This module says when the header that is
written after a query is read as the header that `process_query` has left.
-/

namespace Ims

/-- The line that is written for a header is read as the header. -/
def Kvp.ReadsBack (kvp : Kvp) : Prop := parseKeyValueLine kvp.line = some kvp

instance (kvp : Kvp) : Decidable kvp.ReadsBack := inferInstanceAs (Decidable (_ = _))

/-- The headers that a query can change. -/
def changedHeaders : List Text := ["WWW-Authenticate".toList, "Security-Server".toList]

/-- The headers that a query can change are read as they are. -/
def SipMessage.ReadsBack (m : SipMessage) : Prop :=
  ∀ key ∈ changedHeaders, ∀ kvp ∈ m.getKvp key, kvp.ReadsBack

instance (m : SipMessage) : Decidable m.ReadsBack :=
  inferInstanceAs (Decidable (∀ key ∈ changedHeaders, ∀ kvp ∈ m.getKvp key, kvp.ReadsBack))

/-- The query returns, its edits have been made, and both headers are read as they were left. -/
def Reparsed (query : Option Query) (rand : ℕ → ℕ) (m : SipMessage) : Prop :=
  ∃ m', processQuery query rand m = .ok m' ∧ m.Framed query rand m' ∧ m'.ReadsBack

/-- The names of the attributes in the query and in the message: the section, the header, the
attribute. -/
def targets : List (String × String × String) :=
  [("www_authenticate", "WWW-Authenticate", "nonce"),
    ("www_authenticate", "WWW-Authenticate", "algorithm"),
    ("security_server", "Security-Server", "alg"), ("security_server", "Security-Server", "ealg"),
    ("security_server", "Security-Server", "prot"), ("security_server", "Security-Server", "mod")]

/-- The value of the first attribute of a name in the first header of a name, empty if there is none. -/
def SipMessage.firstValue (m : SipMessage) (key attr : Text) : Text :=
  (do (← (← m.attributes key attr).head?).val).getD []

/-- What the query is about is there, with a value that is not empty. -/
def Present (query : Option Query) (m : SipMessage) : Prop :=
  ∀ t ∈ targets, (attributeQuery query t.1.toList t.2.2.toList).isSome →
    m.firstValue t.2.1.toList t.2.2.toList ≠ []

instance (query : Option Query) (m : SipMessage) : Decidable (Present query m) :=
  inferInstanceAs (Decidable (∀ t ∈ targets, _ → _))

/-! ## Lists of entries that can be written -/

/-- What is written for an entry. -/
def Val.token (v : Val) : Token := ⟨attrText v.attr ++ v.val.getD [], v.delimiter, v.space⟩

/-- Nothing but a space is written. -/
def Token.IsBlank (t : Token) : Prop := t.text = [] ∧ t.delimiter = none

instance (t : Token) : Decidable t.IsBlank := inferInstanceAs (Decidable (_ ∧ _))

/-- An entry is followed by a separator, and not by a comma alone if a space comes next: the scanner would
take them for one separator. -/
def Token.Separated (t u : Token) : Prop :=
  (t.delimiter.isSome ∨ t.space = true) ∧
    ¬ (t.delimiter = some ',' ∧ t.space = false ∧ u.IsBlank ∧ u.space = true)

instance (t u : Token) : Decidable (t.Separated u) := inferInstanceAs (Decidable (_ ∧ _))

/-- Every entry but the last is separated from the next one. -/
def Joined : List Token → Prop
  | [] => False
  | [t] => t.delimiter = none ∧ t.space = false
  | t :: u :: ts => t.Separated u ∧ Joined (u :: ts)

instance decidableJoined : (ts : List Token) → Decidable (Joined ts)
  | [] => isFalse id
  | [t] => inferInstanceAs (Decidable (t.delimiter = none ∧ t.space = false))
  | t :: u :: ts =>
    have := decidableJoined (u :: ts)
    inferInstanceAs (Decidable (t.Separated u ∧ Joined (u :: ts)))

/-- The entries can be written one after another, and something is written for the first of them. -/
structure Rejoins (ts : List Token) : Prop where
  start : ∀ t ∈ ts.head?, ¬ t.IsBlank
  joined : Joined ts

theorem rejoins_iff {ts : List Token} :
    (∀ t ∈ ts.head?, ¬ t.IsBlank) ∧ Joined ts ↔ Rejoins ts :=
  ⟨fun h => ⟨h.1, h.2⟩, fun h => ⟨h.start, h.joined⟩⟩

instance (ts : List Token) : Decidable (Rejoins ts) := decidable_of_iff _ rejoins_iff

/-! ## Queries that keep a response readable -/

/-- The attributes that a query drops. -/
def dropped (query : Option Query) (section_ : String) (attrs : List String) : List Text :=
  (attrs.filter fun attr =>
    (attributeQuery query section_.toList attr.toList).any (·.op = .drop)).map String.toList

/-- What is left of a list without the first entry of each name. -/
def left (names : List Text) (vlst : List Val) : List Val :=
  names.foldl (fun vlst name => vlst.eraseP (·.attr = some name)) vlst

/-- The nonce is not set, the algorithm is not dropped, and what is left of both headers can be written
one after another. -/
structure Readable (query : Option Query) (m : SipMessage) : Prop where
  nonce : ∀ q ∈ attributeQuery query "www_authenticate".toList "nonce".toList, ¬ q.IsUpdate
  algorithm : ∀ q ∈ attributeQuery query "www_authenticate".toList "algorithm".toList, q.IsUpdate
  authenticate : ∀ kvp ∈ m.getKvp "WWW-Authenticate".toList,
    Rejoins ((left (dropped query "www_authenticate" ["nonce", "algorithm"]) kvp.vlst).map Val.token)
  server : ∀ kvp ∈ m.getKvp "Security-Server".toList,
    Rejoins ((left (dropped query "security_server" ["alg", "ealg", "prot", "mod"]) kvp.vlst).map
      Val.token)

end Ims
