import VoWiFi.Epdg.ProcessQuery

/-!
# An update where there was a drop

`check_drop_next` and the functions that `process_query` chooses look for the payloads of a message in
the query each in their own way. To compare them a node that drops a payload is taken out of the query,
and an update is put in its place.
-/

namespace Epdg

/-! ## Replacing a node -/

/-- Put a tree in the place of the first one of this name. -/
def replaceSub (name : Text) (new : Query) : List Query → List Query
  | [] => []
  | c :: cs => if isQueryName c.label (some name) then new :: cs else c :: replaceSub name new cs

/-- Put a tree in the place of the node that `get_sub_query_by_name` leads to along a path. -/
def Query.setAt (q : Query) : List Text → Query → Query
  | [], new => new
  | name :: path, new =>
    match getSubQueryByName q name with
    | none => q
    | some c => .node q.label (replaceSub name (Query.setAt c path new) q.sub)

/-! ## Updates -/

/-- Nodes without an operator down to a leaf. -/
def chain : List Text → QNode → Query
  | [], leaf => .node leaf []
  | name :: path, leaf => .node ⟨some name, .notSet, 0, none⟩ [chain path leaf]

/-- An update in place of a node, with any value type and any value: at the node itself, or at a node at
the end of a path below it. Nothing else is asked for there. -/
inductive UpdateFor (t : Query) : Query → Prop
  | here (vtype : ℤ) (value : Option Text) :
    UpdateFor t (.node { t.label with op := .update, vtype, value } [])
  | below (path : List Text) (leaf : QNode) (hleaf : leaf.op = .update) :
    UpdateFor t (.node { t.label with op := .notSet } [chain path leaf])

def Mutator.withQuery (m : Mutator) (q : Query) : Mutator := { m with inst := m.inst.setQuery q }

/-- With the query as it is, the function for the payload changes it. -/
def Mutator.Changes (m : Mutator) (s : MutatorState) (body : PayloadBody) : Prop :=
  ∃ s' body', m.handle s body = .ok (s', body') ∧ body' ≠ body

/-! ## What the functions recognise -/

/-- The query has an update of the notify directly below the name of the response, and it is not one for
the data that the notify has. -/
def asksNotify (inst : Instance) (q : Query) (n : NotifyPayload) : Prop :=
  ∃ name data text, n.kind.update inst = some (name, data) ∧
    (askedQuery (some q) .init [name]).bind (·.label.string?) = some text ∧ data text ≠ n.notifyData

/-- The query has an update of the identity under the name `identification_responder`, and it is not one
for what the payload has. -/
def asksIdentification (q : Query) (id : IdPayload) : Prop :=
  (∃ v, (askedIdentification (some q) "id_type".toList).bind (·.label.number? .w8 .decimal) = some v ∧
    UInt8.ofInt v ≠ id.idType) ∨
  ∃ text, (askedIdentification (some q) "identification_data".toList).bind (·.label.string?) = some text ∧
    bytesOf text ≠ id.idData

/-- The walk over the attributes finds a value of at least one byte within the data. -/
def findsValue (data : Chunk) : Prop :=
  ∃ a p alen, findAttribute (AkaAttribute.type a) data = .ok (some (p, alen)) ∧
    2 < (abytes alen).toNat ∧ p + (abytes alen).toNat ≤ data.length

/-- The function for a payload that is dropped can be made to change it: always for a key exchange and a
nonce, never because of what stands at the place of the drop for a notify and an identity. -/
def Recognised (inst : Instance) (q : Query) : PayloadBody → Prop
  | .keyExchange _ => True
  | .nonce _ => True
  | .notify n => asksNotify inst q n
  | .idResponder id => asksIdentification q id
  | .eap data => findsValue data
  | .header _ => False
  | .plain _ => False

end Epdg
