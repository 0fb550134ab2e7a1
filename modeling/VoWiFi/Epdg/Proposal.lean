import Mathlib.Data.Finset.Dedup
import Mathlib.Data.Finset.Insert
import VoWiFi.Epdg.Update
import VoWiFi.Lib.FirstEach
import VoWiFi.Lib.RoomArray
import VoWiFi.Lib.Steps

/-!
# Changing the proposal of a response

`process_proposal` is called for the proposal that has been selected, before the payload with it is
built. It removes the transforms that the query drops while it goes over their array, and then changes
the first transform of a type for each type that the query names.
-/

namespace Epdg

/-! ## Proposals -/

/-- `transform_type_t`. -/
inductive TransformType where
  | encryptionAlgorithm
  | pseudoRandomFunction
  | integrityAlgorithm
  | diffieHellmanGroup
  | other (n : ℕ)
  deriving DecidableEq, Repr

/-- `entry_t`. -/
structure Transform where
  type : TransformType
  alg : UInt16
  keySize : UInt16
  deriving DecidableEq, Repr

structure Proposal where
  transforms : RoomArray Transform
  /-- The types of transforms it is meant to contain. -/
  types : Finset TransformType
  spi : UInt64
  number : UInt8

/-- The types are those of the transforms. -/
def Proposal.TypesMatch (p : Proposal) : Prop :=
  p.types = (p.transforms.elems.map (·.type)).toFinset

instance (p : Proposal) : Decidable p.TypesMatch := inferInstanceAs (Decidable (_ = _))

/-- `proposal_create`. -/
def Proposal.create (number : UInt8) : Proposal := ⟨⟨[], [], []⟩, ∅, 0, number⟩

/-- `add_algorithm`. -/
def Proposal.addAlgorithm (p : Proposal) (tr : Transform) : Proposal :=
  { p with transforms := p.transforms.insertLast tr, types := insert tr.type p.types }

/-- A proposal with these transforms, added one after another. -/
def Proposal.ofTransforms (number : UInt8) (transforms : List Transform) : Proposal :=
  transforms.foldl Proposal.addAlgorithm (Proposal.create number)

/-- `get_algorithm`. -/
def Proposal.getAlgorithm (p : Proposal) (type : TransformType) : Option (UInt16 × UInt16) :=
  (p.transforms.elems.find? (·.type = type)).map fun tr => (tr.alg, tr.keySize)

/-- `set_algorithm`. -/
def Proposal.setAlgorithm (p : Proposal) (type : TransformType) (alg keySize : UInt16) : Proposal :=
  { p with
    transforms := { p.transforms with
      elems := p.transforms.elems.changeFirst (·.type) (fun tr => { tr with alg, keySize }) type } }

/-! ## What the query names -/

/-- What the query can name below the node for the transforms. -/
inductive TransformField where
  | encryptionAlgorithm
  | encryptionKeyLength
  | diffieHellmanGroup
  | pseudoRandomFunction
  | integrityAlgorithm
  deriving DecidableEq, Repr

def TransformField.name : TransformField → Text
  | encryptionAlgorithm => "encryption_algorithm".toList
  | encryptionKeyLength => "encryption_key_length".toList
  | diffieHellmanGroup => "diffie_hellman_group".toList
  | pseudoRandomFunction => "pseudo_random_function".toList
  | integrityAlgorithm => "integrity_algorithm".toList

/-- The field for the algorithm of a type. -/
def TransformType.field : TransformType → Option TransformField
  | encryptionAlgorithm => some .encryptionAlgorithm
  | pseudoRandomFunction => some .pseudoRandomFunction
  | integrityAlgorithm => some .integrityAlgorithm
  | diffieHellmanGroup => some .diffieHellmanGroup
  | other _ => none

/-- A node of the proposal. -/
def askedProposal (query : Option Query) (path : List Text) : Option Query :=
  askedQuery query .init ("security_association".toList :: "proposal".toList :: path)

def askedTransform (query : Option Query) (f : TransformField) : Option Query :=
  askedProposal query ["transform".toList, f.name]

/-- The query drops the transforms of a type. -/
def dropsType (query : Option Query) (type : TransformType) : Bool :=
  (type.field.bind (askedTransform query)).any (·.label.op = .drop)

/-! ## Drops -/

/-- The enumerator over the array, with the pointer to the entry it has given last; there is none once the
storage has moved. -/
structure TransformEnumerator where
  array : RoomArray Transform
  idx : ℕ
  entry : Option ℕ
  deriving DecidableEq, Repr

/-- `array_remove_at`. -/
def TransformEnumerator.removeAt (e : TransformEnumerator) : TransformEnumerator :=
  if e.idx = 0 then e
  else
    { array := e.array.remove (e.idx - 1)
      idx := e.idx - 1
      entry := if e.array.moves (e.idx - 1) then none else e.entry }

/-- The part of the loop for a type. The type of the entry is read from the storage as it is then. -/
def checkTransform (query : Option Query) (type : TransformType) (e : TransformEnumerator) :
    TransformEnumerator × Option Stop :=
  match e.entry with
  | none => (e, some .danglingPointer)
  | some place =>
    match e.array.read place with
    | none => (e, some .outOfBounds)
    | some tr => (if tr.type = type && dropsType query type then e.removeAt else e, none)

/-- The types in the order in which they are checked. -/
def checkedTypes : List TransformType :=
  [.encryptionAlgorithm, .diffieHellmanGroup, .pseudoRandomFunction, .integrityAlgorithm]

/-- The loop, with fuel. -/
def enumerateTransforms (query : Option Query) :
    ℕ → TransformEnumerator → TransformEnumerator × Option Stop
  | 0, e => (e, some .running)
  | fuel + 1, e =>
    if e.idx < e.array.elems.length then
      match Steps.run (checkedTypes.map (checkTransform query))
          { e with idx := e.idx + 1, entry := some (e.array.head.length + e.idx) } with
      | (e, none) => enumerateTransforms query fuel e
      | (e, some stop) => (e, some stop)
    else (e, none)

/-- `process_transforms`. The loop runs at most once for each transform. -/
def processTransforms (query : Option Query) (p : Proposal) : Proposal × Option Stop :=
  match enumerateTransforms query (p.transforms.elems.length + 1) ⟨p.transforms, 0, none⟩ with
  | (e, stop) => ({ p with transforms := e.array }, stop)

/-! ## Updates -/

/-- The proposal and the two scratch variables. -/
structure ProposalState where
  proposal : Proposal
  algo : UInt16
  klen : UInt16

/-- Load the scratch variables from the first transform of a type, if there is one. -/
def ProposalState.load (s : ProposalState) (type : TransformType) : ProposalState :=
  match s.proposal.getAlgorithm type with
  | some (alg, keySize) => { s with algo := alg, klen := keySize }
  | none => s

/-- Store the scratch variables in the first transform of a type. -/
def ProposalState.store (s : ProposalState) (type : TransformType) : ProposalState :=
  { s with proposal := s.proposal.setAlgorithm type s.algo s.klen }

/-- The number that a node asks for, or the one there is. -/
def QNode.word (n : QNode) (v : UInt16) : UInt16 := ((n.number? .w16 .decimal).map UInt16.ofInt).getD v

/-- The part for the encryption algorithm and the length of its key. -/
def updateEncryption (query : Option Query) (s : ProposalState) : ProposalState :=
  match askedTransform query .encryptionAlgorithm with
  | none => s
  | some q =>
    let s := s.load .encryptionAlgorithm
    let s := { s with algo := q.label.word s.algo }
    let s := match askedTransform query .encryptionKeyLength with
      | none => s
      | some q => { s with klen := q.label.word s.klen }
    s.store .encryptionAlgorithm

/-- The part for one of the other types. -/
def updateTransform (query : Option Query) (type : TransformType) (s : ProposalState) : ProposalState :=
  match type.field.bind (askedTransform query) with
  | none => s
  | some q =>
    let s := s.load type
    let s := { s with algo := q.label.word s.algo }
    s.store type

def updateNumber (query : Option Query) (p : Proposal) : Proposal :=
  match (askedProposal query ["proposal_number".toList]).bind (·.label.number? .w8 .decimal) with
  | some v => { p with number := UInt8.ofInt v }
  | none => p

def updateSpi (query : Option Query) (p : Proposal) : Proposal :=
  match (askedProposal query ["spi".toList]).bind (·.label.number? .w64 .hexadecimal) with
  | some v => { p with spi := UInt64.ofInt v }
  | none => p

/-- The part of `process_proposal` behind the drops. -/
def updateProposal (query : Option Query) (p : Proposal) : Proposal :=
  let s := updateEncryption query ⟨p, 0, 0⟩
  let s := updateTransform query .diffieHellmanGroup s
  let s := updateTransform query .pseudoRandomFunction s
  let s := updateTransform query .integrityAlgorithm s
  updateSpi query (updateNumber query s.proposal)

/-- `process_proposal`. -/
def processProposal (query : Option Query) (p : Proposal) : Proposal × Option Stop :=
  match processTransforms query p with
  | (p, none) => (updateProposal query p, none)
  | (p, some stop) => (p, some stop)

/-! ## What the updates ask for -/

/-- The query has updates with these numbers below the node for the transforms, and no other operator
there. -/
def AsksTransforms (query : Option Query) (v : TransformField → Option ℕ) : Prop :=
  ∀ f, match v f with
    | some n => ∃ t, askedTransform query f = some t ∧ t.label.op = .update ∧
        t.label.vtype = valTypeUint .w16 .decimal ∧ Numeral .decimal t.label.text n ∧ n < 2 ^ 16
    | none => ∀ t, askedTransform query f = some t → t.label.op = .notSet

/-- A transform with the algorithm and the length that are asked for. -/
def Transform.request (v : TransformField → Option ℕ) (tr : Transform) : Transform :=
  { tr with
    alg := ((tr.type.field.bind v).map UInt16.ofNat).getD tr.alg
    keySize :=
      if tr.type = .encryptionAlgorithm then ((v .encryptionKeyLength).map UInt16.ofNat).getD tr.keySize
      else tr.keySize }

/-- The transforms with what is asked for in the first one of each type. -/
def requested (v : TransformField → Option ℕ) (transforms : List Transform) : List Transform :=
  List.changeFirstEach (·.type) (Transform.request v) [] transforms

end Epdg
