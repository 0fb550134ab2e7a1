import VoWiFi.Epdg.EncryptedPayload
import VoWiFi.Lib.Collect

/-!
# Fragmentation

A message that is too long is sent as several messages, each with a part of the encrypted content in a payload
of its own. The receiver collects the parts under the message ID, and hands the message over once it has all
of them. The length of a part is what a datagram leaves after all headers, padding and check values.
-/

namespace Epdg

/-! ## The sender -/

/-- `REDUCE_FRAG_LEN`. -/
def reduceFragLen (fragLen amount : ℕ) : ℕ := max 1 (fragLen - amount)

/-- What `fragment` looks at in the addresses: the family, and whether neither port is 500. -/
structure Path where
  ipv4 : Bool
  marker : Bool

/-- The length of a datagram, with the default for zero. -/
def Path.datagram (path : Path) (fragLen : ℕ) : ℕ :=
  if fragLen = 0 then (if path.ipv4 then 576 else 1280) else fragLen

/-- The lengths of the headers in front of an IKE message. -/
def Path.headers (path : Path) : ℕ := (if path.ipv4 then 20 else 40) + 8 + (if path.marker then 4 else 0)

/-- The part of `fragment` that computes the length of a message in a datagram. -/
def Path.messageLength (path : Path) (fragLen : ℕ) : ℕ :=
  let fragLen := path.datagram fragLen
  let fragLen := reduceFragLen fragLen (if path.ipv4 then 20 else 40)
  let fragLen := reduceFragLen fragLen 8
  if path.marker then reduceFragLen fragLen 4 else fragLen

/-- The part of `fragment` that computes the length of the content of a fragment. -/
def Path.contentLength (path : Path) (aead : Aead) (fragLen : ℕ) : ℕ :=
  let fragLen := reduceFragLen (path.messageLength fragLen) 28
  let fragLen := reduceFragLen fragLen aead.crypter.ivSize
  let fragLen := reduceFragLen fragLen aead.signer.size
  let fragLen := reduceFragLen fragLen 8
  reduceFragLen (fragLen - fragLen % aead.crypter.blockSize) 1

/-- The number of fragments, which is a number of 16 bits. -/
def fragmentCount (contentLength length : ℕ) : UInt16 :=
  UInt16.ofNat (length / contentLength + if length % contentLength ≠ 0 then 1 else 0)

/-- The loop of `fragment`: the content of each fragment. -/
def splitContent (contentLength : ℕ) : ℕ → Chunk → List Chunk
  | 0, _ => []
  | n + 1, data => data.take contentLength :: splitContent contentLength n (data.drop contentLength)

/-- A fragment on its way: its message ID, the payloads that are not encrypted, what is authenticated with the
fragment payload, and the bytes of that. -/
structure FragmentPacket where
  messageId : UInt32
  payloads : List PayloadTree
  assoc : Chunk
  bytes : Chunk

/-- What a fragmented message is made of. -/
structure Fragmented where
  messageId : UInt32
  /-- The payloads that are not encrypted. -/
  payloads : List PayloadTree
  /-- The type of the first payload of the content. -/
  next : UInt8
  content : Chunk
  contentLength : ℕ
  /-- What is authenticated with each fragment. -/
  assoc : ℕ → Chunk

/-- The content of fragment `num`, counted from 1. -/
def Fragmented.piece (m : Fragmented) (num : ℕ) : Chunk :=
  (m.content.drop ((num - 1) * m.contentLength)).take m.contentLength

def Fragmented.count (m : Fragmented) : UInt16 := fragmentCount m.contentLength m.content.length

/-- `create_fragment`: only the first fragment has a next type. -/
def Fragmented.createFragment (m : Fragmented) (num : UInt16) (data : Chunk) : EncryptedFragment :=
  ⟨if num = 1 then m.next else 0, 0, num, m.count, data, []⟩

/-- A fragment is encrypted and written. The first one takes the payloads that are not encrypted. -/
def Fragmented.send (m : Fragmented) (memory : ℕ → UInt8) (aead : Aead) (entropy : Entropy) (num : UInt16)
    (data : Chunk) : Except Status FragmentPacket :=
  match (m.createFragment num data).encrypt aead entropy m.messageId.toNat (m.assoc num.toNat) with
  | .error s => .error s
  | .ok f =>
    .ok ⟨m.messageId, if num = 1 then m.payloads else [], m.assoc num.toNat,
      (generatePayload memory (f.tree aead) (Generator.create memory)).out⟩

/-- The loop of `fragment`, from a number on. -/
def Fragmented.sendAll (m : Fragmented) (memory : ℕ → UInt8) (aead : Aead) (entropy : Entropy) :
    ℕ → List Chunk → Except Status (List FragmentPacket)
  | _, [] => .ok []
  | num, data :: rest =>
    match m.send memory aead entropy (UInt16.ofNat num) data with
    | .error _ => .error .failed
    | .ok packet =>
      match m.sendAll memory aead entropy (num + 1) rest with
      | .error s => .error s
      | .ok packets => .ok (packet :: packets)

/-- `fragment`, for a message that needs it. With as many fragments as the counter can count its loop does not
end. -/
def Fragmented.fragment (m : Fragmented) (memory : ℕ → UInt8) (aead : Aead) (entropy : Entropy) :
    Option (Except Status (List FragmentPacket)) :=
  if m.count = 65535 then none
  else some (m.sendAll memory aead entropy 1 (splitContent m.contentLength m.count.toNat m.content))

/-! ## The receiver -/

/-- A message that has passed its checks, with its fragment payload if it has one. -/
structure Inbound where
  messageId : UInt32
  payloads : List PayloadTree
  fragment : Option EncryptedFragment

/-- What becomes of a packet: its fragment payload is read, checked and decrypted. -/
def FragmentPacket.read (aead : Aead) (p : FragmentPacket) : Option Inbound :=
  match parsePayload .fragment ⟨p.bytes, 0⟩ with
  | none => none
  | some (tree, _) =>
    match (EncryptedFragment.ofTree tree).bind EncryptedFragment.verify with
    | none => none
    | some f =>
      match f.decrypt aead p.assoc with
      | .error _ => none
      | .ok f => some ⟨p.messageId, p.payloads, some f⟩

/-- A message that is being reassembled: its own fields and `fragment_data_t`. -/
structure Defrag where
  messageId : UInt32
  payloads : List PayloadTree
  firstPayload : UInt8
  fragments : Option (List (ℕ × Chunk))
  last : ℕ
  len : ℕ

/-- A message that is complete, with the content of its encrypted payload and the type of the first payload in
it. -/
structure Reassembled where
  messageId : UInt32
  payloads : List PayloadTree
  next : UInt8
  content : Chunk

/-- `message_create_defrag`. -/
def Defrag.create (m : Inbound) : Defrag := ⟨m.messageId, [], 0, none, 0, 0⟩

/-- `reset_defrag`. -/
def Defrag.reset (d : Defrag) : Defrag := { d with fragments := none, last := 0, len := 0 }

/-- `add_fragment`. The number fits the byte that it is kept in. -/
def Defrag.addFragment (maxPacket : ℕ) (d : Defrag) (num : ℕ) (data : Chunk) : Status × Defrag :=
  match Collect.insert num data (d.fragments.getD []) with
  | none => (.needMore, d)
  | some fragments =>
    if d.len + data.length > maxPacket then (.failed, d.reset)
    else (.success, { d with fragments := some fragments, len := d.len + data.length })

/-- The array of fragments begins anew with a larger total. -/
def Defrag.begin (d : Defrag) (total : ℕ) : Defrag :=
  if d.fragments = none ∨ total > d.last then { d.reset with fragments := some [], last := total } else d

/-- What the first fragment brings: the type of the first payload, and the payloads in front of it. -/
def Defrag.takeFirst (d : Defrag) (m : Inbound) (f : EncryptedFragment) : Defrag :=
  if f.number = 1 then { d with firstPayload := f.nextPayload, payloads := d.payloads ++ m.payloads } else d

/-- `merge_fragments` and what follows it. -/
def Defrag.merge (d : Defrag) : Reassembled :=
  ⟨d.messageId, d.payloads, d.firstPayload, ((d.fragments.getD []).map Prod.snd).flatten⟩

/-- `add_fragment_v2`, with `MAX_FRAGMENTS` as 255. -/
def Defrag.addFragmentV2 (maxPacket : ℕ) (d : Defrag) (m : Inbound) : Status × Defrag × Option Reassembled :=
  match m.fragment with
  | none => (.invalidArg, d, none)
  | some f =>
    if d.messageId ≠ m.messageId then (.invalidArg, d, none)
    else if f.total.toNat > 255 then (.failed, d.reset, none)
    else
      match (d.begin f.total.toNat).addFragment maxPacket f.number.toNat f.plain with
      | (.success, d') =>
        if ((d'.takeFirst m f).fragments.getD []).length ≠ f.total.toNat then
          (.needMore, d'.takeFirst m f, none)
        else (.success, (d'.takeFirst m f).reset, some (d'.takeFirst m f).merge)
      | (status, d') => (status, d', none)

section

/- What the SA returns for a message that is complete. -/
variable (processMessage : Reassembled → Status)

/-- `handle_fragment`: the status, what is kept, and the message that is handed over if it is complete. -/
def Defrag.handleFragment (maxPacket : ℕ) (defrag : Option Defrag) (m : Inbound) :
    Status × Option Defrag × Option Reassembled :=
  let defrag := defrag.filter fun d => !decide (d.messageId < m.messageId)
  match m.fragment with
  | none => (.success, defrag, none)
  | some _ =>
    match (defrag.getD (Defrag.create m)).addFragmentV2 maxPacket m with
    | (_, _, some r) => (if processMessage r = .success then .needMore else processMessage r, none, some r)
    | (status, d, none) => (status, some d, none)

/-- What arrives: packets with fragments, and messages of any kind. -/
inductive Arrival where
  | packet (p : FragmentPacket)
  | message (m : Inbound)

/-- An arrival, if it passes its checks. -/
def Arrival.inbound (aead : Aead) : Arrival → Option Inbound
  | packet p => p.read aead
  | message m => some m

/-- The messages that are handed over for a list of arrivals. -/
def reassemble (maxPacket : ℕ) (aead : Aead) : Option Defrag → List Arrival → List Reassembled
  | _, [] => []
  | defrag, a :: as =>
    match a.inbound aead with
    | none => reassemble maxPacket aead defrag as
    | some m =>
      (Defrag.handleFragment processMessage maxPacket defrag m).2.2.toList ++
        reassemble maxPacket aead (Defrag.handleFragment processMessage maxPacket defrag m).2.1 as

end

end Epdg
