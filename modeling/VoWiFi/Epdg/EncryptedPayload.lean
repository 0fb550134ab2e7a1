import VoWiFi.Epdg.Content
import VoWiFi.Lib.Cipher

/-!
# Encrypted payloads

An encrypted payload holds the content of a message behind an initialization vector, with padding and an
integrity check value. The check value covers the message in front of the payload and the payload's own header,
whose length is computed from the payloads on one side and from the encrypted bytes on the other. An encrypted
fragment payload holds a part of the content in the same way.
-/

namespace Epdg

open BitString

/-- `private_aead_t`. -/
structure Aead where
  crypter : Crypter
  signer : Signer

namespace Aead

/-- `encrypt`, in place: the encrypted bytes and the check value behind them. -/
def encrypt (aead : Aead) (plain assoc iv : Chunk) : Option Chunk :=
  match aead.crypter.encrypt iv plain with
  | none => none
  | some crypt => (aead.signer.sign (assoc ++ iv ++ crypt)).map fun sig => crypt ++ sig

/-- `decrypt`, in place. -/
def decrypt (aead : Aead) (encrypted assoc iv : Chunk) : Option Chunk :=
  if aead.signer.size > encrypted.length then none
  else if (encrypted.length - aead.signer.size) % aead.crypter.blockSize ≠ 0 then none
  else
    let crypt := encrypted.take (encrypted.length - aead.signer.size)
    let sig := encrypted.drop (encrypted.length - aead.signer.size)
    if aead.signer.sign (assoc ++ iv ++ crypt) ≠ some sig then none
    else aead.crypter.decrypt iv crypt

end Aead

/-- Where random bytes and initialization vectors come from, if there is a source. A source can fail. -/
structure Entropy where
  rng : Option ((n : ℕ) → Option { c : Chunk // c.length = n })
  ivGen : Option (ℕ → (n : ℕ) → Option { c : Chunk // c.length = n })

/-- `compute_overhead`. -/
def computeOverhead (aead : Aead) (len : ℕ) : ℕ :=
  Padding.size aead.crypter.blockSize len + aead.crypter.ivSize + aead.signer.size

namespace EncryptedPayload

/-- `encrypt_content`. -/
def encryptContent (aead : Aead) (entropy : Entropy) (mid : ℕ) (plain assoc : Chunk) : Except Status Chunk :=
  match entropy.rng, entropy.ivGen with
  | none, _ => .error .notSupported
  | _, none => .error .notSupported
  | some rng, some ivGen =>
    match ivGen mid aead.crypter.ivSize, rng (Padding.size aead.crypter.blockSize plain.length - 1) with
    | some iv, some fill =>
      match aead.encrypt (plain ++ Padding.bytes fill.1) assoc iv.1 with
      | none => .error .failed
      | some crypt => .ok (iv.1 ++ crypt)
    | _, _ => .error .failed

/-- `decrypt_content`. Without any bytes the padding is longer than the text, whatever byte is in front of
it. -/
def decryptContent (aead : Aead) (encrypted assoc : Chunk) : Except Status Chunk :=
  if aead.crypter.ivSize + aead.signer.size > encrypted.length then .error .failed
  else if (encrypted.length - aead.crypter.ivSize - aead.signer.size) % aead.crypter.blockSize ≠ 0 then
    .error .failed
  else
    match aead.decrypt (encrypted.drop aead.crypter.ivSize) assoc (encrypted.take aead.crypter.ivSize) with
    | none => .error .failed
    | some plain =>
      match Padding.strip plain with
      | none => .error .parseError
      | some plain => .ok plain

end EncryptedPayload

/-! ## The encrypted payload -/

/-- `private_encrypted_payload_t`. -/
structure EncryptedPayload where
  aead : Option Aead
  nextPayload : UInt8
  flags : UInt8
  payloads : List PayloadTree
  encrypted : Chunk

namespace EncryptedPayload

/-- `compute_length` and `get_length`: the length is a number of 16 bits. -/
def getLength (this : EncryptedPayload) : UInt16 :=
  if this.encrypted.length ≠ 0 then UInt16.ofNat (this.encrypted.length + 4)
  else
    let length := (this.payloads.map PayloadTree.getLength).sum
    match this.aead with
    | some aead => UInt16.ofNat (length + computeOverhead aead length + 4)
    | none => UInt16.ofNat (length + 4)

/-- `append_header`. -/
def appendHeader (this : EncryptedPayload) (assoc : Chunk) : Chunk :=
  assoc ++ [this.nextPayload, this.flags] ++ beBytes 2 this.getLength.toNat

/-- `add_payload`: the first payload sets the next type, the others that of the one in front of them. -/
def addPayload (this : EncryptedPayload) (p : PayloadTree) : EncryptedPayload :=
  match this.payloads.getLast? with
  | some last =>
    { this with payloads := this.payloads.dropLast ++ [last.setNextType p.kind.type, p.setNextType 0] }
  | none => { this with nextPayload := UInt8.ofNat p.kind.type, payloads := [p.setNextType 0] }

/-- What `generate` does to the payload: the types of the payloads in it. -/
def chained (this : EncryptedPayload) : EncryptedPayload :=
  { this with
    nextPayload := if this.payloads = [] then this.nextPayload else firstType this.payloads
    payloads := setNextTypes this.payloads }

/-- `encrypt`. -/
def encrypt (memory : ℕ → UInt8) (entropy : Entropy) (this : EncryptedPayload) (mid : ℕ) (assoc : Chunk) :
    Status × EncryptedPayload :=
  match this.aead with
  | none => (.invalidState, this)
  | some aead =>
    match encryptContent aead entropy (mid * 2 ^ 32) (generateContent memory this.payloads)
        (this.chained.appendHeader assoc) with
    | .error s => (s, this.chained)
    | .ok encrypted => (.success, { this.chained with encrypted })

/-- `decrypt`. -/
def decrypt (verify : PayloadTree → Bool) (this : EncryptedPayload) (assoc : Chunk) :
    Status × EncryptedPayload :=
  match this.aead with
  | none => (.invalidState, this)
  | some aead =>
    match decryptContent aead this.encrypted (this.appendHeader assoc) with
    | .error s => (s, this)
    | .ok plain =>
      ((parseContent verify this.nextPayload plain).1,
        { this with payloads := this.payloads ++ (parseContent verify this.nextPayload plain).2 })

/-- What `wrap_payloads` does with the payloads to encrypt. -/
def wrap (aead : Aead) (ps : List PayloadTree) : EncryptedPayload :=
  ps.foldl addPayload ⟨some aead, 0, 0, [], []⟩

/-- The payload as it is written: next type, flags, length and the encrypted bytes. -/
def tree (this : EncryptedPayload) : PayloadTree :=
  .node ⟨.encrypted, [⟨.uInt8, this.nextPayload⟩, ⟨.uInt8, this.flags⟩, ⟨.payloadLength, this.getLength⟩,
    ⟨.chunkData, this.encrypted⟩]⟩ []

/-- The payload that was read, with the keys of the reader. -/
def ofTree (aead : Aead) (p : PayloadTree) : Option EncryptedPayload :=
  match p.label.fields with
  | [⟨.uInt8, next⟩, ⟨.uInt8, flags⟩, ⟨.payloadLength, _⟩, ⟨.chunkData, encrypted⟩] =>
    some ⟨some aead, next, flags, [], encrypted⟩
  | _ => none

end EncryptedPayload

/-! ## The encrypted fragment payload -/

/-- `private_encrypted_fragment_payload_t`. -/
structure EncryptedFragment where
  nextPayload : UInt8
  flags : UInt8
  number : UInt16
  total : UInt16
  plain : Chunk
  encrypted : Chunk

namespace EncryptedFragment

/-- `frag_verify`: only the first fragment has a next type. -/
def verify (this : EncryptedFragment) : Option EncryptedFragment :=
  if this.number = 0 ∨ this.total = 0 ∨ this.number > this.total then none
  else if this.number > 1 ∧ this.nextPayload ≠ 0 then some { this with nextPayload := 0 }
  else some this

/-- `frag_get_length`. -/
def getLength (aead : Aead) (this : EncryptedFragment) : UInt16 :=
  if this.encrypted.length ≠ 0 then UInt16.ofNat (this.encrypted.length + 8)
  else UInt16.ofNat (this.plain.length + computeOverhead aead this.plain.length + 8)

/-- `append_header_frag`. -/
def appendHeader (aead : Aead) (this : EncryptedFragment) (assoc : Chunk) : Chunk :=
  assoc ++ [this.nextPayload, this.flags] ++ beBytes 2 (this.getLength aead).toNat ++
    beBytes 2 this.number.toNat ++ beBytes 2 this.total.toNat

/-- `frag_encrypt`, with the fragment number in the lower half of the number for the vector. -/
def encrypt (aead : Aead) (entropy : Entropy) (this : EncryptedFragment) (mid : ℕ) (assoc : Chunk) :
    Except Status EncryptedFragment :=
  match EncryptedPayload.encryptContent aead entropy (mid * 2 ^ 32 + this.number.toNat) this.plain
      (this.appendHeader aead assoc) with
  | .error s => .error s
  | .ok encrypted => .ok { this with encrypted }

/-- `frag_decrypt`. -/
def decrypt (aead : Aead) (this : EncryptedFragment) (assoc : Chunk) : Except Status EncryptedFragment :=
  match EncryptedPayload.decryptContent aead this.encrypted (this.appendHeader aead assoc) with
  | .error s => .error s
  | .ok plain => .ok { this with plain }

/-- The payload as it is written. -/
def tree (aead : Aead) (this : EncryptedFragment) : PayloadTree :=
  .node ⟨.fragment, [⟨.uInt8, this.nextPayload⟩, ⟨.uInt8, this.flags⟩, ⟨.payloadLength, this.getLength aead⟩,
    ⟨.uInt16, this.number⟩, ⟨.uInt16, this.total⟩, ⟨.chunkData, this.encrypted⟩]⟩ []

/-- The payload that was read. -/
def ofTree (p : PayloadTree) : Option EncryptedFragment :=
  match p.label.fields with
  | [⟨.uInt8, next⟩, ⟨.uInt8, flags⟩, ⟨.payloadLength, _⟩, ⟨.uInt16, number⟩, ⟨.uInt16, total⟩,
      ⟨.chunkData, encrypted⟩] => some ⟨next, flags, number, total, [], encrypted⟩
  | _ => none

end EncryptedFragment

end Epdg
