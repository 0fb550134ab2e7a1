import VoWiFi.Epdg.EncryptedPayload
import VoWiFi.Epdg.Proofs.ContentProofs

/-!
# Encrypted payloads are decrypted

Decrypting takes the layers of the encryption off in the opposite order. The header that both sides
authenticate has the same length because the payloads are as long as their headers say.
-/

namespace Epdg

open BitString

/-! ## The layers of the encryption -/

namespace Aead

variable {aead : Aead} {plain assoc iv crypt : Chunk}

theorem length_encrypt (h : aead.encrypt plain assoc iv = some crypt) :
    crypt.length = plain.length + aead.signer.size := by
  rw [encrypt] at h
  split at h
  · cases h
  · next c hc =>
    rw [Option.map_eq_some_iff] at h
    obtain ⟨sig, hsig, rfl⟩ := h
    rw [List.length_append, aead.crypter.length_encrypt hc, aead.signer.length_sign hsig]

theorem decrypt_encrypt (h : aead.encrypt plain assoc iv = some crypt)
    (hblock : plain.length % aead.crypter.blockSize = 0) : aead.decrypt crypt assoc iv = some plain := by
  have hlen := length_encrypt h
  rw [encrypt] at h
  split at h
  · cases h
  · next c hc =>
    rw [Option.map_eq_some_iff] at h
    obtain ⟨sig, hsig, rfl⟩ := h
    have hc' := aead.crypter.length_encrypt hc
    have hsub : (c ++ sig).length - aead.signer.size = c.length := by omega
    rw [decrypt, hsub, List.take_left, List.drop_left, if_neg (by omega), if_neg (by rw [hc']; omega)]
    dsimp only
    rw [if_neg (not_not.2 hsig), aead.crypter.decrypt_encrypt hc]

end Aead

namespace EncryptedPayload

variable {aead : Aead} {entropy : Entropy} {mid : ℕ} {plain assoc e : Chunk}

/-- What was encrypted: a vector, the padded text and a check value. -/
theorem encryptContent_ok (h : encryptContent aead entropy mid plain assoc = .ok e) :
    ∃ iv fill crypt : Chunk, e = iv ++ crypt ∧ iv.length = aead.crypter.ivSize ∧
      fill.length = Padding.size aead.crypter.blockSize plain.length - 1 ∧
      aead.encrypt (plain ++ Padding.bytes fill) assoc iv = some crypt := by
  rw [encryptContent] at h
  split at h
  · cases h
  · cases h
  · split at h
    · next iv fill _ _ =>
      split at h
      · cases h
      · next crypt hcrypt =>
        cases h
        exact ⟨iv.1, fill.1, crypt, rfl, iv.2, fill.2, hcrypt⟩
    · cases h

theorem encryptContent_error {s : Status} (h : encryptContent aead entropy mid plain assoc = .error s) :
    s = .notSupported ∨ s = .failed := by
  rw [encryptContent] at h
  split at h
  · cases h
    exact .inl rfl
  · cases h
    exact .inl rfl
  · split at h
    · split at h
      · cases h
        exact .inr rfl
      · cases h
    · cases h
      exact .inr rfl

theorem length_padded {fill : Chunk}
    (hfill : fill.length = Padding.size aead.crypter.blockSize plain.length - 1) :
    (plain ++ Padding.bytes fill).length =
      plain.length + Padding.size aead.crypter.blockSize plain.length := by
  have := Padding.size_pos aead.crypter.blockSize_pos plain.length
  rw [List.length_append, Padding.length_bytes, hfill]
  omega

theorem length_encryptContent (h : encryptContent aead entropy mid plain assoc = .ok e) :
    e.length = plain.length + computeOverhead aead plain.length := by
  obtain ⟨iv, fill, crypt, rfl, hiv, hfill, hcrypt⟩ := encryptContent_ok h
  rw [List.length_append, hiv, Aead.length_encrypt hcrypt, length_padded hfill, computeOverhead]
  omega

/-- What was encrypted is decrypted, if the length of the padding fits a byte. -/
theorem decryptContent_encryptContent (h : encryptContent aead entropy mid plain assoc = .ok e)
    (hblock : aead.crypter.blockSize ≤ 256) : decryptContent aead e assoc = .ok plain := by
  have hlen := length_encryptContent h
  obtain ⟨iv, fill, crypt, rfl, hiv, hfill, hcrypt⟩ := encryptContent_ok h
  have hpadded := @length_padded aead plain fill hfill
  have hmod := Padding.add_size_mod aead.crypter.blockSize_pos plain.length
  have hcryptLen := Aead.length_encrypt hcrypt
  have hsize := Padding.size_le aead.crypter.blockSize plain.length
  have hpos := Padding.size_pos aead.crypter.blockSize_pos plain.length
  have hover : (iv ++ crypt).length - aead.crypter.ivSize - aead.signer.size =
      plain.length + Padding.size aead.crypter.blockSize plain.length := by
    rw [List.length_append]
    omega
  rw [decryptContent, hover, if_neg (by rw [List.length_append]; omega), if_neg (by omega), ← hiv,
    List.drop_left, List.take_left, Aead.decrypt_encrypt hcrypt (by rw [hpadded, hmod])]
  dsimp only
  rw [Padding.strip_append_bytes plain (by omega)]

end EncryptedPayload

/-! ## Lengths and next types -/

theorem PayloadTree.setNextType_setNextType (p : PayloadTree) (s t : ℕ) :
    (p.setNextType s).setNextType t = p.setNextType t := rfl

theorem PayloadTree.getLength_setNextType {p : PayloadTree} (hkind : p.kind.sendable = true)
    (h : p.WellFormed) (t : ℕ) : (p.setNextType t).getLength = p.getLength := by
  obtain ⟨⟨kind, fields⟩, sub⟩ := p
  obtain ⟨types, hrules⟩ := PayloadKind.sendable_first hkind
  obtain ⟨⟨_, v⟩, fields, rfl, rfl, -⟩ := List.map_eq_cons_iff.1 (h.1.trans hrules)
  rfl

theorem sendable_setNextTypes {ps : List PayloadTree} (h : ∀ p ∈ ps, p.kind.sendable = true) :
    ∀ q ∈ setNextTypes ps, q.kind.sendable = true := by
  intro q hq
  have hmem : q.kind ∈ ps.map PayloadTree.kind := by
    rw [← map_kind_setNextTypes]
    exact List.mem_map_of_mem hq
  obtain ⟨p, hp, hpq⟩ := List.mem_map.1 hmem
  exact hpq ▸ h p hp

theorem length_fieldsOf {ps : List PayloadTree} (hkind : ∀ p ∈ ps, p.kind.sendable = true)
    (hwf : ∀ p ∈ ps, p.WellFormed) :
    (bitsOf (PayloadTree.fieldsOf ps)).length = 8 * (ps.map PayloadTree.getLength).sum := by
  induction ps with
  | nil => rfl
  | cons p ps ih =>
    rw [List.forall_mem_cons] at hkind hwf
    obtain ⟨-, -, -, -, -, hlen, -⟩ := PayloadTree.generic hkind.1 hwf.1
    rw [bitsOf_fieldsOf_cons, List.length_append, hlen, ih hkind.2 hwf.2, List.map_cons, List.sum_cons]
    omega

theorem setNextTypes_setNextTypes (ps : List PayloadTree) :
    setNextTypes (setNextTypes ps) = setNextTypes ps := by
  induction ps using setNextTypes.induct with
  | case1 => rfl
  | case2 p => rfl
  | case3 p q ps ih =>
    -- the head of what is behind the first payload has the kind of the second one
    have hkinds := map_kind_setNextTypes (q :: ps)
    rw [List.map_cons] at hkinds
    obtain ⟨q', qs, hqs, hkind, -⟩ := List.map_eq_cons_iff.1 hkinds
    rw [setNextTypes, hqs, setNextTypes, ← hqs, ih, hkind, PayloadTree.setNextType_setNextType]

theorem generateContent_setNextTypes (memory : ℕ → UInt8) (ps : List PayloadTree) :
    generateContent memory (setNextTypes ps) = generateContent memory ps := by
  rw [generateContent, setNextTypes_setNextTypes, generateContent]

theorem firstType_setNextTypes (ps : List PayloadTree) : firstType (setNextTypes ps) = firstType ps := by
  induction ps using setNextTypes.induct with
  | case1 => rfl
  | case2 p => rfl
  | case3 p q ps ih => rfl

/-- The content is as long as the payloads say if no value is left out. -/
theorem length_generateContent {memory : ℕ → UInt8} {ps : List PayloadTree}
    (hkind : ∀ p ∈ ps, p.kind.sendable = true) (hwf : ∀ p ∈ ps, p.WellFormed)
    (hw : ValuesWritten false (PayloadTree.fieldsOf ps)) :
    (generateContent memory ps).length = ((setNextTypes ps).map PayloadTree.getLength).sum := by
  have hwf' := wellFormed_setNextTypes hkind hwf
  have hrun := fieldsOf_aligned fun q hq => PayloadTree.aligned (hwf' q hq)
  have hout := congrArg List.length
    (@ofBytes_out_generate memory _ hrun ((valuesWritten_setNextTypes hkind hwf false).2 hw))
  rw [length_ofBytes, ← generateContent_eq, length_fieldsOf (sendable_setNextTypes hkind) hwf'] at hout
  omega

/-! ## Adding payloads -/

theorem setNextTypes_ne_nil {ps : List PayloadTree} (h : ps ≠ []) : setNextTypes ps ≠ [] := by
  intro hnil
  have := map_kind_setNextTypes ps
  rw [hnil] at this
  exact h (List.map_eq_nil_iff.1 this.symm)

theorem setNextTypes_concat {ps : List PayloadTree} (p last : PayloadTree)
    (hlast : (setNextTypes ps).getLast? = some last) :
    setNextTypes (ps ++ [p]) =
      (setNextTypes ps).dropLast ++ [last.setNextType p.kind.type, p.setNextType 0] := by
  induction ps using setNextTypes.induct with
  | case1 => cases hlast
  | case2 q =>
    cases hlast
    rfl
  | case3 q r ps ih =>
    have hne : setNextTypes (r :: ps) ≠ [] := setNextTypes_ne_nil (List.cons_ne_nil r ps)
    rw [setNextTypes, List.getLast?_cons_of_ne_nil hne] at hlast
    rw [List.cons_append, List.cons_append, setNextTypes, ← List.cons_append, ih hlast, setNextTypes,
      List.dropLast_cons_of_ne_nil hne, List.cons_append]

theorem EncryptedPayload.wrap_eq (aead : Aead) (ps : List PayloadTree) :
    wrap aead ps = ⟨some aead, firstType ps, 0, setNextTypes ps, []⟩ := by
  induction ps using List.reverseRecOn with
  | nil => rfl
  | append_singleton ps p ih =>
    rw [wrap, List.foldl_append, ← wrap, ih, List.foldl_cons, List.foldl_nil, addPayload]
    split
    · next last hlast =>
      have hne : ps ≠ [] := by
        rintro rfl
        cases hlast
      obtain ⟨q, qs, rfl⟩ := List.exists_cons_of_ne_nil hne
      rw [setNextTypes_concat p last hlast]
      rfl
    · next hnone =>
      obtain rfl : ps = [] := by
        by_contra hne
        exact setNextTypes_ne_nil hne (List.getLast?_eq_none_iff.1 hnone)
      rfl

/-! ## The whole payload -/

namespace EncryptedPayload

theorem chained_wrap (aead : Aead) (ps : List PayloadTree) : (wrap aead ps).chained = wrap aead ps := by
  rw [wrap_eq, chained, setNextTypes_setNextTypes, firstType_setNextTypes, ite_self]

variable {memory : ℕ → UInt8} {entropy : Entropy} {verify : PayloadTree → Bool} {aead : Aead} {mid : ℕ}
  {assoc : Chunk} {this : EncryptedPayload} {ps : List PayloadTree}

/-- What an encryption that succeeds leaves behind. -/
theorem encrypt_wrap (h : (wrap aead ps).encrypt memory entropy mid assoc = (.success, this)) :
    ∃ e, encryptContent aead entropy (mid * 2 ^ 32) (generateContent memory ps)
        ((wrap aead ps).appendHeader assoc) = .ok e ∧
      this = ⟨some aead, firstType ps, 0, setNextTypes ps, e⟩ := by
  rw [encrypt, chained_wrap, wrap_eq] at h
  dsimp only at h
  rw [generateContent_setNextTypes] at h
  split at h
  · next s hs =>
    cases h
    rcases encryptContent_error hs with hs | hs <;> cases hs
  · next e he =>
    cases h
    exact ⟨e, by rw [wrap_eq, he], rfl⟩

/-- Both sides authenticate the same header. -/
theorem appendHeader_eq {e : Chunk} (hkind : ∀ p ∈ ps, p.kind.sendable = true) (hwf : ∀ p ∈ ps, p.WellFormed)
    (hw : ValuesWritten false (PayloadTree.fieldsOf ps))
    (h : e.length = (generateContent memory ps).length +
      computeOverhead aead (generateContent memory ps).length) :
    appendHeader ⟨some aead, firstType ps, 0, [], e⟩ assoc = (wrap aead ps).appendHeader assoc := by
  have hpos : e.length ≠ 0 := by
    have := Padding.size_pos aead.crypter.blockSize_pos (generateContent memory ps).length
    rw [computeOverhead] at h
    omega
  rw [wrap_eq, appendHeader, appendHeader, getLength, getLength]
  dsimp only
  rw [if_pos hpos, if_neg (by simp), h, length_generateContent hkind hwf hw]

theorem decrypt_encrypt_wrap (hkind : ∀ p ∈ ps, p.kind.sendable = true) (hwf : ∀ p ∈ ps, p.WellFormed)
    (hverify : ∀ q ∈ setNextTypes ps, verify q = true) (hw : ValuesWritten false (PayloadTree.fieldsOf ps))
    (hblock : aead.crypter.blockSize ≤ 256)
    (h : (wrap aead ps).encrypt memory entropy mid assoc = (.success, this)) :
    decrypt verify ⟨some aead, this.nextPayload, this.flags, [], this.encrypted⟩ assoc = (.success, this) := by
  obtain ⟨e, he, rfl⟩ := encrypt_wrap h
  have hread := (@read_back_iff memory verify ps hkind hwf hverify).2 hw
  rw [decrypt]
  dsimp only
  rw [appendHeader_eq hkind hwf hw (length_encryptContent he), decryptContent_encryptContent he hblock]
  dsimp only
  rw [hread, List.nil_append]

/-- A payload whose length fits is well-formed. -/
theorem wellFormed_tree (hne : this.encrypted ≠ []) (hlen : this.encrypted.length + 4 < 2 ^ 16) :
    this.tree.WellFormed := by
  have hget : this.getLength.toNat = this.encrypted.length + 4 := by
    rw [getLength, if_pos fun h => hne (List.length_eq_zero_iff.1 h), UInt16.toNat_ofNat',
      Nat.mod_eq_of_lt hlen]
  refine ⟨rfl, ⟨trivial, trivial, ?_, ?_, trivial⟩, fun h => absurd h Bool.false_ne_true, trivial⟩
  · show 4 ≤ this.getLength.toNat
    omega
  · show 4 + this.encrypted.length = this.getLength.toNat
    omega

/-- A transform that does nothing, with check values of a single byte. -/
def nullAead : Aead where
  crypter :=
    { blockSize := 4, ivSize := 2, encrypt := fun _ p => some p, decrypt := fun _ c => some c,
      blockSize_pos := by decide, length_encrypt := fun h => by cases h; rfl,
      decrypt_encrypt := fun h => by cases h; rfl }
  signer := { size := 1, sign := fun _ => some [0], length_sign := fun h => by cases h; rfl }

/-- Bytes that are all zero. -/
def zeroEntropy : Entropy where
  rng := some fun n => some ⟨List.replicate n 0, List.length_replicate⟩
  ivGen := some fun _ n => some ⟨List.replicate n 0, List.length_replicate⟩

/-- A message with a security association and a configuration, encrypted. -/
def encryptedExample : Status × EncryptedPayload :=
  (wrap nullAead (orderPayloads ikeAuthIOrder [shortSa, addressRequest])).encrypt (fun _ => 0) zeroEntropy 1 []

end EncryptedPayload

end Epdg
