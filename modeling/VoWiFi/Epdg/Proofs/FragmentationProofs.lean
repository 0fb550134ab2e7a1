import VoWiFi.Epdg.Fragmentation
import VoWiFi.Epdg.Proofs.EncryptedPayloadProofs

/-!
# Fragments are reassembled

The fragments that are sent together have the whole content, and each of them is read as it was sent. The
receiver does what a collector does, whatever else arrives between the fragments, so that it hands the message
over exactly if every fragment has arrived.
-/

namespace Epdg

open BitString

/-! ## The parts of a content -/

theorem splitContent_eq (contentLength n : ℕ) (data : Chunk) :
    splitContent contentLength n data =
      (List.range n).map fun i => (data.drop (i * contentLength)).take contentLength := by
  induction n generalizing data with
  | zero => rfl
  | succ n ih =>
    rw [splitContent, ih, List.range_succ_eq_map, List.map_cons, List.map_map]
    congr 1
    · rw [Nat.zero_mul, List.drop_zero]
    · refine List.map_congr_left fun i _ => ?_
      rw [List.drop_drop, Function.comp_apply, Nat.succ_mul, Nat.add_comm]

theorem flatten_parts (contentLength n : ℕ) (data : Chunk) :
    ((List.range n).map fun i => (data.drop (i * contentLength)).take contentLength).flatten =
      data.take (n * contentLength) := by
  induction n with
  | zero => rw [Nat.zero_mul, List.take_zero]; rfl
  | succ n ih =>
    rw [List.range_succ, List.map_append, List.flatten_append, ih, List.map_singleton, List.flatten_singleton,
      Nat.succ_mul, List.take_add]

/-- Enough fragments for the whole content. -/
theorem length_le_count_mul {contentLength length : ℕ} (hpos : 0 < contentLength) :
    length ≤ (length / contentLength + if length % contentLength ≠ 0 then 1 else 0) * contentLength := by
  have hdiv := Nat.div_add_mod length contentLength
  have hlt := Nat.mod_lt length hpos
  rw [Nat.add_mul, Nat.mul_comm (length / contentLength)]
  split
  · rw [Nat.one_mul]
    omega
  · omega

namespace Fragmented

variable {m : Fragmented}

theorem flatten_pieces (hpos : 0 < m.contentLength)
    (hcount : m.content.length / m.contentLength + 1 < 2 ^ 16) :
    ((List.range' 1 m.count.toNat).map m.piece).flatten = m.content := by
  have hle := @length_le_count_mul m.contentLength m.content.length hpos
  have hn : m.count.toNat = m.content.length / m.contentLength +
      if m.content.length % m.contentLength ≠ 0 then 1 else 0 := by
    rw [count, fragmentCount, UInt16.toNat_ofNat', Nat.mod_eq_of_lt]
    split <;> omega
  have hrange : (List.range' 1 m.count.toNat).map m.piece =
      (List.range m.count.toNat).map fun i => (m.content.drop (i * m.contentLength)).take m.contentLength := by
    rw [List.range'_eq_map_range, List.map_map]
    refine List.map_congr_left fun i _ => ?_
    rw [Function.comp_apply, piece, Nat.add_sub_cancel_left]
  rw [hrange, flatten_parts, hn, List.take_of_length_le hle]

theorem length_piece_le (num : ℕ) : (m.piece num).length ≤ m.contentLength := by
  rw [piece, List.length_take]
  exact Nat.min_le_left _ _

end Fragmented

/-! ## A fragment is read as it was sent -/

namespace EncryptedFragment

variable {aead : Aead} {entropy : Entropy} {mid : ℕ} {assoc : Chunk} {f f' : EncryptedFragment}

theorem encrypt_ok (h : f.encrypt aead entropy mid assoc = .ok f') :
    ∃ e, EncryptedPayload.encryptContent aead entropy (mid * 2 ^ 32 + f.number.toNat) f.plain
      (f.appendHeader aead assoc) = .ok e ∧ f' = { f with encrypted := e } := by
  rw [encrypt] at h
  split at h
  · cases h
  · next e he =>
    cases h
    exact ⟨e, he, rfl⟩

theorem computeOverhead_pos (aead : Aead) (n : ℕ) : 0 < computeOverhead aead n := by
  have := Padding.size_pos aead.crypter.blockSize_pos n
  rw [computeOverhead]
  omega

/-- Both sides authenticate the same header. -/
theorem appendHeader_eq {e plain : Chunk} (hnew : f.encrypted = [])
    (h : e.length = f.plain.length + computeOverhead aead f.plain.length) :
    appendHeader aead { f with plain, encrypted := e } assoc = f.appendHeader aead assoc := by
  have hpos := computeOverhead_pos aead f.plain.length
  rw [appendHeader, appendHeader, getLength, getLength]
  dsimp only
  rw [if_pos (by omega), if_neg (by simp [hnew]), h]

theorem decrypt_encrypt {plain : Chunk} (hnew : f.encrypted = []) (hblock : aead.crypter.blockSize ≤ 256)
    (h : f.encrypt aead entropy mid assoc = .ok f') :
    decrypt aead { f' with plain } assoc = .ok { f' with plain := f.plain } := by
  obtain ⟨e, he, rfl⟩ := encrypt_ok h
  have hlen := EncryptedPayload.length_encryptContent he
  rw [decrypt]
  dsimp only
  rw [appendHeader_eq hnew hlen, EncryptedPayload.decryptContent_encryptContent he hblock]

theorem wellFormed_tree (hne : f.encrypted ≠ []) (hlen : f.encrypted.length + 8 < 2 ^ 16) :
    (f.tree aead).WellFormed := by
  have hget : (f.getLength aead).toNat = f.encrypted.length + 8 := by
    rw [getLength, if_pos fun h => hne (List.length_eq_zero_iff.1 h), UInt16.toNat_ofNat',
      Nat.mod_eq_of_lt hlen]
  refine ⟨rfl, ⟨trivial, trivial, ?_, trivial, trivial, ?_, trivial⟩,
    fun h => absurd h Bool.false_ne_true, trivial⟩
  · show 4 ≤ (f.getLength aead).toNat
    omega
  · show 8 + f.encrypted.length = (f.getLength aead).toNat
    omega

/-- The checks of a fragment that was created. -/
theorem verify_eq (hpos : f.number ≠ 0) (hle : f.number ≤ f.total) (hnext : f.number ≠ 1 → f.nextPayload = 0) :
    f.verify = some f := by
  have htotal : f.total ≠ 0 := by
    intro h
    rw [h] at hle
    exact hpos (UInt16.le_antisymm hle (UInt16.zero_le))
  rw [verify, if_neg (by simp [hpos, htotal, hle]), if_neg ?_]
  rintro ⟨hgt, hne⟩
  exact hne (hnext (UInt16.ne_of_lt hgt).symm)

end EncryptedFragment

/-! ## What is sent -/

/-- A fragment of a message, as it is read. -/
def Fragmented.inbound (m : Fragmented) (num : UInt16) (encrypted : Chunk) : Inbound :=
  ⟨m.messageId, if num = 1 then m.payloads else [],
    some ⟨if num = 1 then m.next else 0, 0, num, m.count, m.piece num.toNat, encrypted⟩⟩

section

variable {m : Fragmented} {memory : ℕ → UInt8} {aead : Aead} {entropy : Entropy}

theorem Fragmented.read_send {num : UInt16} {packet : FragmentPacket} (hblock : aead.crypter.blockSize ≤ 256)
    (hsize : m.contentLength + computeOverhead aead (m.piece num.toNat).length + 8 < 2 ^ 16)
    (hpos : num ≠ 0) (hle : num ≤ m.count)
    (h : m.send memory aead entropy num (m.piece num.toNat) = .ok packet) :
    ∃ e, packet.read aead = some (m.inbound num e) := by
  rw [send] at h
  split at h
  · cases h
  · next f hf =>
    cases h
    have hdecrypt := @EncryptedFragment.decrypt_encrypt _ _ _ _ _ _ [] rfl hblock hf
    obtain ⟨e, he, rfl⟩ := EncryptedFragment.encrypt_ok hf
    have hlen := EncryptedPayload.length_encryptContent he
    have hpiece := @length_piece_le m num.toNat
    have hover := EncryptedFragment.computeOverhead_pos aead (m.piece num.toNat).length
    replace hlen : e.length = (m.piece num.toNat).length + computeOverhead aead (m.piece num.toNat).length :=
      hlen
    have hwf : (EncryptedFragment.tree aead
        { m.createFragment num (m.piece num.toNat) with encrypted := e }).WellFormed := by
      refine EncryptedFragment.wellFormed_tree (fun hnil => ?_) (by show e.length + 8 < _; omega)
      have hnil : e = [] := hnil
      rw [hnil, List.length_nil] at hlen
      omega
    have hparse := @parsePayload_generatePayload memory _ hwf []
    rw [List.append_nil] at hparse
    refine ⟨e, ?_⟩
    rw [FragmentPacket.read]
    dsimp only
    have hkind : PayloadTree.kind (EncryptedFragment.tree aead
      { m.createFragment num (m.piece num.toNat) with encrypted := e }) = .fragment := rfl
    rw [← hkind, hparse]
    dsimp only
    have hof : EncryptedFragment.ofTree (EncryptedFragment.tree aead
        { m.createFragment num (m.piece num.toNat) with encrypted := e }) =
        some { m.createFragment num (m.piece num.toNat) with plain := [], encrypted := e } := rfl
    have hverify : EncryptedFragment.verify
        { m.createFragment num (m.piece num.toNat) with plain := [], encrypted := e } =
        some { m.createFragment num (m.piece num.toNat) with plain := [], encrypted := e } :=
      EncryptedFragment.verify_eq hpos hle fun hne => if_neg hne
    rw [hof, Option.bind_some, hverify]
    dsimp only
    rw [hdecrypt]
    rfl

/-- The loop has sent every part, one after the other. -/
theorem Fragmented.sendAll_ok {start : ℕ} {parts : List Chunk} {packets : List FragmentPacket}
    (h : m.sendAll memory aead entropy start parts = .ok packets) :
    packets.length = parts.length ∧ ∀ i packet, packets[i]? = some packet →
      ∃ part, parts[i]? = some part ∧
        m.send memory aead entropy (UInt16.ofNat (start + i)) part = .ok packet := by
  induction parts generalizing start packets with
  | nil =>
    cases h
    exact ⟨rfl, fun i packet hi => by cases hi⟩
  | cons data parts ih =>
    rw [sendAll] at h
    split at h
    · cases h
    · next packet hpacket =>
      split at h
      · cases h
      · next rest hrest =>
        cases h
        obtain ⟨hlen, hsent⟩ := ih hrest
        refine ⟨congrArg (· + 1) hlen, fun i packet' hi => ?_⟩
        cases i with
        | zero =>
          cases hi
          exact ⟨data, rfl, hpacket⟩
        | succ i =>
          obtain ⟨part, hpart, hsend⟩ := hsent i packet' hi
          refine ⟨part, hpart, ?_⟩
          rwa [Nat.add_assoc, Nat.add_comm 1 i] at hsend

/-- What the fragments of a message are read as. -/
theorem Fragmented.fragment_ok {packets : List FragmentPacket} (hblock : aead.crypter.blockSize ≤ 256)
    (hsize : ∀ n, m.contentLength + computeOverhead aead n + 8 < 2 ^ 16)
    (h : m.fragment memory aead entropy = some (.ok packets)) :
    packets.length = m.count.toNat ∧ ∀ i packet, packets[i]? = some packet →
      ∃ e, packet.read aead = some (m.inbound (UInt16.ofNat (1 + i)) e) := by
  rw [fragment] at h
  split at h
  · cases h
  · obtain ⟨hlen, hsent⟩ := sendAll_ok (Option.some.inj h)
    rw [splitContent_eq, List.length_map, List.length_range] at hlen
    refine ⟨hlen, fun i packet hi => ?_⟩
    obtain ⟨part, hpart, hsend⟩ := hsent i packet hi
    have hi' : i < m.count.toNat := hlen ▸ (List.getElem?_eq_some_iff.1 hi).1
    have hcount : m.count.toNat < 2 ^ 16 := m.count.toNat_lt
    have hnum : (UInt16.ofNat (1 + i)).toNat = 1 + i := by
      rw [UInt16.toNat_ofNat', Nat.mod_eq_of_lt (by omega)]
    obtain rfl : part = m.piece (UInt16.ofNat (1 + i)).toNat := by
      rw [splitContent_eq, List.getElem?_map, List.getElem?_range hi', Option.map_some] at hpart
      rw [hnum, piece, Nat.add_sub_cancel_left]
      exact (Option.some.inj hpart).symm
    refine read_send hblock (hsize _) (fun hzero => ?_) ?_ hsend
    · rw [hzero] at hnum
      have hnum : 0 = 1 + i := hnum
      omega
    · rw [UInt16.le_iff_toNat_le, hnum]
      omega

end

/-! ## The receiver is a collector -/

/-- The state of the receiver holds some fragments of a message. -/
structure Defrag.Holds (m : Fragmented) (l : List (ℕ × Chunk)) (d : Defrag) : Prop where
  messageId : d.messageId = m.messageId
  fragments : d.fragments = some l
  last : d.last = m.count.toNat
  len : d.len = (l.map fun e => e.2.length).sum
  payloads : d.payloads = if 1 ∈ l.map Prod.fst then m.payloads else []
  first : 1 ∈ l.map Prod.fst → d.firstPayload = m.next

/-- The receiver has the fragments of a message that a collector has. Without any it has nothing, or something
of an earlier message. -/
def Collects (m : Fragmented) (l : List (ℕ × Chunk)) (defrag : Option Defrag) : Prop :=
  (l = [] ∧ ∀ d, defrag = some d → d.messageId < m.messageId) ∨
    (l ≠ [] ∧ ∃ d, defrag = some d ∧ d.Holds m l)

/-- The message that is handed over for its parts. -/
def Fragmented.reassembled (m : Fragmented) (parts : List Chunk) : Reassembled :=
  ⟨m.messageId, m.payloads, m.next, parts.flatten⟩

section

variable {m : Fragmented} {maxPacket : ℕ} {l : List (ℕ × Chunk)} {d : Defrag}

/-- The state in which a fragment is added. -/
theorem Collects.begin_holds {defrag : Option Defrag} {i : Inbound} (h : Collects m l defrag)
    (hid : i.messageId = m.messageId) :
    (((defrag.filter fun d => !decide (d.messageId < i.messageId)).getD (Defrag.create i)).begin
      m.count.toNat).Holds m l := by
  rcases h with ⟨rfl, hsmall⟩ | ⟨-, d, rfl, hd⟩
  · have hnone : (defrag.filter fun d => !decide (d.messageId < i.messageId)) = none := by
      cases defrag with
      | none => rfl
      | some d =>
        rw [Option.filter_some, if_neg]
        simp [hid, hsmall d rfl]
    rw [hnone, Option.getD_none, Defrag.begin, if_pos (.inl rfl)]
    exact ⟨hid, rfl, rfl, rfl, rfl, fun h => by cases h⟩
  · have hkeep : ((some d).filter fun d => !decide (d.messageId < i.messageId)) = some d := by
      rw [Option.filter_some, if_pos]
      simp [hid, hd.messageId]
    rw [hkeep, Option.getD_some, Defrag.begin, if_neg]
    · exact hd
    · rw [hd.fragments, hd.last]
      simp

/-- There is room for a part that is not there yet. -/
theorem Defrag.Holds.room {k : ℕ} {l' : List (ℕ × Chunk)} (hd : d.Holds m l)
    (hkeeps : Collect.Keeps m.count.toNat m.piece l) (hk : k ∈ List.range' 1 m.count.toNat)
    (hins : Collect.insert k (m.piece k) l = some l')
    (htotal : ((List.range' 1 m.count.toNat).map fun i => (m.piece i).length).sum ≤ maxPacket) :
    d.len + (m.piece k).length ≤ maxPacket ∧
      d.len + (m.piece k).length = (l'.map fun e => e.2.length).sum := by
  have hperm := Collect.insert_perm hins
  have hsum : d.len + (m.piece k).length = (l'.map fun e => e.2.length).sum := by
    rw [(hperm.map _).sum_eq, List.map_cons, List.sum_cons, hd.len, Nat.add_comm]
  have hpart : ∀ e ∈ l', e.1 ∈ List.range' 1 m.count.toNat ∧ e.2 = m.piece e.1 := by
    intro e he
    rcases List.mem_cons.1 (hperm.mem_iff.1 he) with rfl | he
    · exact ⟨hk, rfl⟩
    · exact hkeeps.part e he
  have hsizes : (l'.map fun e => e.2.length) = l'.map fun e => (m.piece e.1).length :=
    List.map_congr_left fun e he => by rw [(hpart e he).2]
  refine ⟨?_, hsum⟩
  rw [hsum, hsizes]
  exact le_trans (@Collect.sum_le _ _ (fun i => (m.piece i).length) _
    (Collect.insert_sorted hkeeps.sorted hins) fun e he => (hpart e he).1) htotal

/-- The state after a part was added. -/
theorem Defrag.Holds.takeFirst {num : UInt16} {e : Chunk} {f : EncryptedFragment} {l' : List (ℕ × Chunk)}
    (hd : d.Holds m l) (hf : (m.inbound num e).fragment = some f)
    (hins : Collect.insert num.toNat (m.piece num.toNat) l = some l') (hs : Collect.Sorted l) {len : ℕ}
    (hlen : len = (l'.map fun e => e.2.length).sum) :
    (Defrag.takeFirst { d with fragments := some l', len } (m.inbound num e) f).Holds m l' := by
  have hkeys := (Collect.insert_perm hins).map Prod.fst
  have hnew : num.toNat ∉ l.map Prod.fst := by
    intro hmem
    rw [(Collect.insert_eq_none_iff hs).2 hmem] at hins
    cases hins
  have hone : (1 ∈ l'.map Prod.fst) ↔ num = 1 ∨ 1 ∈ l.map Prod.fst := by
    rw [hkeys.mem_iff, List.map_cons, List.mem_cons]
    refine or_congr_left ⟨fun h => UInt16.toNat_inj.1 h.symm, ?_⟩
    rintro rfl
    rfl
  cases hf
  rw [Defrag.takeFirst]
  by_cases hnum : num = 1
  · subst hnum
    have hnot : 1 ∉ l.map Prod.fst := hnew
    refine ⟨hd.messageId, rfl, hd.last, hlen, ?_, fun _ => rfl⟩
    show d.payloads ++ m.payloads = _
    rw [hd.payloads, if_neg hnot, List.nil_append, if_pos (hone.2 (.inl rfl))]
  · dsimp only
    rw [if_neg hnum]
    refine ⟨hd.messageId, rfl, hd.last, hlen, ?_, fun h => hd.first ((hone.1 h).resolve_left hnum)⟩
    show d.payloads = _
    rw [hd.payloads]
    refine if_congr ?_ rfl rfl
    rw [hone, or_iff_right hnum]

theorem Defrag.messageId_begin (d : Defrag) (total : ℕ) : (d.begin total).messageId = d.messageId := by
  rw [Defrag.begin]
  split <;> rfl

/-- The receiver does with a fragment what a collector does. -/
theorem handleFragment_inbound (processMessage : Reassembled → Status) {defrag : Option Defrag} {num : UInt16}
    {e : Chunk} (hcount : m.count.toNat ≤ 255)
    (htotal : ((List.range' 1 m.count.toNat).map fun i => (m.piece i).length).sum ≤ maxPacket)
    (h : Collects m l defrag) (hkeeps : Collect.Keeps m.count.toNat m.piece l)
    (hnum : num.toNat ∈ List.range' 1 m.count.toNat) :
    (Defrag.handleFragment processMessage maxPacket defrag (m.inbound num e)).2.2 =
        (Collect.step m.count.toNat m.piece l num.toNat).2.map m.reassembled ∧
      Collects m (Collect.step m.count.toNat m.piece l num.toNat).1
        (Defrag.handleFragment processMessage maxPacket defrag (m.inbound num e)).2.1 := by
  have hd := @Collects.begin_holds m l defrag (m.inbound num e) h rfl
  rw [Defrag.handleFragment]
  generalize (defrag.filter fun d => !decide (d.messageId < (m.inbound num e).messageId)).getD
    (Defrag.create (m.inbound num e)) = d at hd
  have hid : d.messageId = (m.inbound num e).messageId := (d.messageId_begin _).symm.trans hd.messageId
  obtain ⟨f, hf, hftotal, hfnum, hfplain⟩ : ∃ f, (m.inbound num e).fragment = some f ∧ f.total = m.count ∧
      f.number = num ∧ f.plain = m.piece num.toNat := ⟨_, rfl, rfl, rfl, rfl⟩
  rw [hf, Defrag.addFragmentV2, hf]
  dsimp only
  rw [if_neg (not_not.2 hid), hftotal, if_neg (Nat.not_lt.2 hcount), hfnum, hfplain, Defrag.addFragment,
    hd.fragments, Option.getD_some]
  rcases Collect.step_cases hkeeps hnum with
    ⟨hstep, hmem⟩ | ⟨l', hstep, hins, hne, -, hperm⟩ | ⟨l', hstep, hins, hlen, hall, hperm, hevery⟩
  · rw [hstep, (Collect.insert_eq_none_iff hkeeps.sorted).2 hmem]
    refine ⟨rfl, .inr ⟨?_, _, rfl, hd⟩⟩
    rintro rfl
    cases hmem
  · obtain ⟨hroom, hsum⟩ := hd.room hkeeps hnum hins htotal
    have hholds := hd.takeFirst hf hins hkeeps.sorted hsum
    rw [hstep, hins]
    dsimp only
    rw [if_neg (Nat.not_lt.2 hroom)]
    dsimp only
    rw [hholds.fragments, Option.getD_some, if_pos hne]
    refine ⟨rfl, .inr ⟨?_, _, rfl, hholds⟩⟩
    rintro rfl
    have := hperm.length_eq
    cases this
  · obtain ⟨hroom, hsum⟩ := hd.room hkeeps hnum hins htotal
    have hholds := hd.takeFirst hf hins hkeeps.sorted hsum
    rw [hstep, hins]
    dsimp only
    rw [if_neg (Nat.not_lt.2 hroom)]
    dsimp only
    rw [hholds.fragments, Option.getD_some, if_neg (not_not.2 hlen)]
    refine ⟨congrArg some ?_, .inl ⟨rfl, fun d hd => by cases hd⟩⟩
    have hone : 1 ∈ l'.map Prod.fst := by
      refine (hperm.map Prod.fst).mem_iff.2 (hevery 1 ?_)
      rw [List.mem_range'_1] at hnum ⊢
      omega
    rw [Defrag.merge, hholds.messageId, hholds.payloads, hholds.fragments, hholds.first hone, if_pos hone,
      Option.getD_some, hall]
    rfl

theorem Defrag.messageId_addFragment (d : Defrag) (num : ℕ) (data : Chunk) :
    (d.addFragment maxPacket num data).2.messageId = d.messageId := by
  rw [Defrag.addFragment]
  split
  · rfl
  · split <;> rfl

theorem Defrag.messageId_takeFirst (d : Defrag) (i : Inbound) (f : EncryptedFragment) :
    (d.takeFirst i f).messageId = d.messageId := by
  rw [Defrag.takeFirst]
  split <;> rfl

/-- A message keeps its ID while it is reassembled. -/
theorem Defrag.messageId_addFragmentV2 (d : Defrag) (i : Inbound) :
    (d.addFragmentV2 maxPacket i).2.1.messageId = d.messageId ∧
      ∀ r, (d.addFragmentV2 maxPacket i).2.2 = some r → r.messageId = d.messageId := by
  rw [Defrag.addFragmentV2]
  split
  · exact ⟨rfl, fun r hr => by cases hr⟩
  · next f _ =>
    split
    · exact ⟨rfl, fun r hr => by cases hr⟩
    · split
      · exact ⟨rfl, fun r hr => by cases hr⟩
      · have hid := @messageId_addFragment maxPacket (d.begin f.total.toNat) f.number.toNat f.plain
        rw [messageId_begin] at hid
        split
        · next d' hd' =>
          rw [hd'] at hid
          split
          · exact ⟨(messageId_takeFirst _ _ _).trans hid, fun r hr => by cases hr⟩
          · refine ⟨(messageId_takeFirst _ _ _).trans hid, fun r hr => ?_⟩
            cases hr
            exact (messageId_takeFirst _ _ _).trans hid
        · next d' _ hd' =>
          rw [hd'] at hid
          exact ⟨hid, fun r hr => by cases hr⟩

/-- A message that cannot be a fragment of `m`: one with a smaller ID, or one without a fragment. -/
def Inbound.Foreign (m : Fragmented) (i : Inbound) : Prop :=
  i.messageId < m.messageId ∨ (i.messageId = m.messageId ∧ i.fragment = none)

/-- Such messages do not disturb the collection. -/
theorem handleFragment_foreign (processMessage : Reassembled → Status) {defrag : Option Defrag} {i : Inbound}
    (h : Collects m l defrag) (hi : i.Foreign m) :
    Collects m l (Defrag.handleFragment processMessage maxPacket defrag i).2.1 ∧
      ∀ r, (Defrag.handleFragment processMessage maxPacket defrag i).2.2 = some r → r.messageId ≠ m.messageId := by
  have hle : ¬ m.messageId < i.messageId := by
    rcases hi with hlt | ⟨heq, -⟩
    · exact UInt32.lt_asymm hlt
    · rw [heq]
      exact UInt32.lt_irrefl _
  rw [Defrag.handleFragment]
  rcases h with ⟨rfl, hsmall⟩ | ⟨hne, d, rfl, hd⟩
  · -- whatever is kept or handed over has a smaller ID
    have hfilter (d : Defrag) (hd : defrag.filter (fun d => !decide (d.messageId < i.messageId)) = some d) :
        d.messageId < m.messageId := hsmall d (Option.filter_eq_some_iff.1 hd).1
    split
    · exact ⟨.inl ⟨rfl, hfilter⟩, fun r hr => by cases hr⟩
    · next f hf =>
      have hlt : i.messageId < m.messageId := hi.resolve_right fun hnone => by
        rw [hnone.2] at hf
        cases hf
      have hsmaller : ((defrag.filter fun d => !decide (d.messageId < i.messageId)).getD
          (Defrag.create i)).messageId < m.messageId := by
        cases hopt : defrag.filter fun d => !decide (d.messageId < i.messageId) with
        | none => exact hlt
        | some d => exact hfilter d hopt
      obtain ⟨hkept, hout⟩ := @Defrag.messageId_addFragmentV2 maxPacket
        ((defrag.filter fun d => !decide (d.messageId < i.messageId)).getD (Defrag.create i)) i
      split
      · next r hr =>
        rw [hr] at hout
        refine ⟨.inl ⟨rfl, fun d hd => by cases hd⟩, fun r' hr' => ?_⟩
        cases hr'
        rw [hout r rfl]
        exact UInt32.ne_of_lt hsmaller
      · next d hd =>
        rw [hd] at hkept
        refine ⟨.inl ⟨rfl, fun d' hd' => ?_⟩, fun r hr => by cases hr⟩
        cases hd'
        rw [hkept]
        exact hsmaller
  · have hkeep : ((some d).filter fun d => !decide (d.messageId < i.messageId)) = some d := by
      rw [Option.filter_some, if_pos]
      simp only [hd.messageId, hle, decide_false, Bool.not_false]
    rw [hkeep]
    split
    · exact ⟨.inr ⟨hne, d, rfl, hd⟩, fun r hr => by cases hr⟩
    · next f hf =>
      have hlt : i.messageId < m.messageId := hi.resolve_right fun hnone => by
        rw [hnone.2] at hf
        cases hf
      have hid : d.messageId ≠ i.messageId := hd.messageId ▸ (UInt32.ne_of_lt hlt).symm
      rw [Option.getD_some, Defrag.addFragmentV2, hf]
      dsimp only
      rw [if_pos hid]
      exact ⟨.inr ⟨hne, d, rfl, hd⟩, fun r hr => by cases hr⟩

/-! ## Runs -/

/-- The number of a fragment with an ID, if the arrival is one. -/
def Arrival.number (aead : Aead) (id : UInt32) (a : Arrival) : Option ℕ :=
  match a.inbound aead with
  | none => none
  | some i => if i.messageId = id then i.fragment.map fun f => f.number.toNat else none

/-- An arrival is a fragment of `m`, or has nothing to do with it. -/
def Arrival.Allowed (aead : Aead) (m : Fragmented) (a : Arrival) : Prop :=
  (∃ num e, a.inbound aead = some (m.inbound num e) ∧ num.toNat ∈ List.range' 1 m.count.toNat) ∨
    ∀ i, a.inbound aead = some i → i.Foreign m

theorem Arrival.number_inbound {aead : Aead} {a : Arrival} {num : UInt16} {e : Chunk}
    (h : a.inbound aead = some (m.inbound num e)) : a.number aead m.messageId = some num.toNat := by
  rw [number, h]
  exact if_pos rfl

theorem Arrival.number_foreign {aead : Aead} {a : Arrival}
    (h : ∀ i, a.inbound aead = some i → i.Foreign m) : a.number aead m.messageId = none := by
  rw [number]
  split
  · rfl
  · next i hi =>
    rcases h i hi with hlt | ⟨heq, hnone⟩
    · exact if_neg (UInt32.ne_of_lt hlt)
    · rw [if_pos heq, hnone, Option.map_none]

/-- A run of the receiver is a run of the collector over the fragments of the message. -/
theorem reassemble_eq (processMessage : Reassembled → Status) (aead : Aead) {defrag : Option Defrag}
    {arrivals : List Arrival} (hcount : m.count.toNat ≤ 255)
    (htotal : ((List.range' 1 m.count.toNat).map fun i => (m.piece i).length).sum ≤ maxPacket)
    (h : Collects m l defrag) (hkeeps : Collect.Keeps m.count.toNat m.piece l)
    (hallowed : ∀ a ∈ arrivals, a.Allowed aead m) :
    (reassemble processMessage maxPacket aead defrag arrivals).filter (·.messageId = m.messageId) =
      (Collect.run m.count.toNat m.piece (arrivals.filterMap (Arrival.number aead m.messageId)) l).2.map
        m.reassembled := by
  induction arrivals generalizing defrag l with
  | nil => rfl
  | cons a arrivals ih =>
    rw [List.forall_mem_cons] at hallowed
    rw [reassemble]
    rcases hallowed.1 with ⟨num, e, ha, hnum⟩ | hforeign
    · obtain ⟨hout, hcollects⟩ := handleFragment_inbound processMessage hcount htotal h hkeeps hnum (e := e)
      rw [ha, List.filterMap_cons, Arrival.number_inbound ha]
      dsimp only
      rw [List.filter_append, Collect.run, List.map_append, hout,
        ih hcollects (Collect.step_keeps hkeeps hnum) hallowed.2]
      congr 1
      cases (Collect.step m.count.toNat m.piece l num.toNat).2 with
      | none => rfl
      | some parts => exact List.filter_cons_of_pos (decide_eq_true rfl)
    · rw [List.filterMap_cons, Arrival.number_foreign hforeign]
      split
      · exact ih h hkeeps hallowed.2
      · next i hi =>
        obtain ⟨hcollects, hother⟩ :=
          @handleFragment_foreign m maxPacket l processMessage defrag i h (hforeign i hi)
        rw [List.filter_append, ih hcollects hkeeps hallowed.2]
        cases hr : (Defrag.handleFragment processMessage maxPacket defrag i).2.2 with
        | none => rfl
        | some r =>
          rw [Option.toList_some, List.filter_cons_of_neg (by simp [hother r hr])]
          rfl

/-- The fragments of a message, and nothing else, count as its fragments. -/
theorem mem_number_iff {aead : Aead} {arrivals : List Arrival} {packets : List FragmentPacket}
    (hlen : packets.length = m.count.toNat)
    (hread : ∀ i packet, packets[i]? = some packet →
      ∃ e, packet.read aead = some (m.inbound (UInt16.ofNat (1 + i)) e))
    (harrivals : ∀ a ∈ arrivals, (∃ packet ∈ packets, a = .packet packet) ∨
      ∀ i, a.inbound aead = some i → i.Foreign m) :
    (∀ k ∈ List.range' 1 m.count.toNat, k ∈ arrivals.filterMap (Arrival.number aead m.messageId)) ↔
      ∀ packet ∈ packets, .packet packet ∈ arrivals := by
  have hcount : m.count.toNat < 2 ^ 16 := m.count.toNat_lt
  have hnumber (i : ℕ) (packet : FragmentPacket) (hi : packets[i]? = some packet) :
      Arrival.number aead m.messageId (.packet packet) = some (1 + i) := by
    have hlt : i < packets.length := (List.getElem?_eq_some_iff.1 hi).1
    obtain ⟨e, he⟩ := hread i packet hi
    have hinbound : Arrival.inbound aead (.packet packet) = some (m.inbound (UInt16.ofNat (1 + i)) e) := he
    rw [Arrival.number_inbound hinbound, UInt16.toNat_ofNat', Nat.mod_eq_of_lt (by omega)]
  constructor
  · intro hall packet hpacket
    obtain ⟨i, hi⟩ := List.mem_iff_getElem?.1 hpacket
    have hlt : i < packets.length := (List.getElem?_eq_some_iff.1 hi).1
    obtain ⟨a, ha, hak⟩ := List.mem_filterMap.1 (hall (1 + i) (List.mem_range'_1.2 (by omega)))
    rcases harrivals a ha with ⟨packet', hpacket', rfl⟩ | hforeign
    · obtain ⟨j, hj⟩ := List.mem_iff_getElem?.1 hpacket'
      rw [hnumber j packet' hj] at hak
      have hij : j = i := by
        have := Option.some.inj hak
        omega
      rw [hij, hi] at hj
      cases hj
      exact ha
    · rw [Arrival.number_foreign hforeign] at hak
      cases hak
  · intro hall k hk
    rw [List.mem_range'_1] at hk
    have hlt : k - 1 < packets.length := by omega
    have hget := List.getElem?_eq_getElem hlt
    refine List.mem_filterMap.2 ⟨_, hall _ (List.mem_of_getElem? hget), ?_⟩
    rw [hnumber _ _ hget]
    exact congrArg some (by omega)

end

/-- The count of the fragments of a content that is not too long. -/
theorem Fragmented.count_eq {m : Fragmented} (hpos : 0 < m.contentLength)
    (hlong : m.content.length ≤ 255 * m.contentLength) (hne : m.content ≠ []) :
    m.content.length / m.contentLength + 1 < 2 ^ 16 ∧ m.count.toNat ≤ 255 ∧ 0 < m.count.toNat := by
  have hdiv := Nat.div_add_mod m.content.length m.contentLength
  have hquot : m.content.length / m.contentLength ≤ 255 := Nat.div_le_of_le_mul (by rwa [Nat.mul_comm])
  have hlen : 0 < m.content.length := List.length_pos_iff.2 hne
  have hn : m.count.toNat = m.content.length / m.contentLength +
      if m.content.length % m.contentLength ≠ 0 then 1 else 0 := by
    rw [count, fragmentCount, UInt16.toNat_ofNat', Nat.mod_eq_of_lt]
    split <;> omega
  refine ⟨by omega, ?_, ?_⟩
  · rw [hn]
    split
    · next hmod =>
      -- a rest means that the last fragment is not full
      have hlt : m.content.length / m.contentLength < 255 := by
        refine Nat.div_lt_of_lt_mul ?_
        rcases Nat.lt_or_ge m.content.length (m.contentLength * 255) with hlt | hge
        · exact hlt
        · have heq : m.content.length = m.contentLength * 255 := by
            rw [Nat.mul_comm] at hlong
            omega
          rw [heq, Nat.mul_mod_right] at hmod
          exact absurd rfl hmod
      exact hlt
    · exact hquot
  · rw [hn]
    split
    · exact Nat.succ_pos _
    · next hmod =>
      have hzero : m.content.length % m.contentLength = 0 := not_not.1 hmod
      rw [Nat.add_zero]
      refine Nat.div_pos (Nat.le_of_dvd hlen (Nat.dvd_of_mod_eq_zero hzero)) hpos

section

variable {m : Fragmented} {memory : ℕ → UInt8} {aead : Aead} {entropy : Entropy}
  {packets : List FragmentPacket} {arrivals : List Arrival}

theorem Arrival.allowed (hlen : packets.length = m.count.toNat)
    (hread : ∀ i packet, packets[i]? = some packet →
      ∃ e, packet.read aead = some (m.inbound (UInt16.ofNat (1 + i)) e))
    (harrivals : ∀ a ∈ arrivals, (∃ packet ∈ packets, a = .packet packet) ∨
      ∀ i, a.inbound aead = some i → i.Foreign m) : ∀ a ∈ arrivals, a.Allowed aead m := by
  intro a ha
  have hcount : m.count.toNat < 2 ^ 16 := m.count.toNat_lt
  rcases harrivals a ha with ⟨packet, hpacket, rfl⟩ | hforeign
  · obtain ⟨i, hi⟩ := List.mem_iff_getElem?.1 hpacket
    have hlt : i < packets.length := (List.getElem?_eq_some_iff.1 hi).1
    obtain ⟨e, he⟩ := hread i packet hi
    refine .inl ⟨_, e, he, ?_⟩
    rw [UInt16.toNat_ofNat', Nat.mod_eq_of_lt (by omega), List.mem_range'_1]
    omega
  · exact .inr hforeign

theorem Arrival.number_mem (hallowed : ∀ a ∈ arrivals, a.Allowed aead m) :
    ∀ k ∈ arrivals.filterMap (Arrival.number aead m.messageId), k ∈ List.range' 1 m.count.toNat := by
  intro k hk
  obtain ⟨a, ha, hak⟩ := List.mem_filterMap.1 hk
  rcases hallowed a ha with ⟨num, e, hinbound, hnum⟩ | hforeign
  · rw [Arrival.number_inbound hinbound] at hak
    cases hak
    exact hnum
  · rw [Arrival.number_foreign hforeign] at hak
    cases hak

/-- What is handed over under the ID of a message is the message, and it is handed over if and only if every
fragment has arrived. -/
theorem reassemble_spec (processMessage : Reassembled → Status) {maxPacket : ℕ} {defrag : Option Defrag}
    (hblock : aead.crypter.blockSize ≤ 256)
    (hsize : ∀ n, m.contentLength + computeOverhead aead n + 8 < 2 ^ 16) (hpos : 0 < m.contentLength)
    (hcontent : m.content ≠ []) (hlong : m.content.length ≤ 255 * m.contentLength)
    (hmax : m.content.length ≤ maxPacket) (hsend : m.fragment memory aead entropy = some (.ok packets))
    (hdefrag : ∀ d, defrag = some d → d.messageId < m.messageId)
    (harrivals : ∀ a ∈ arrivals, (∃ packet ∈ packets, a = .packet packet) ∨
      ∀ i, a.inbound aead = some i → i.Foreign m) :
    (∀ r ∈ reassemble processMessage maxPacket aead defrag arrivals, r.messageId = m.messageId →
      r = ⟨m.messageId, m.payloads, m.next, m.content⟩) ∧
      ((∃ r ∈ reassemble processMessage maxPacket aead defrag arrivals, r.messageId = m.messageId) ↔
        ∀ packet ∈ packets, .packet packet ∈ arrivals) := by
  obtain ⟨hcount, hle, hzero⟩ := Fragmented.count_eq hpos hlong hcontent
  have hflatten := Fragmented.flatten_pieces hpos hcount
  obtain ⟨hlen, hread⟩ := Fragmented.fragment_ok hblock hsize hsend
  have htotal : ((List.range' 1 m.count.toNat).map fun i => (m.piece i).length).sum ≤ maxPacket := by
    have hsum := congrArg List.length hflatten
    rw [List.length_flatten, List.map_map] at hsum
    exact hsum.trans_le hmax
  have hkeeps : Collect.Keeps m.count.toNat m.piece [] := Collect.Keeps.nil hzero
  have hallowed := Arrival.allowed hlen hread harrivals
  have hnumbers := Arrival.number_mem hallowed
  have hrun := @reassemble_eq m maxPacket [] processMessage aead defrag arrivals hle htotal
    (.inl ⟨rfl, hdefrag⟩) hkeeps hallowed
  have hmem (r : Reassembled) :
      r ∈ reassemble processMessage maxPacket aead defrag arrivals ∧ r.messageId = m.messageId ↔
        r ∈ (Collect.run m.count.toNat m.piece
          (arrivals.filterMap (Arrival.number aead m.messageId)) []).2.map m.reassembled := by
    rw [← hrun, List.mem_filter, decide_eq_true_iff]
  constructor
  · intro r hr hrid
    obtain ⟨parts, hparts, rfl⟩ := List.mem_map.1 ((hmem r).1 ⟨hr, hrid⟩)
    rw [Collect.run_outputs hkeeps hnumbers parts hparts, Fragmented.reassembled, hflatten]
  · have hiff := Collect.run_ne_nil_iff hkeeps hnumbers
    simp only [List.map_nil, List.not_mem_nil, or_false] at hiff
    rw [← mem_number_iff hlen hread harrivals, ← hiff]
    constructor
    · rintro ⟨r, hr, hrid⟩ hnil
      have hmapped := (hmem r).1 ⟨hr, hrid⟩
      rw [hnil] at hmapped
      cases hmapped
    · intro hne
      obtain ⟨parts, rest, hparts⟩ := List.exists_cons_of_ne_nil hne
      exact ⟨_, (hmem (m.reassembled parts)).2 (List.mem_map_of_mem (hparts ▸ List.mem_cons_self))⟩

end

/-- A message with its payloads, to be sent in fragments. -/
def Fragmented.ofPayloads (memory : ℕ → UInt8) (messageId : UInt32) (unencrypted ps : List PayloadTree)
    (contentLength : ℕ) (assoc : ℕ → Chunk) : Fragmented :=
  ⟨messageId, unencrypted, firstType ps, generateContent memory ps, contentLength, assoc⟩

/-- A message of two fragments. -/
def twoFragments : Fragmented :=
  .ofPayloads (fun _ => 0) 7 [] (orderPayloads ikeAuthIOrder [shortSa, addressRequest]) 23 fun _ => []

theorem twoFragments_sent :
    ∃ packets, twoFragments.fragment (fun _ => 0) EncryptedPayload.nullAead EncryptedPayload.zeroEntropy =
      some (.ok packets) := by
  have hcount : twoFragments.count ≠ 65535 := by decide +kernel
  have hok : (twoFragments.sendAll (fun _ => 0) EncryptedPayload.nullAead EncryptedPayload.zeroEntropy 1
      (splitContent twoFragments.contentLength twoFragments.count.toNat twoFragments.content)).isOk =
        true := by decide +kernel
  rw [Fragmented.fragment, if_neg hcount]
  cases hsend : twoFragments.sendAll (fun _ => 0) EncryptedPayload.nullAead EncryptedPayload.zeroEntropy 1
      (splitContent twoFragments.contentLength twoFragments.count.toNat twoFragments.content) with
  | error s =>
    rw [hsend] at hok
    cases hok
  | ok packets => exact ⟨packets, rfl⟩

theorem reduceFragLen_eq {fragLen amount : ℕ} (h : amount < fragLen) :
    reduceFragLen fragLen amount = fragLen - amount := by
  rw [reduceFragLen]
  omega

theorem Path.messageLength_eq {path : Path} {fragLen : ℕ} (h : path.headers < path.datagram fragLen) :
    path.messageLength fragLen = path.datagram fragLen - path.headers := by
  obtain ⟨ipv4, marker⟩ := path
  rw [messageLength]
  generalize datagram ⟨ipv4, marker⟩ fragLen = n at h
  cases ipv4 <;> cases marker <;>
    simp only [headers, reduceFragLen, if_true, if_false, Bool.false_eq_true] at h ⊢ <;> omega

/-- The room for the padded content of a fragment. -/
theorem Path.contentLength_eq {path : Path} {aead : Aead} {fragLen room : ℕ}
    (hroom : path.headers + 28 + aead.crypter.ivSize + aead.signer.size + 8 + room = path.datagram fragLen)
    (hblock : aead.crypter.blockSize ≤ room) (htwo : 2 ≤ room) :
    path.contentLength aead fragLen = room - room % aead.crypter.blockSize - 1 := by
  have hpos := aead.crypter.blockSize_pos
  have hmod := Nat.mod_lt room hpos
  have hfull : 1 < room - room % aead.crypter.blockSize := by
    rcases Nat.lt_or_ge aead.crypter.blockSize 2 with hone | htwo'
    · omega
    · have hdiv := Nat.div_add_mod room aead.crypter.blockSize
      have hquot : 1 ≤ room / aead.crypter.blockSize := Nat.div_pos hblock hpos
      have := Nat.mul_le_mul_left aead.crypter.blockSize hquot
      omega
  have hmessage : path.messageLength fragLen = 28 + aead.crypter.ivSize + aead.signer.size + 8 + room := by
    rw [messageLength_eq (by omega)]
    omega
  have hinner : reduceFragLen (reduceFragLen (reduceFragLen (reduceFragLen
      (28 + aead.crypter.ivSize + aead.signer.size + 8 + room) 28) aead.crypter.ivSize) aead.signer.size) 8 =
        room := by
    simp only [reduceFragLen]
    omega
  rw [contentLength, hmessage, hinner, reduceFragLen_eq hfull]

theorem Path.contentLength_pos (path : Path) (aead : Aead) (fragLen : ℕ) :
    0 < path.contentLength aead fragLen := Nat.le_max_left 1 _

theorem EncryptedFragment.length_bytes {memory : ℕ → UInt8} {aead : Aead} {f : EncryptedFragment}
    (hwf : (f.tree aead).WellFormed) :
    (generatePayload memory (f.tree aead) (Generator.create memory)).out.length = 8 + f.encrypted.length := by
  have hbits := congrArg List.length (@ofBytes_out_generatePayload memory _ hwf)
  have hfields : (bitsOf (PayloadTree.allFields (f.tree aead))).length = 64 + 8 * f.encrypted.length := by
    simp [tree, PayloadTree.allFields, PayloadTree.fieldsOf, bitsOf, Field.bits]
    omega
  rw [length_ofBytes, hfields] at hbits
  omega

theorem Fragmented.length_send {m : Fragmented} {memory : ℕ → UInt8} {aead : Aead} {entropy : Entropy}
    {num : UInt16} {data : Chunk} {packet : FragmentPacket}
    (hsize : data.length + computeOverhead aead data.length + 8 < 2 ^ 16)
    (h : m.send memory aead entropy num data = .ok packet) :
    packet.bytes.length = 8 + data.length + computeOverhead aead data.length := by
  rw [send] at h
  split at h
  · cases h
  · next f hf =>
    cases h
    obtain ⟨e, he, rfl⟩ := EncryptedFragment.encrypt_ok hf
    have hlen : e.length = data.length + computeOverhead aead data.length :=
      EncryptedPayload.length_encryptContent he
    have hover := EncryptedFragment.computeOverhead_pos aead data.length
    rw [EncryptedFragment.length_bytes]
    · show 8 + e.length = _
      omega
    · refine EncryptedFragment.wellFormed_tree (fun hnil => ?_) (by show e.length + 8 < _; omega)
      have hnil : e = [] := hnil
      rw [hnil, List.length_nil] at hlen
      omega

end Epdg
