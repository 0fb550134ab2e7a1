import Mathlib.Data.List.Find
import VoWiFi.Ims.HeaderList
import VoWiFi.Ims.ProcessQuery

/-!
# The list of headers as a sequence

Inserting and removing a header redirect one link and keep the pointer to the last header. The walks
find the header they should because a linked list that ends has no cycle, and so no more cells than the
memory.
-/

namespace Ims

open LinkedList

/-! ## Redirecting links -/

/-- The pointers and the number of a list whose cells are these. -/
structure HeaderList.Holds (m : HeaderList) (l : List (ℕ × Option Kvp)) : Prop where
  chain : Chain m.mem m.head l
  tail : m.tail = lastAddress none l
  num : m.num = l.length

variable {m : HeaderList} {l l₁ l₂ : List (ℕ × Option Kvp)} {a b : ℕ} {x y : Option Kvp}

theorem linkOf_of_read {mem : List (Cell (Option Kvp))} {next : Option ℕ}
    (h : mem[a]? = some ⟨x, next⟩) : linkOf mem a = next := by
  rw [linkOf, h]
  rfl

/-- Freeing a header that is not in the list. -/
theorem chain_freeKvp {mem : List (Cell (Option Kvp))} {p : Option ℕ} (h : Chain mem p l)
    (ha : a ∉ l.map Prod.fst) : Chain (freeKvp mem a) p l := by
  refine h.congr fun y hy => List.getElem?_modify_ne _ _ ?_
  rintro rfl
  exact ha (List.mem_map_of_mem hy)

theorem holds_unlink (h : m.Holds (l₁ ++ (a, x) :: l₂)) :
    (m.unlink (lastAddress none l₁) a).Holds (l₁ ++ l₂) := by
  obtain ⟨next, read, rest⟩ := h.chain.suffix
  have hnodup := h.chain.nodup
  rw [List.map_append, List.map_cons] at hnodup
  obtain ⟨-, hnodup₂, hdisj⟩ := List.nodup_append.1 hnodup
  obtain ⟨ha₂, -⟩ := List.nodup_cons.1 hnodup₂
  have ha₁ : a ∉ l₁.map Prod.fst := fun hmem => hdisj a hmem a List.mem_cons_self rfl
  have ha : a ∉ (l₁ ++ l₂).map Prod.fst := by
    rw [List.map_append, List.mem_append, not_or]
    exact ⟨ha₁, ha₂⟩
  refine ⟨?_, ?_, ?_⟩
  · rcases List.eq_nil_or_concat' l₁ with rfl | ⟨l₀, ⟨b, y⟩, rfl⟩
    · simp only [HeaderList.unlink, lastAddress, List.getLast?_nil, Option.map_none, Option.none_or,
        if_true, linkOf_of_read read]
      exact chain_freeKvp rest ha₂
    · -- the cell before the removed one gets its link
      have hb : lastAddress none (l₀ ++ [(b, y)]) = some b := lastAddress_append_cons none l₀ (b, y) []
      have hchain := h.chain
      rw [List.append_assoc, List.singleton_append] at hchain ha ⊢
      have hb₂ : ∀ z ∈ l₂, b ≠ z.1 := by
        intro z hz
        exact hdisj b (by simp) z.1 (List.mem_cons_of_mem _ (List.mem_map_of_mem hz))
      have hrest : Chain (setNext m.mem b next) next l₂ :=
        rest.congr fun z hz => getElem?_setNext_of_ne (hb₂ z hz)
      simp only [HeaderList.unlink, hb, linkOf_of_read read, if_neg (Option.some_ne_none b)]
      exact chain_freeKvp (hchain.redirect hrest) ha
  · have htail : m.tail = lastAddress (some a) l₂ := by rw [h.tail, lastAddress_append_cons]
    simp only [HeaderList.unlink, htail, lastAddress_eq_iff ha₂, lastAddress_append]
    split_ifs with hnil
    · rw [hnil]
      rfl
    · exact lastAddress_of_ne_nil hnil _ _
  · simp only [HeaderList.unlink, h.num, List.length_append, List.length_cons]
    omega

theorem holds_link (h : m.Holds (l₁ ++ (b, x) :: l₂)) (kvp : Kvp) :
    (m.link kvp (some b)).Holds (l₁ ++ (b, x) :: (m.mem.length, some kvp) :: l₂) := by
  -- the new cell is behind all others in the memory
  have hold : ∀ z : ℕ, z < m.mem.length → (m.mem ++ [⟨some kvp, none⟩])[z]? = m.mem[z]? :=
    fun z hz => List.getElem?_append_left hz
  have hnew : (m.mem ++ [⟨some kvp, none⟩])[m.mem.length]? = some ⟨some kvp, none⟩ :=
    List.getElem?_concat_length
  have hlt := h.chain.lt_length
  have hb : b < m.mem.length := hlt (b, x) (by simp)
  obtain ⟨next, read, rest⟩ := h.chain.suffix
  have hlink : linkOf (m.mem ++ [⟨some kvp, none⟩]) b = next := linkOf_of_read ((hold b hb).trans read)
  have hb₂ : ∀ z ∈ l₂, b ≠ z.1 := by
    have hnodup := h.chain.nodup
    rw [List.map_append, List.map_cons] at hnodup
    obtain ⟨hnotin, -⟩ := List.nodup_cons.1 (List.nodup_append.1 hnodup).2.1
    intro z hz hbz
    have hmem : z.1 ∈ l₂.map Prod.fst := List.mem_map_of_mem hz
    rw [← hbz] at hmem
    exact hnotin hmem
  have hchain : Chain (setNext (m.mem ++ [⟨some kvp, none⟩]) m.mem.length next) m.head
      (l₁ ++ (b, x) :: l₂) := by
    refine h.chain.congr fun z hz => ?_
    rw [getElem?_setNext_of_ne (hlt z hz).ne', hold z.1 (hlt z hz)]
  refine ⟨?_, ?_, ?_⟩
  · simp only [HeaderList.link, hlink, reduceCtorEq, false_and, if_false]
    refine hchain.redirect (Chain.cons ?_ (?_ : Chain _ next l₂))
    · rw [getElem?_setNext_of_ne hb.ne]
      exact getElem?_setNext hnew
    · refine rest.congr fun z hz => ?_
      have hz' := hlt z (by simp [hz])
      rw [getElem?_setNext_of_ne (hb₂ z hz), getElem?_setNext_of_ne hz'.ne', hold z.1 hz']
  · have htail : m.tail = lastAddress (some b) l₂ := by rw [h.tail, lastAddress_append_cons]
    have hnotin : b ∉ l₂.map Prod.fst := by
      intro hmem
      obtain ⟨z, hz, hzb⟩ := List.mem_map.1 hmem
      exact hb₂ z hz hzb.symm
    have hiff : some b = m.tail ↔ l₂ = [] := by
      rw [htail, eq_comm]
      exact lastAddress_eq_iff hnotin
    rw [lastAddress_append_cons, lastAddress_cons]
    simp only [HeaderList.link, reduceCtorEq, false_or, hiff]
    split_ifs with hnil
    · rw [hnil]
      rfl
    · rw [htail]
      exact lastAddress_of_ne_nil hnil _ _
  · simp only [HeaderList.link, h.num, List.length_append, List.length_cons]
    omega

theorem holds_link_nil (h : m.Holds []) (kvp : Kvp) :
    (m.link kvp none).Holds [(m.mem.length, some kvp)] := by
  have hhead : m.head = none := h.chain.eq_none_iff.2 rfl
  refine ⟨?_, ?_, ?_⟩
  · simp only [HeaderList.link, hhead, and_self, if_true]
    exact .cons List.getElem?_concat_length .nil
  · simp only [HeaderList.link, true_or, if_true]
    rfl
  · simp only [HeaderList.link, h.num]
    rfl

/-- A new header behind the last one. -/
theorem holds_append (h : m.Holds l) (kvp : Kvp) :
    (m.link kvp m.tail).Holds (l ++ [(m.mem.length, some kvp)]) := by
  rcases List.eq_nil_or_concat' l with rfl | ⟨l₀, ⟨b, x⟩, rfl⟩
  · rw [h.tail]
    exact holds_link_nil h kvp
  · rw [h.tail, lastAddress_append_cons, List.append_assoc]
    exact holds_link h kvp

theorem length_link (m : HeaderList) (kvp : Kvp) (prev : Option ℕ) :
    (m.link kvp prev).mem.length = m.mem.length + 1 := by
  cases prev <;> simp [HeaderList.link, setNext]

theorem length_unlink (m : HeaderList) (prev : Option ℕ) (a : ℕ) :
    (m.unlink prev a).mem.length = m.mem.length := by
  cases prev <;> simp [HeaderList.unlink, freeKvp, setNext]

/-! ## Calls -/

/-- The cells of some headers. -/
def cells (l : List (ℕ × Kvp)) : List (ℕ × Option Kvp) := l.map fun h => (h.1, some h.2)

/-- The value of a cell is a header with the key. -/
def hasKey (key : Text) (data : Option Kvp) : Bool := data.any (sameKey key)

variable {s : Headers} {key : Text}

theorem represents_iff : m.Represents s ↔ m.mem.length = s.added ∧ m.Holds (cells s.list) := by
  have hlast : lastAddress none (cells s.list) = s.list.getLast?.map Prod.fst := by
    rw [lastAddress, Option.or_none, cells, List.getLast?_map, Option.map_map]
    rfl
  constructor
  · intro h
    exact ⟨h.added, h.chain, h.tail.trans hlast.symm, by rw [h.num, cells, List.length_map]⟩
  · rintro ⟨hadded, h⟩
    refine ⟨hadded, h.chain, ?_, ?_, h.tail.trans hlast, by rw [h.num, cells, List.length_map]⟩
    · have hnodup := h.chain.nodup
      rwa [cells, List.map_map] at hnodup
    · rw [h.chain.eq_none_iff, cells, List.map_eq_nil_iff]

theorem testKey_cells (key : Text) (l : List (ℕ × Kvp)) :
    ∀ y ∈ cells l, testKey key y.2 = some (hasKey key y.2) := by
  intro y hy
  obtain ⟨h, -, rfl⟩ := List.mem_map.1 hy
  rfl

theorem walk_eq (h : m.Holds (cells s.list)) (hkey : key ≠ []) (idx : ℕ) :
    m.walk key idx = .ok (locate (hasKey key) none (cells s.list) idx) := by
  rw [HeaderList.walk, if_neg hkey, seek_eq h.chain h.chain.length_le (testKey_cells key s.list)]

/-- The headers with a key, as cells. -/
theorem filter_cells (key : Text) (l : List (ℕ × Kvp)) :
    (cells l).filter (fun y => hasKey key y.2) = cells (l.filter fun h => sameKey key h.2) := by
  rw [cells, List.filter_map]
  rfl

theorem cells_insertAfterNth (kvp : Kvp) (idx : ℕ) (l : List (ℕ × Kvp)) :
    cells (insertAfterNth (fun h => sameKey key h.2) (a, kvp) idx l) =
      insertAfterNth (fun y => hasKey key y.2) (a, some kvp) idx (cells l) :=
  map_insertAfterNth (fun h : ℕ × Kvp => (h.1, some h.2)) (fun y => hasKey key y.2) _ _ _

theorem cells_eraseNth (idx : ℕ) (l : List (ℕ × Kvp)) :
    cells (eraseNth (fun h => sameKey key h.2) idx l) =
      eraseNth (fun y => hasKey key y.2) idx (cells l) :=
  map_eraseNth (fun h : ℕ × Kvp => (h.1, some h.2)) (fun y => hasKey key y.2) _ _

/-- The header that `get_kvp_from_sip_message` finds is the one with the key and the index. -/
theorem getKvp_eq (h : m.Holds (cells s.list)) (hkey : key ≠ []) (idx : ℕ) :
    m.getKvp key idx = .ok ((s.withKey key)[idx]?.map Prod.fst) := by
  have hnth : (s.withKey key)[idx]?.map Prod.fst =
      ((cells s.list).filter fun y => hasKey key y.2)[idx]?.map Prod.fst := by
    rw [filter_cells, cells, List.getElem?_map, Option.map_map]
    rfl
  rw [HeaderList.getKvp, walk_eq h hkey, hnth]
  cases hloc : locate (hasKey key) none (cells s.list) idx with
  | none =>
    obtain ⟨hnone, -⟩ := locate_eq_none hloc (0, none)
    rw [hnone]
    rfl
  | some r =>
    obtain ⟨l₁, x, l₂, hfound, -⟩ := locate_eq_some hloc
    rw [hfound.nth]
    rfl

theorem getNumOfKvps_eq (h : m.Holds (cells s.list)) (hkey : key ≠ []) :
    m.getNumOfKvps key = .ok (s.withKey key).length := by
  rw [HeaderList.getNumOfKvps, if_neg hkey,
    count_eq h.chain h.chain.length_le (testKey_cells key s.list), Nat.zero_add,
    List.countP_eq_length_filter, filter_cells, cells, List.length_map]
  rfl

theorem delKvp_spec (h : m.Holds (cells s.list)) (hkey : key ≠ []) (idx : ℕ) :
    ∃ m', m.delKvp key idx = .ok m' ∧ m'.mem.length = m.mem.length ∧
      m'.Holds (cells (eraseNth (fun h => sameKey key h.2) idx s.list)) := by
  rw [HeaderList.delKvp, walk_eq h hkey, cells_eraseNth]
  cases hloc : locate (hasKey key) none (cells s.list) idx with
  | none =>
    obtain ⟨-, -, herase⟩ := locate_eq_none hloc (0, none)
    rw [herase]
    exact ⟨m, rfl, rfl, h⟩
  | some r =>
    obtain ⟨l₁, x, l₂, hfound, hprev⟩ := locate_eq_some hloc
    refine ⟨m.unlink r.1 r.2, rfl, length_unlink _ _ _, ?_⟩
    rw [hfound.split] at h
    rw [hfound.erase, hprev]
    exact holds_unlink h

theorem addKvp_spec (h : m.Holds (cells s.list)) (hadded : m.mem.length = s.added) (kvp : Kvp)
    (hkey : key ≠ []) (idx : ℕ) :
    ∃ m', m.addKvp kvp (some (key, idx)) = .ok m' ∧ m'.mem.length = m.mem.length + 1 ∧
      m'.Holds (cells (insertAfterNth (fun h => sameKey key h.2) (s.added, kvp) idx s.list)) := by
  rw [HeaderList.addKvp, HeaderList.getKvp, walk_eq h hkey, cells_insertAfterNth, ← hadded]
  cases hloc : locate (hasKey key) none (cells s.list) idx with
  | none =>
    obtain ⟨-, hinsert, -⟩ := locate_eq_none hloc (m.mem.length, some kvp)
    rw [hinsert]
    exact ⟨m.link kvp m.tail, rfl, length_link _ _ _, holds_append h kvp⟩
  | some r =>
    obtain ⟨l₁, x, l₂, hfound, -⟩ := locate_eq_some hloc
    refine ⟨m.link kvp (some r.2), rfl, length_link _ _ _, ?_⟩
    rw [hfound.split] at h
    rw [hfound.insert]
    exact holds_link h kvp

/-- One call: the list follows the sequence. -/
theorem represents_call (h : m.Represents s) (c : HeaderCall) :
    ∃ m', m.call c = .ok m' ∧ m'.Represents (s.call c) := by
  obtain ⟨hadded, hholds⟩ := represents_iff.1 h
  cases c with
  | add kvp anchor =>
    cases anchor with
    | none =>
      refine ⟨m.link kvp m.tail, rfl, represents_iff.2 ⟨?_, ?_⟩⟩
      · rw [length_link, hadded]
        rfl
      · have happend := holds_append hholds kvp
        rw [hadded] at happend
        rwa [Headers.call, cells, List.map_append]
    | some k =>
      obtain ⟨m', hadd, hlen, hholds'⟩ := addKvp_spec hholds hadded kvp k.1.2 k.2
      exact ⟨m', hadd, represents_iff.2 ⟨by rw [hlen, hadded]; rfl, hholds'⟩⟩
  | del key idx =>
    obtain ⟨m', hdel, hlen, hholds'⟩ := delKvp_spec hholds key.2 idx
    exact ⟨m', hdel, represents_iff.2 ⟨hlen.trans hadded, hholds'⟩⟩

/-- A sequence of calls. -/
theorem represents_run (h : m.Represents s) (calls : List HeaderCall) :
    ∃ m', m.run calls = .ok m' ∧ m'.Represents (s.run calls) := by
  induction calls generalizing m s with
  | nil => exact ⟨m, rfl, h⟩
  | cons c calls ih =>
    obtain ⟨m₁, hcall, h₁⟩ := represents_call h c
    obtain ⟨m', hrun, h'⟩ := ih h₁
    refine ⟨m', ?_, h'⟩
    rw [HeaderList.run, List.foldlM_cons, hcall]
    exact hrun

theorem represents_empty : HeaderList.empty.Represents .empty :=
  represents_iff.2 ⟨rfl, .nil, rfl, rfl⟩

/-- Whatever is called, the linked list stands for the sequence of headers: it ends, its pointers and its
number are right, and the lookups find the headers of the sequence. -/
theorem headerList_refines (calls : List HeaderCall) :
    ∃ m, HeaderList.empty.run calls = .ok m ∧ m.Represents (Headers.empty.run calls) ∧
      (m.tail = none ↔ (Headers.empty.run calls).list = []) ∧
      ∀ key : Key, m.getNumOfKvps key.1 = .ok ((Headers.empty.run calls).withKey key.1).length ∧
        ∀ idx, m.getKvp key.1 idx =
            .ok (((Headers.empty.run calls).withKey key.1)[idx]?.map Prod.fst) ∧
          ((∃ a, m.getKvp key.1 idx = .ok (some a)) ↔
            idx < ((Headers.empty.run calls).withKey key.1).length) := by
  obtain ⟨m, hrun, hm⟩ := represents_run represents_empty calls
  obtain ⟨-, hholds⟩ := represents_iff.1 hm
  refine ⟨m, hrun, hm, ?_, fun key => ⟨getNumOfKvps_eq hholds key.2, fun idx => ?_⟩⟩
  · rw [hm.tail, Option.map_eq_none_iff, List.getLast?_eq_none_iff]
  · have hget := getKvp_eq hholds key.2 idx
    refine ⟨hget, ?_⟩
    rw [hget]
    constructor
    · rintro ⟨a, ha⟩
      obtain ⟨h, hh, -⟩ := Option.map_eq_some_iff.1 (Except.ok.inj ha)
      exact (List.getElem?_eq_some_iff.1 hh).1
    · intro hidx
      rw [List.getElem?_eq_getElem hidx]
      exact ⟨_, rfl⟩

/-! ## The headers of a message -/

theorem sameKey_eq {kvp : Kvp} (hkey : '\x00' ∉ key) (hkvp : '\x00' ∉ kvp.key) :
    sameKey key kvp = decide (kvp.key = key) := by
  rw [sameKey, Text.cstr_of_nul_free hkey, Text.cstr_of_nul_free hkvp, Bool.eq_iff_iff, Bool.and_eq_true]
  simp only [decide_eq_true_eq]
  exact ⟨fun h => h.2, fun h => ⟨congrArg List.length h, h⟩⟩

theorem run_append_list (s : Headers) (kvps : List Kvp) :
    (s.run (kvps.map fun kvp => .add kvp none)).list.map Prod.snd = s.list.map Prod.snd ++ kvps := by
  induction kvps generalizing s with
  | nil => rw [List.append_nil]; rfl
  | cons kvp kvps ih =>
    have hrest := ih (s.call (.add kvp none))
    rw [Headers.call, List.map_append, List.append_assoc] at hrest
    exact hrest

/-- The list that `init_sip_message` builds has the headers of the message, and the first one with a key
is the one the message has. -/
theorem exists_headerList (sip : SipMessage) (hnul : ∀ kvp ∈ sip.kvps, '\x00' ∉ kvp.key) :
    ∃ hl s, HeaderList.empty.run (sip.kvps.map fun kvp => .add kvp none) = .ok hl ∧
      hl.Represents s ∧ s.list.map Prod.snd = sip.kvps ∧
      ∀ key : Key, '\x00' ∉ key.1 → ∃ r : Option (ℕ × Kvp),
        hl.getKvp key.1 0 = .ok (r.map Prod.fst) ∧ r.map Prod.snd = sip.getKvp key.1 := by
  obtain ⟨hl, hrun, hrep⟩ := represents_run represents_empty (sip.kvps.map fun kvp => .add kvp none)
  have hlist := run_append_list .empty sip.kvps
  refine ⟨hl, _, hrun, hrep, hlist, fun key hkey => ⟨_, getKvp_eq (represents_iff.1 hrep).2 key.2 0, ?_⟩⟩
  rw [Headers.withKey, ← List.head?_eq_getElem?, List.head?_filter]
  have hfind := List.find?_map (l := (Headers.run .empty (sip.kvps.map fun kvp => .add kvp none)).list)
    (f := Prod.snd) (p := sameKey key.1)
  refine hfind.symm.trans ?_
  rw [hlist]
  exact List.find?_congr fun kvp hkvp => sameKey_eq hkey (hnul kvp hkvp)

end Ims
