import VoWiFi.Epdg.InitHashTable

/-!
# The invariant of the table of init hashes

Every entry stands in the row of its hash, and no row has two entries of one hash. The calls that
maintain the table keep this, so that a search finds the entry of a hash if there is one.
-/

namespace Epdg

variable {chunkHash : Chunk → UInt32} {t : InitHashTable} {hash other : Chunk} {spi : UInt64}

/-- The entries stand where they are looked for, each hash once. -/
structure InitHashTable.Sound (chunkHash : Chunk → UInt32) (t : InitHashTable) : Prop where
  placed : ∀ row, ∀ e ∈ t.rows row, t.row chunkHash e.hash = row
  nodup : ∀ row, ((t.rows row).map (·.hash)).Nodup

@[simp] theorem InitHashTable.rows_setRow_self (row : ℕ) (items : List InitHash) :
    (t.setRow row items).rows row = items := Function.update_self ..

theorem InitHashTable.rows_setRow_of_ne {row row' : ℕ} (h : row' ≠ row) (items : List InitHash) :
    (t.setRow row items).rows row' = t.rows row' := Function.update_of_ne h ..

theorem InitHashTable.row_setRow (row : ℕ) (items : List InitHash) (hash : Chunk) :
    (t.setRow row items).row chunkHash hash = t.row chunkHash hash := rfl

/-- A row that is replaced by one with the right hashes, each once. -/
theorem InitHashTable.Sound.setRow (h : t.Sound chunkHash) {row : ℕ} {items : List InitHash}
    (hplaced : ∀ e ∈ items, t.row chunkHash e.hash = row) (hnodup : (items.map (·.hash)).Nodup) :
    (t.setRow row items).Sound chunkHash := by
  constructor
  · intro row' e he
    rw [row_setRow]
    by_cases hrow : row' = row
    · subst hrow
      rw [rows_setRow_self] at he
      exact hplaced e he
    · rw [rows_setRow_of_ne hrow] at he
      exact h.placed row' e he
  · intro row'
    by_cases hrow : row' = row
    · subst hrow
      rw [rows_setRow_self]
      exact hnodup
    · rw [rows_setRow_of_ne hrow]
      exact h.nodup row'

theorem InitHashTable.Sound.checkAndPutInitHash (h : t.Sound chunkHash) (hash : Chunk) (spi : UInt64) :
    (t.checkAndPutInitHash chunkHash hash spi).2.2.Sound chunkHash := by
  unfold InitHashTable.checkAndPutInitHash
  cases hfind : t.find chunkHash hash with
  | some current => exact h
  | none =>
    dsimp only
    split
    · exact h
    · refine h.setRow ?_ ?_
      · rw [List.forall_mem_cons]
        exact ⟨rfl, h.placed _⟩
      · rw [List.map_cons, List.nodup_cons]
        refine ⟨fun hmem => ?_, h.nodup _⟩
        -- the search would have found an entry of this hash
        obtain ⟨e, he, heq⟩ := List.mem_map.1 hmem
        have hne := List.find?_eq_none.1 hfind e he
        rw [decide_eq_true_eq] at hne
        exact hne heq

theorem InitHashTable.Sound.removeInitHash (h : t.Sound chunkHash) (hash : Chunk) :
    (t.removeInitHash chunkHash hash).Sound chunkHash := by
  have hsub : List.Sublist ((t.rows (t.row chunkHash hash)).eraseP (·.hash = hash))
      (t.rows (t.row chunkHash hash)) := List.eraseP_sublist
  refine h.setRow (fun e he => h.placed _ e (hsub.subset he)) ?_
  exact (hsub.map _).nodup (h.nodup _)

/-- The invariant holds after every sequence of calls. -/
theorem InitHashTable.sound_maintained (chunkHash : Chunk → UInt32) (bits : ℕ)
    (calls : List TableCall) : (maintained chunkHash bits calls).Sound chunkHash := by
  refine Run.always (I := InitHashTable.Sound chunkHash) ?_ ?_
  · intro t call h
    cases call with
    | checkAndPut hash spi => exact h.checkAndPutInitHash hash spi
    | remove hash => exact h.removeInitHash hash
  · exact ⟨fun _ => List.forall_mem_nil _, fun _ => List.nodup_nil⟩

/-! ## Changing an SPI -/

theorem InitHash.hash_withSpi (e : InitHash) : (e.withSpi hash spi).hash = e.hash := by
  unfold InitHash.withSpi
  split <;> rfl

theorem InitHash.withSpi_of_ne {e : InitHash} (h : e.hash ≠ hash) : e.withSpi hash spi = e := if_neg h

/-- A search finds in the new table what it finds in the old one, up to the SPI. -/
theorem InitHashTable.find_withSpi :
    (t.withSpi hash spi).find chunkHash other =
      (t.find chunkHash other).map (InitHash.withSpi hash spi) := by
  change ((t.rows (t.row chunkHash other)).map _).find? _ = _
  rw [List.find?_map, InitHashTable.find]
  congr 2
  funext e
  rw [Function.comp_apply, InitHash.hash_withSpi]

theorem InitHashTable.hash_of_find {e : InitHash} (h : t.find chunkHash hash = some e) :
    e.hash = hash := by
  simpa using List.find?_some h

/-- Only the first item of a row changes, if it is the one with the hash. -/
theorem InitHashTable.Sound.withSpi_eq_setRow (h : t.Sound chunkHash) {row : ℕ} {e : InitHash}
    {items : List InitHash} (hrow : t.rows row = e :: items) :
    t.withSpi e.hash spi = t.setRow row ({ e with ourSpi := spi } :: items) := by
  have hplaced : t.row chunkHash e.hash = row := h.placed row e (hrow ▸ List.mem_cons_self)
  have hkeep : ∀ l : List InitHash, (∀ e' ∈ l, e'.hash ≠ e.hash) →
      l.map (InitHash.withSpi e.hash spi) = l := by
    intro l hl
    refine (List.map_congr_left fun e' he' => ?_).trans (List.map_id l)
    exact InitHash.withSpi_of_ne (hl e' he')
  have hrows : (t.withSpi e.hash spi).rows = (t.setRow row ({ e with ourSpi := spi } :: items)).rows := by
    funext row'
    by_cases hne : row' = row
    · subst hne
      have hnodup := h.nodup row'
      rw [hrow, List.map_cons, List.nodup_cons] at hnodup
      rw [rows_setRow_self]
      change (t.rows row').map _ = _
      rw [hrow, List.map_cons, InitHash.withSpi, if_pos rfl]
      congr 1
      refine hkeep items fun e' he' heq => hnodup.1 ?_
      exact List.mem_map.2 ⟨e', he', heq⟩
    · rw [rows_setRow_of_ne hne]
      refine hkeep _ fun e' he' heq => hne ?_
      rw [← h.placed row' e' he', heq, hplaced]
  exact congrArg (InitHashTable.mk t.bits) hrows

end Epdg
