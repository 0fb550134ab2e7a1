import VoWiFi.Lib.Cursor

/-!
# Decoders of bracketed streams

A stream of lines describes trees: a line can open a block, close one, or stand inside. A decoder keeps
the number of open blocks and gives out a tree when it returns to zero. Lines that stand outside of all
blocks, and lines that it cannot take, make it stop.

For any machine whose number of open blocks follows the lines in this way, and that is in the same
situation whenever no block is open, what comes in front of a message matters exactly in one respect:
whether all blocks have been closed (`resyncs_iff`). The second part is such a machine.
-/

namespace Brackets

/-- What a line does to the number of open blocks. -/
inductive Kind where
  | skip
  | start
  | stop
  | inside
  | bad
  deriving DecidableEq, Repr

/-- The number of open blocks after a line; `none` if the machine stops. -/
def Kind.next : Kind → ℕ → Option ℕ
  | .skip, n => some n
  | .start, n => some (n + 1)
  | .stop, n => if n = 0 then none else some (n - 1)
  | .inside, n => if n = 0 then none else some n
  | .bad, _ => none

theorem Kind.next_add {k : Kind} {n n' : ℕ} (h : k.next n = some n') (m : ℕ) :
    k.next (n + m) = some (n' + m) := by
  cases k with
  | skip => exact congrArg some (congrArg (· + m) (Option.some.inj h))
  | start =>
    rw [Kind.next, Option.some.injEq] at h ⊢
    omega
  | stop | inside =>
    rw [Kind.next] at h ⊢
    split at h
    · cases h
    · rw [if_neg (by omega), Option.some.injEq]
      rw [Option.some.injEq] at h
      omega
  | bad => cases h

/-! ## Runs -/

section Run

variable {σ L ε ω : Type}

/-- The number of open blocks after some lines. -/
def openBlocks (kind : L → Kind) : ℕ → List L → Option ℕ
  | n, [] => some n
  | n, l :: ls => ((kind l).next n).bind fun n => openBlocks kind n ls

/-- The state after some lines, and what each of them gives out. -/
def runEach (step : σ → L → Except ε (σ × Option ω)) (s : σ) :
    List L → Except ε (σ × List (Option ω))
  | [] => .ok (s, [])
  | l :: ls => do
    let (s, o) ← step s l
    let (s, os) ← runEach step s ls
    return (s, o :: os)

/-- What each of some lines gives out. -/
def outputs (step : σ → L → Except ε (σ × Option ω)) (s : σ) (ls : List L) :
    Except ε (List (Option ω)) :=
  (runEach step s ls).map Prod.snd

/-- Lines that give out one result, at the last of them. -/
def Complete (step : σ → L → Except ε (σ × Option ω)) (s₀ : σ) (msg : List L) : Prop :=
  ∃ s o, runEach step s₀ msg = .ok (s, List.replicate (msg.length - 1) none ++ [some o])

/-- After some lines in front of it a message gives out what it gives out at the start. -/
def Resyncs (step : σ → L → Except ε (σ × Option ω)) (s₀ : σ) (before msg : List L) : Prop :=
  ∃ s os, runEach step s₀ before = .ok (s, os) ∧ outputs step s msg = outputs step s₀ msg

variable {step : σ → L → Except ε (σ × Option ω)} {kind : L → Kind} {s t : σ} {l : L} {ls : List L}

theorem openBlocks_add {n n' : ℕ} (h : openBlocks kind n ls = some n') (m : ℕ) :
    openBlocks kind (n + m) ls = some (n' + m) := by
  induction ls generalizing n with
  | nil => exact congrArg some (congrArg (· + m) (Option.some.inj h))
  | cons l ls ih =>
    obtain ⟨k, hk, hrest⟩ := Option.bind_eq_some_iff.1 h
    rw [openBlocks, Kind.next_add hk]
    exact ih hrest

theorem openBlocks_concat (hl : kind l = .skip) (n : ℕ) :
    openBlocks kind n (ls ++ [l]) = openBlocks kind n ls := by
  induction ls generalizing n with
  | nil =>
    show ((kind l).next n).bind _ = _
    rw [hl]
    rfl
  | cons l' ls ih =>
    rw [List.cons_append, openBlocks, openBlocks]
    exact congrArg _ (funext ih)

theorem runEach_cons_of_error {e : ε} (h : step s l = .error e) : runEach step s (l :: ls) = .error e := by
  rw [runEach, h]
  rfl

theorem runEach_cons_of_ok {s' : σ} {o : Option ω} (h : step s l = .ok (s', o)) :
    runEach step s (l :: ls) = (runEach step s' ls).map fun r => (r.1, o :: r.2) := by
  rw [runEach, h]
  change Except.bind (runEach step s' ls) _ = _
  cases runEach step s' ls <;> rfl

theorem runEach_cons_eq_ok {s' : σ} {os : List (Option ω)}
    (h : runEach step s (l :: ls) = .ok (s', os)) :
    ∃ s₁ o os', step s l = .ok (s₁, o) ∧ runEach step s₁ ls = .ok (s', os') ∧ os = o :: os' := by
  cases hstep : step s l with
  | error e =>
    rw [runEach_cons_of_error hstep] at h
    cases h
  | ok r =>
    obtain ⟨s₁, o⟩ := r
    rw [runEach_cons_of_ok hstep] at h
    cases hrest : runEach step s₁ ls with
    | error e =>
      rw [hrest] at h
      cases h
    | ok r =>
      rw [hrest] at h
      obtain ⟨rfl, rfl⟩ := Prod.mk.inj (Except.ok.inj h)
      exact ⟨s₁, o, r.2, rfl, hrest, rfl⟩

/-- The number of open blocks decides whether the machine goes on, and follows the lines. -/
structure Follows (step : σ → L → Except ε (σ × Option ω)) (kind : L → Kind) (inv : σ → Prop)
    (depth : σ → ℕ) : Prop where
  stops : ∀ {s l}, inv s → (kind l).next (depth s) = none → ∃ e, step s l = .error e
  goes : ∀ {s l n}, inv s → (kind l).next (depth s) = some n →
    ∃ s' o, step s l = .ok (s', o) ∧ inv s' ∧ depth s' = n ∧ (o.isSome → n = 0)

/-- Related states give out the same, and stay related. -/
def Alike (step : σ → L → Except ε (σ × Option ω)) (R : σ → σ → Prop) : Prop :=
  ∀ s t l, R s t → (∃ e, step s l = .error e ∧ step t l = .error e) ∨
    ∃ s' t' o, step s l = .ok (s', o) ∧ step t l = .ok (t', o) ∧ R s' t'

theorem outputs_eq_of_alike {R : σ → σ → Prop} (h : Alike step R) (hst : R s t) (ls : List L) :
    outputs step s ls = outputs step t ls := by
  rw [outputs, outputs]
  induction ls generalizing s t with
  | nil => rfl
  | cons l ls ih =>
    rcases h s t l hst with ⟨e, hs, ht⟩ | ⟨s', t', o, hs, ht, hst'⟩
    · rw [runEach_cons_of_error hs, runEach_cons_of_error ht]
    · rw [runEach_cons_of_ok hs, runEach_cons_of_ok ht]
      have hrest := congrArg (Except.map (o :: ·)) (ih hst')
      cases hs' : runEach step s' ls <;> cases ht' : runEach step t' ls <;>
        rw [hs', ht'] at hrest <;> exact hrest

section Follows

variable {inv : σ → Prop} {depth : σ → ℕ} (h : Follows step kind inv depth)
include h

theorem Follows.exists_runEach (hs : inv s) {n : ℕ} (hopen : openBlocks kind (depth s) ls = some n) :
    ∃ s' os, runEach step s ls = .ok (s', os) ∧ inv s' ∧ depth s' = n := by
  induction ls generalizing s with
  | nil => exact ⟨s, [], rfl, hs, Option.some.inj hopen⟩
  | cons l ls ih =>
    obtain ⟨k, hk, hrest⟩ := Option.bind_eq_some_iff.1 hopen
    obtain ⟨s₁, o, hstep, hinv, hdepth, -⟩ := h.goes hs hk
    rw [← hdepth] at hrest
    obtain ⟨s', os, hrun, hs'⟩ := ih hinv hrest
    refine ⟨s', o :: os, ?_, hs'⟩
    rw [runEach_cons_of_ok hstep, hrun]
    rfl

/-- A run that goes through has counted its blocks, and has none open where it gave something out. -/
theorem Follows.of_runEach (hs : inv s) {s' : σ} {os : List (Option ω)}
    (hrun : runEach step s ls = .ok (s', os)) :
    openBlocks kind (depth s) ls = some (depth s') ∧ inv s' ∧
      ((∃ o, os.getLast? = some (some o)) → depth s' = 0) := by
  induction ls generalizing s os with
  | nil =>
    obtain ⟨rfl, rfl⟩ := Prod.mk.inj (Except.ok.inj hrun)
    exact ⟨rfl, hs, nofun⟩
  | cons l ls ih =>
    obtain ⟨s₁, o, os', hstep, hrest, rfl⟩ := runEach_cons_eq_ok hrun
    cases hk : (kind l).next (depth s) with
    | none =>
      obtain ⟨e, he⟩ := h.stops hs hk
      exact absurd (he.symm.trans hstep) nofun
    | some n =>
      obtain ⟨s₂, o₂, hstep₂, hinv, hdepth, ho⟩ := h.goes hs hk
      obtain ⟨rfl, rfl⟩ := Prod.mk.inj (Except.ok.inj (hstep₂.symm.trans hstep))
      obtain ⟨hopen, hinv', hlast⟩ := ih hinv hrest
      refine ⟨?_, hinv', ?_⟩
      · rw [openBlocks, hk, ← hdepth]
        exact hopen
      · rintro ⟨o', ho'⟩
        cases ls with
        | nil =>
          obtain ⟨rfl, rfl⟩ := Prod.mk.inj (Except.ok.inj hrest)
          have hsome : o₂ = some o' := Option.some.inj ho'
          rw [hsome] at ho
          exact hdepth.trans (ho rfl)
        | cons l' ls =>
          obtain ⟨_, _, _, -, -, rfl⟩ := runEach_cons_eq_ok hrest
          exact hlast ⟨o', by rwa [List.getLast?_cons_cons] at ho'⟩

/-- A message gives out the same as at the start exactly if no block is open. -/
theorem Follows.outputs_eq_iff {R : σ → σ → Prop} (halike : Alike step R)
    (hidle : ∀ s t, inv s → inv t → depth s = 0 → depth t = 0 → R s t) {s₀ : σ} (hs₀ : inv s₀)
    (hdepth : depth s₀ = 0) (hs : inv s) {msg : List L} (hmsg : Complete step s₀ msg) :
    outputs step s msg = outputs step s₀ msg ↔ depth s = 0 := by
  constructor
  · intro heq
    obtain ⟨s₁, o, hrun⟩ := hmsg
    obtain ⟨hopen, -, hlast⟩ := h.of_runEach hs₀ hrun
    rw [hlast ⟨o, by simp⟩, hdepth] at hopen
    -- the same lines from here end as many blocks deeper as are open now
    have hdeeper := openBlocks_add hopen (depth s)
    rw [Nat.zero_add] at hdeeper
    obtain ⟨s₂, os, hrun', hinv', hdepth'⟩ := h.exists_runEach hs hdeeper
    rw [outputs, outputs, hrun, hrun'] at heq
    have hos : os = List.replicate (msg.length - 1) none ++ [some o] := Except.ok.inj heq
    have hzero := (h.of_runEach hs hrun').2.2 ⟨o, by simp [hos]⟩
    omega
  · intro hzero
    exact outputs_eq_of_alike halike (hidle s s₀ hs hs₀ hzero hdepth) msg

/-- What comes in front of a message matters exactly in whether all its blocks are closed. -/
theorem Follows.resyncs_iff {R : σ → σ → Prop} (halike : Alike step R)
    (hidle : ∀ s t, inv s → inv t → depth s = 0 → depth t = 0 → R s t) {s₀ : σ} (hs₀ : inv s₀)
    (hdepth : depth s₀ = 0) {before msg : List L} (hmsg : Complete step s₀ msg) :
    Resyncs step s₀ before msg ↔ openBlocks kind 0 before = some 0 := by
  constructor
  · rintro ⟨s, os, hrun, heq⟩
    obtain ⟨hopen, hinv, -⟩ := h.of_runEach hs₀ hrun
    rwa [hdepth, (h.outputs_eq_iff halike hidle hs₀ hdepth hinv hmsg).1 heq] at hopen
  · intro hopen
    rw [← hdepth] at hopen
    obtain ⟨s, os, hrun, hinv, hzero⟩ := h.exists_runEach hs₀ hopen
    rw [hdepth] at hzero
    exact ⟨s, os, hrun, (h.outputs_eq_iff halike hidle hs₀ hdepth hinv hmsg).2 hzero⟩

end Follows

end Run

/-! ## A decoder of trees -/

/-- How a line is marked. -/
inductive LineMark where
  | leaf
  | blockStart
  | blockEnd
  | other
  deriving DecidableEq, Repr

def LineMark.kind : LineMark → Kind
  | .leaf => .inside
  | .blockStart => .start
  | .blockEnd => .stop
  | .other => .inside

/-- The variables of a decoder: the node added last, the number of open blocks, the mark of the previous
line. -/
structure Decoder (α : Type) where
  query : Option (Cursor α)
  depth : ℤ
  ptype : LineMark

section Decoder

variable {α ε : Type} (fresh : α) (nullPointer noParent : ε)

/-- A new first child of the node or, for a leaf right after a leaf, of its parent. -/
def addSub (ptype mark : LineMark) (q : Cursor α) : Except ε (Cursor α) :=
  if mark = .leaf ∧ ptype = .leaf then
    match q.parent? with
    | some p => .ok (p.addSub fresh)
    | none => .error noParent
  else .ok (q.addSub fresh)

/-- The node and the depth after a mark. -/
def Decoder.move (d : Decoder α) (mark : LineMark) : Except ε (Option (Cursor α) × ℤ) :=
  match mark, d.query with
  | .leaf, none => .error nullPointer
  | .leaf, some q => (addSub fresh noParent d.ptype .leaf q).map (some ·, d.depth)
  | .blockStart, none => .ok (some (.single fresh), d.depth + 1)
  | .blockStart, some q => (addSub fresh noParent d.ptype .blockStart q).map (some ·, d.depth + 1)
  | .blockEnd, none => .error nullPointer
  | .blockEnd, some q => .ok (some (q.parent?.getD q), d.depth - 1)
  | .other, query => .ok (query, d.depth)

/-- Store what a line says at the node. -/
def storeAt (store : α → Except ε α) (blank : Bool) :
    Option (Cursor α) → Except ε (Option (Cursor α))
  | some q => (store q.label).map fun a => some (q.setLabel a)
  | none => if blank then .ok none else .error nullPointer

/-- A line with a mark, and with a text that is stored unless it is blank. The tree is given out when the
depth is zero. -/
def Decoder.step (mark : LineMark) (store : α → Except ε α) (blank : Bool) (d : Decoder α) :
    Except ε (Decoder α × Option (RoseTree α)) := do
  let (query, depth) ← d.move fresh nullPointer noParent mark
  let query ← storeAt nullPointer store blank query
  if depth = 0 then
    match query with
    | none => .error nullPointer
    | some q => .ok (⟨none, depth, mark⟩, some q.tree)
  else .ok (⟨query, depth, mark⟩, none)

/-- No block is open. -/
def Decoder.Idle (d : Decoder α) : Prop := d.query = none ∧ d.depth = 0

/-- Some block is open, and the node added last has a parent if it is a leaf. -/
structure Decoder.Inside (d : Decoder α) : Prop where
  depth : 1 ≤ d.depth
  query : ∃ c, d.query = some c ∧ (d.ptype = .leaf → 0 < c.depth)

/-- The states that are reached. -/
def Decoder.Inv (d : Decoder α) : Prop := d.Idle ∨ d.Inside

variable {fresh nullPointer noParent} {d d' : Decoder α} {mark : LineMark} {store : α → Except ε α}
  {blank : Bool}

theorem Decoder.Inv.idle_iff (h : d.Inv) : d.Idle ↔ d.depth.toNat = 0 := by
  rcases h with h | h
  · exact iff_of_true h (by rw [h.2]; rfl)
  · have hdepth := h.depth
    exact iff_of_false (fun hidle => by rw [hidle.2] at hdepth; omega) (by omega)

theorem step_of_move {c : Cursor α} {k : ℤ} {a : α}
    (hmove : d.move fresh nullPointer noParent mark = .ok (some c, k)) (hstore : store c.label = .ok a) :
    d.step fresh nullPointer noParent mark store blank =
      if k = 0 then .ok (⟨none, k, mark⟩, some (c.setLabel a).tree)
      else .ok (⟨some (c.setLabel a), k, mark⟩, none) := by
  rw [Decoder.step, hmove]
  change (storeAt nullPointer store blank (some c)).bind _ = _
  rw [storeAt, hstore]
  rfl

/-- Outside of all blocks only the start of one is taken. -/
theorem step_idle (h : d.Idle) (hmark : mark ≠ .blockStart) :
    ∃ e, d.step fresh nullPointer noParent mark store blank = .error e := by
  obtain ⟨query, depth, ptype⟩ := d
  obtain ⟨hquery, hdepth⟩ : query = none ∧ depth = 0 := h
  subst hquery hdepth
  cases mark with
  | leaf => exact ⟨_, rfl⟩
  | blockStart => exact absurd rfl hmark
  | blockEnd => exact ⟨_, rfl⟩
  | other => cases blank <;> exact ⟨_, rfl⟩

/-- Inside a block every mark has its effect on the depth. -/
theorem move_inside (fresh : α) (nullPointer noParent : ε) (mark : LineMark) (h : d.Inside) :
    ∃ c k, d.move fresh nullPointer noParent mark = .ok (some c, k) ∧
      mark.kind.next d.depth.toNat = some k.toNat ∧ 0 ≤ k ∧ (mark = .leaf → 0 < c.depth) := by
  obtain ⟨query, depth, ptype⟩ := d
  obtain ⟨c, hquery, hparent⟩ := h.query
  have hdepth : 1 ≤ depth := h.depth
  have hpos : ¬ depth.toNat = 0 := by omega
  dsimp only at hquery hparent
  subst hquery
  cases mark with
  | leaf =>
    obtain ⟨p, hp⟩ : ∃ p : Cursor α,
        addSub fresh noParent ptype .leaf c = .ok (p.addSub fresh) := by
      by_cases hptype : ptype = .leaf
      · obtain ⟨p, hp, -⟩ := Cursor.exists_parent (hparent hptype)
        exact ⟨p, by rw [addSub, if_pos ⟨rfl, hptype⟩, hp]⟩
      · exact ⟨c, by rw [addSub, if_neg fun hboth => hptype hboth.2]⟩
    refine ⟨p.addSub fresh, depth, ?_, ?_, by omega, fun _ => by rw [Cursor.depth_addSub]; omega⟩
    · show (addSub fresh noParent ptype .leaf c).map _ = _
      rw [hp]
      rfl
    · exact if_neg hpos
  | blockStart =>
    refine ⟨c.addSub fresh, depth + 1, rfl, ?_, by omega, nofun⟩
    rw [LineMark.kind, Kind.next, Option.some.injEq]
    show depth.toNat + 1 = _
    omega
  | blockEnd =>
    refine ⟨c.parent?.getD c, depth - 1, rfl, ?_, by omega, nofun⟩
    rw [LineMark.kind, Kind.next, if_neg hpos, Option.some.injEq]
    show depth.toNat - 1 = _
    omega
  | other => exact ⟨c, depth, rfl, if_neg hpos, by omega, nofun⟩

/-- Where the text can be stored the decoder goes on as its number of open blocks does. -/
theorem step_inside (h : d.Inside) (hstore : ∀ a, ∃ a', store a = .ok a') :
    ∃ d' o, d.step fresh nullPointer noParent mark store blank = .ok (d', o) ∧ d'.Inv ∧
      mark.kind.next d.depth.toNat = some d'.depth.toNat ∧ (o.isSome → d'.depth.toNat = 0) := by
  obtain ⟨c, k, hmove, hnext, hk, hparent⟩ := move_inside fresh nullPointer noParent mark h
  obtain ⟨a, ha⟩ := hstore c.label
  rw [step_of_move hmove ha]
  by_cases hzero : k = 0
  · rw [if_pos hzero]
    exact ⟨_, _, rfl, .inl ⟨rfl, hzero⟩, hnext, fun _ => by rw [hzero]; rfl⟩
  · rw [if_neg hzero]
    exact ⟨_, _, rfl, .inr ⟨by show 1 ≤ k; omega, _, rfl, hparent⟩, hnext, nofun⟩

/-- The first line of a block makes the root. -/
theorem step_start (h : d.Idle) {a : α} (hstore : store fresh = .ok a) :
    ∃ d', d.step fresh nullPointer noParent .blockStart store blank = .ok (d', none) ∧ d'.Inside ∧
      d'.depth = 1 := by
  obtain ⟨query, depth, ptype⟩ := d
  obtain ⟨hquery, hdepth⟩ : query = none ∧ depth = 0 := h
  subst hquery hdepth
  have hmove : Decoder.move fresh nullPointer noParent ⟨none, 0, ptype⟩ .blockStart =
    .ok (some (.single fresh), 1) := rfl
  refine ⟨_, step_of_move hmove hstore, ?_, rfl⟩
  exact ⟨le_rfl, _, rfl, nofun⟩

/-- Where the text cannot be stored the decoder stops. -/
theorem step_of_store_error (h : d.Inv) (hstore : ∀ a, ∃ e, store a = .error e) :
    ∃ e, d.step fresh nullPointer noParent mark store blank = .error e := by
  have hmoved : ∀ c k, d.move fresh nullPointer noParent mark = .ok (some c, k) →
      ∃ e, d.step fresh nullPointer noParent mark store blank = .error e := by
    intro c k hmove
    obtain ⟨e, he⟩ := hstore c.label
    refine ⟨e, ?_⟩
    rw [Decoder.step, hmove]
    change (storeAt nullPointer store blank (some c)).bind _ = _
    rw [storeAt, he]
    rfl
  rcases h with h | h
  · by_cases hmark : mark = .blockStart
    · obtain ⟨query, depth, ptype⟩ := d
      obtain ⟨hquery, hdepth⟩ : query = none ∧ depth = 0 := h
      subst hquery hdepth hmark
      exact hmoved _ _ rfl
    · exact step_idle h hmark
  · obtain ⟨c, k, hmove, -⟩ := move_inside fresh nullPointer noParent mark h
    exact hmoved c k hmove

/-- Outside of all blocks the mark of the previous line does not matter. -/
theorem step_eq_of_idle (h : d.Idle) (h' : d'.Idle) :
    d.step fresh nullPointer noParent mark store blank =
      d'.step fresh nullPointer noParent mark store blank := by
  obtain ⟨query, depth, ptype⟩ := d
  obtain ⟨query', depth', ptype'⟩ := d'
  obtain ⟨hquery, hdepth⟩ : query = none ∧ depth = 0 := h
  obtain ⟨hquery', hdepth'⟩ : query' = none ∧ depth' = 0 := h'
  subst hquery hdepth hquery' hdepth'
  cases mark <;> rfl

end Decoder

/-! ## Machines that run the decoder -/

section Machine

variable {σ L α ε : Type}

/-- What a line is to the decoder: nothing, too much, or a text with a mark. -/
inductive Line (α ε : Type) where
  | skip
  | overflow (e : ε)
  | text (mark : LineMark) (store : α → Except ε α) (blank : Bool)

/-- The decoder takes a line. -/
def Decoder.take (fresh : α) (nullPointer noParent : ε) (d : Decoder α) :
    Line α ε → Except ε (Decoder α × Option (RoseTree α))
  | .skip => .ok (d, none)
  | .overflow e => .error e
  | .text mark store blank => d.step fresh nullPointer noParent mark store blank

/-- The kind of a line, if it can be told without the decoder. -/
inductive Line.HasKind : Line α ε → Kind → Prop
  | skip : HasKind .skip .skip
  | overflow (e : ε) : HasKind (.overflow e) .bad
  | text {mark : LineMark} {store : α → Except ε α} {blank : Bool} (h : ∀ a, ∃ a', store a = .ok a') :
      HasKind (.text mark store blank) mark.kind
  | bad {mark : LineMark} {store : α → Except ε α} {blank : Bool} (h : ∀ a, ∃ e, store a = .error e) :
      HasKind (.text mark store blank) .bad

/-- A machine does with a line what the decoder it contains does. -/
structure Runs (receive : σ → L → Except ε (σ × Option (RoseTree α))) (view : σ → Decoder α)
    (classify : L → Line α ε) (kind : L → Kind) (fresh : α) (nullPointer noParent : ε) : Prop where
  receive : ∀ s l, (receive s l).map (Prod.map view id) =
    (view s).take fresh nullPointer noParent (classify l)
  kind : ∀ l, (classify l).HasKind (kind l)

variable {receive : σ → L → Except ε (σ × Option (RoseTree α))} {view : σ → Decoder α}
  {classify : L → Line α ε} {kind : L → Kind} {fresh : α} {nullPointer noParent : ε}

theorem take_stops {d : Decoder α} {line : Line α ε} {k : Kind} (hk : line.HasKind k) (hd : d.Inv)
    (hnext : k.next d.depth.toNat = none) : ∃ e, d.take fresh nullPointer noParent line = .error e := by
  cases hk with
  | skip => cases hnext
  | overflow e => exact ⟨e, rfl⟩
  | @text mark store blank h =>
    rcases hd with hidle | hinside
    · refine step_idle hidle ?_
      rintro rfl
      cases hnext
    · obtain ⟨_, _, -, hsome, -⟩ := move_inside fresh nullPointer noParent mark hinside
      exact absurd (hnext.symm.trans hsome) nofun
  | bad h => exact step_of_store_error hd h

theorem take_goes {d : Decoder α} {line : Line α ε} {k : Kind} {n : ℕ} (hk : line.HasKind k)
    (hd : d.Inv) (hnext : k.next d.depth.toNat = some n) :
    ∃ d' o, d.take fresh nullPointer noParent line = .ok (d', o) ∧ d'.Inv ∧ d'.depth.toNat = n ∧
      (o.isSome → n = 0) := by
  cases hk with
  | skip => exact ⟨d, none, rfl, hd, Option.some.inj hnext, nofun⟩
  | overflow e => cases hnext
  | @text mark store blank h =>
    rcases hd with hidle | hinside
    · -- outside of all blocks only the start of one goes on
      have hzero : d.depth.toNat = 0 := by
        rw [hidle.2]
        rfl
      rw [hzero] at hnext
      cases mark with
      | blockStart =>
        obtain ⟨a, ha⟩ := h fresh
        obtain ⟨d', hstep, hinside, hdepth⟩ := step_start hidle ha
        refine ⟨d', none, hstep, .inr hinside, ?_, nofun⟩
        rw [hdepth]
        exact Option.some.inj hnext
      | leaf => cases hnext
      | blockEnd => cases hnext
      | other => cases hnext
    · obtain ⟨d', o, hstep, hinv, hsome, ho⟩ := step_inside hinside h
      have hn : d'.depth.toNat = n := Option.some.inj (hsome.symm.trans hnext)
      rw [hn] at ho
      exact ⟨d', o, hstep, hinv, hn, ho⟩
  | bad h => cases hnext

/-- What a machine does, from what its decoder does. -/
theorem Runs.receive_of_error (h : Runs receive view classify kind fresh nullPointer noParent) {s : σ}
    {l : L} {e : ε} (hd : (view s).take fresh nullPointer noParent (classify l) = .error e) :
    receive s l = .error e := by
  have hsim := h.receive s l
  rw [hd] at hsim
  cases hr : receive s l with
  | error e' =>
    rw [hr] at hsim
    exact congrArg Except.error (Except.error.inj hsim)
  | ok r =>
    rw [hr] at hsim
    cases hsim

theorem Runs.receive_of_ok (h : Runs receive view classify kind fresh nullPointer noParent) {s : σ}
    {l : L} {d : Decoder α} {o : Option (RoseTree α)}
    (hd : (view s).take fresh nullPointer noParent (classify l) = .ok (d, o)) :
    ∃ s', receive s l = .ok (s', o) ∧ view s' = d := by
  have hsim := h.receive s l
  rw [hd] at hsim
  cases hr : receive s l with
  | error e' =>
    rw [hr] at hsim
    cases hsim
  | ok r =>
    rw [hr] at hsim
    obtain ⟨hview, ho⟩ := Prod.mk.inj (Except.ok.inj hsim)
    exact ⟨r.1, congrArg Except.ok (Prod.ext rfl ho), hview⟩

theorem Runs.follows (h : Runs receive view classify kind fresh nullPointer noParent) :
    Follows receive kind (fun s => (view s).Inv) fun s => (view s).depth.toNat where
  stops hs hnext := by
    obtain ⟨e, he⟩ := take_stops (h.kind _) hs hnext
    exact ⟨e, h.receive_of_error he⟩
  goes hs hnext := by
    obtain ⟨d, o, hd, hinv, hdepth, ho⟩ := take_goes (h.kind _) hs hnext
    obtain ⟨s', hs', rfl⟩ := h.receive_of_ok hd
    exact ⟨s', o, hs', hinv, hdepth, ho⟩

/-- Decoders that are the same, or both outside of all blocks. -/
def SameOrIdle (d d' : Decoder α) : Prop := d = d' ∨ d.Idle ∧ d'.Idle

theorem Runs.alike (h : Runs receive view classify kind fresh nullPointer noParent) :
    Alike receive fun s t => SameOrIdle (view s) (view t) := by
  intro s t l hst
  have hsame : classify l ≠ .skip → (view s).take fresh nullPointer noParent (classify l) =
      (view t).take fresh nullPointer noParent (classify l) := by
    intro hskip
    rcases hst with heq | ⟨hs, ht⟩
    · rw [heq]
    · cases hl : classify l with
      | skip => exact absurd hl hskip
      | overflow e => rfl
      | text mark store blank => exact step_eq_of_idle hs ht
  by_cases hskip : classify l = .skip
  · obtain ⟨s', hs', hview⟩ := h.receive_of_ok (s := s) (l := l) (d := view s) (o := none) (by rw [hskip]; rfl)
    obtain ⟨t', ht', hview'⟩ := h.receive_of_ok (s := t) (l := l) (d := view t) (o := none) (by rw [hskip]; rfl)
    exact .inr ⟨s', t', none, hs', ht', by show SameOrIdle _ _; rwa [hview, hview']⟩
  · cases hd : (view s).take fresh nullPointer noParent (classify l) with
    | error e =>
      exact .inl ⟨e, h.receive_of_error hd, h.receive_of_error ((hsame hskip).symm.trans hd)⟩
    | ok r =>
      obtain ⟨s', hs', hview⟩ := h.receive_of_ok hd
      obtain ⟨t', ht', hview'⟩ := h.receive_of_ok ((hsame hskip).symm.trans hd)
      exact .inr ⟨s', t', r.2, hs', ht', .inl (hview.trans hview'.symm)⟩

/-- After some lines a machine treats a message as at the start exactly if all their blocks are
closed. -/
theorem Runs.resyncs_iff (h : Runs receive view classify kind fresh nullPointer noParent) {s₀ : σ}
    (hs₀ : (view s₀).Idle) {before msg : List L} (hmsg : Complete receive s₀ msg) :
    Resyncs receive s₀ before msg ↔ openBlocks kind 0 before = some 0 := by
  have hinv : (view s₀).Inv := .inl hs₀
  refine h.follows.resyncs_iff h.alike (fun s t hs ht hzero hzero' => ?_) hinv (hinv.idle_iff.1 hs₀) hmsg
  exact .inr ⟨hs.idle_iff.2 hzero, ht.idle_iff.2 hzero'⟩

end Machine

end Brackets
