import Mathlib.Data.List.Infix

/-!
# Streams that several writers share

Each element of a stream has a tag that says who wrote it. A number of texts, each with a tag, is written
contiguously if the stream is the beginning of these texts one after another, in an order that keeps the
order of each writer. A stream in which a writer has come as far as into the middle of a text then goes on
with that text (`Contiguous.next_tag`).
-/

namespace TaggedStream

variable {κ β : Type}

/-- A text with a tag on every element. -/
def tagged (l : κ × List β) : List (κ × β) := l.2.map (Prod.mk l.1)

theorem tagged_append (k : κ) (s t : List β) : tagged (k, s ++ t) = tagged (k, s) ++ tagged (k, t) :=
  List.map_append

theorem tag_of_mem_tagged {l : κ × List β} {x : κ × β} (h : x ∈ tagged l) : x.1 = l.1 := by
  obtain ⟨b, -, rfl⟩ := List.mem_map.1 h
  rfl

/-- A stream that starts with a part of a text has the tag of the text, also on the next element. -/
theorem tag_of_prefix {l : κ × List β} {t u v : List (κ × β)} {x : κ × β}
    (h : t ++ x :: u <+: tagged l ++ v) (hlen : t.length < (tagged l).length) :
    ∀ y ∈ t ++ [x], y.1 = l.1 := by
  have hbound : t ++ [x] <+: tagged l := by
    refine List.prefix_of_prefix_length_le ?_ (List.prefix_append _ v) ?_
    · exact List.IsPrefix.trans ((List.prefix_append_right_inj t).2 ⟨u, rfl⟩) h
    · rw [List.length_append, List.length_singleton]
      omega
  exact fun y hy => tag_of_mem_tagged (hbound.subset hy)

variable [DecidableEq κ]

/-- What one of the writers has written. -/
def proj (k : κ) (t : List (κ × β)) : List β := (t.filter (·.1 = k)).map Prod.snd

/-- The texts of one of the writers. -/
def textsOf (k : κ) (ls : List (κ × List β)) : List (List β) := (ls.filter (·.1 = k)).map Prod.snd

/-- The stream is the beginning of the texts one after another, each writer's in their order. -/
def Contiguous (lines : List (κ × List β)) (stream : List (κ × β)) : Prop :=
  ∃ ls, (∀ k, textsOf k ls = textsOf k lines) ∧ stream <+: ls.flatMap tagged

theorem proj_append (k : κ) (t u : List (κ × β)) : proj k (t ++ u) = proj k t ++ proj k u := by
  rw [proj, List.filter_append, List.map_append]
  rfl

theorem proj_tagged (k : κ) (s : List β) : proj k (tagged (k, s)) = s := by
  induction s with
  | nil => rfl
  | cons b s ih =>
    rw [tagged, List.map_cons, proj, List.filter_cons_of_pos (by simp), List.map_cons]
    exact congrArg _ ih

theorem proj_eq_nil {k : κ} {t : List (κ × β)} (h : ∀ x ∈ t, x.1 ≠ k) : proj k t = [] := by
  rw [proj, List.filter_eq_nil_iff.2 fun x hx => by simpa using h x hx]
  rfl

theorem textsOf_cons_self (k : κ) (s : List β) (ls : List (κ × List β)) :
    textsOf k ((k, s) :: ls) = s :: textsOf k ls := by
  rw [textsOf, List.filter_cons_of_pos (by simp)]
  rfl

theorem textsOf_cons_of_ne {k k' : κ} (h : k' ≠ k) (s : List β) (ls : List (κ × List β)) :
    textsOf k ((k', s) :: ls) = textsOf k ls := by
  rw [textsOf, List.filter_cons_of_neg (by simpa using h)]
  rfl

theorem textsOf_append (k : κ) (ls ms : List (κ × List β)) :
    textsOf k (ls ++ ms) = textsOf k ls ++ textsOf k ms := by
  rw [textsOf, List.filter_append, List.map_append]
  rfl

theorem textsOf_map (k k' : κ) (ts : List (List β)) :
    textsOf k (ts.map (Prod.mk k')) = if k' = k then ts else [] := by
  induction ts with
  | nil => exact (ite_self _).symm
  | cons t ts ih =>
    rw [List.map_cons]
    by_cases hk : k' = k
    · subst hk
      rw [if_pos rfl] at ih
      rw [textsOf_cons_self, ih, if_pos rfl]
    · rw [textsOf_cons_of_ne hk, ih, if_neg hk, if_neg hk]

theorem proj_flatMap_tagged (k : κ) (ls : List (κ × List β)) :
    proj k (ls.flatMap tagged) = (textsOf k ls).flatten := by
  induction ls with
  | nil => rfl
  | cons l ls ih =>
    obtain ⟨k', s⟩ := l
    rw [List.flatMap_cons, proj_append, ih]
    by_cases hk : k' = k
    · subst hk
      rw [proj_tagged, textsOf_cons_self, List.flatten_cons]
    · rw [textsOf_cons_of_ne hk, proj_eq_nil, List.nil_append]
      intro x hx
      rw [tag_of_mem_tagged hx]
      exact hk

/-- The texts one after another, from a place in the middle of one of them. -/
theorem next_tag {k : κ} {ls : List (κ × List β)} {t u : List (κ × β)} {x : κ × β}
    {before behind : List (List β)} {p r : List β} (hstream : t ++ x :: u <+: ls.flatMap tagged)
    (htexts : textsOf k ls = before ++ (p ++ r) :: behind) (hp : p ≠ []) (hr : r ≠ [])
    (hproj : proj k t = before.flatten ++ p) : x.1 = k := by
  induction ls generalizing t before with
  | nil =>
    have hnil := List.prefix_nil.1 hstream
    exact absurd hnil (List.append_ne_nil_of_right_ne_nil _ nofun)
  | cons l ls ih =>
    obtain ⟨k', s⟩ := l
    rw [List.flatMap_cons] at hstream
    rcases le_or_gt (tagged (k', s)).length t.length with hlen | hlen
    · -- the first text has been written in full
      obtain ⟨t', rfl⟩ : tagged (k', s) <+: t :=
        List.prefix_of_prefix_length_le (List.prefix_append _ _)
          ((List.prefix_append _ _).trans hstream) hlen
      rw [List.append_assoc, List.prefix_append_right_inj] at hstream
      rw [proj_append] at hproj
      by_cases hk : k' = k
      · subst hk
        rw [textsOf_cons_self] at htexts
        rw [proj_tagged] at hproj
        cases before with
        | nil =>
          -- more has been written of it than what the writer has come to
          rw [List.nil_append] at htexts
          have hlength := congrArg List.length hproj
          rw [(List.cons.inj htexts).1, List.flatten_nil, List.nil_append, List.length_append,
            List.length_append] at hlength
          have hpos := List.length_pos_iff.2 hr
          omega
        | cons b before =>
          obtain ⟨rfl, hrest⟩ := List.cons.inj htexts
          rw [List.flatten_cons, List.append_assoc] at hproj
          exact ih hstream hrest (List.append_cancel_left hproj)
      · rw [textsOf_cons_of_ne hk] at htexts
        rw [proj_eq_nil fun x hx => by rw [tag_of_mem_tagged hx]; exact hk, List.nil_append] at hproj
        exact ih hstream htexts hproj
    · -- what follows belongs to the first text
      have htag : ∀ y ∈ t ++ [x], y.1 = k' := tag_of_prefix hstream hlen
      have hx : x.1 = k' := htag x (List.mem_append_right _ List.mem_cons_self)
      by_contra hne
      have hnil : proj k t = [] := by
        refine proj_eq_nil fun y hy heq => hne ?_
        rw [hx, ← htag y (List.mem_append_left _ hy), heq]
      rw [hnil] at hproj
      exact hp (List.append_eq_nil_iff.1 hproj.symm).2

theorem Contiguous.next_tag {k : κ} {lines : List (κ × List β)} {t u : List (κ × β)} {x : κ × β}
    {before behind : List (List β)} {p r : List β} (h : Contiguous lines (t ++ x :: u))
    (htexts : textsOf k lines = before ++ (p ++ r) :: behind) (hp : p ≠ []) (hr : r ≠ [])
    (hproj : proj k t = before.flatten ++ p) : x.1 = k := by
  obtain ⟨ls, hls, hstream⟩ := h
  exact TaggedStream.next_tag hstream ((hls k).trans htexts) hp hr hproj

end TaggedStream
