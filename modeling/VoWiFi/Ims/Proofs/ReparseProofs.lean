import VoWiFi.Ims.Reparse
import VoWiFi.Ims.Proofs.HeaderValueProofs
import VoWiFi.Ims.Proofs.MutationProofs

/-!
# Which queries leave the headers readable

The scanner of `init_vlst` cuts a text at the separators outside quotes and brackets. A list of entries is
therefore read as it was written exactly if each entry is read as itself, without a separator of its own,
and they are joined in a way the scanner can undo (`initVlst_serializeValue_iff`). The entries of a header
that was read satisfy the first, and the words that a query can set keep it up, those for a nonce apart;
what a query takes out can break the second (`reparsed_iff`).
-/

namespace Ims

/-! ## Tokens -/

/-- A byte that ends a token. -/
def separators : List Char := [';', ' ', ',']

/-- A text without a separator outside quotes and brackets, which ends outside them. -/
def Unbroken : Bool → Text → Prop
  | inside, [] => inside = false
  | inside, c :: cs => (inside = false → c ∉ separators) ∧ Unbroken (nextInside inside c) cs

theorem scanVlst_cons {c : Char} {inside : Bool} (h : inside = false → c ∉ separators) (cs q : Text) :
    scanVlst (c :: cs) inside q = scanVlst cs (nextInside inside c) (q ++ [c]) := by
  rw [scanVlst.eq_def]
  dsimp only
  cases inside with
  | true => rfl
  | false =>
    have hc := h rfl
    simp only [separators, List.mem_cons, List.not_mem_nil, or_false, not_or] at hc
    obtain ⟨hsemi, hspace, hcomma⟩ := hc
    rw [if_neg (by simpa using hsemi), if_neg (by simpa using hspace), if_neg (by simpa using hcomma)]

theorem scanVlst_semicolon (cs q : Text) :
    scanVlst (';' :: cs) false q = ⟨q, some ';', false⟩ :: scanVlst cs false [] := by
  rw [scanVlst.eq_def]
  rfl

theorem scanVlst_space (cs q : Text) :
    scanVlst (' ' :: cs) false q = ⟨q, none, true⟩ :: scanVlst cs false [] := by
  rw [scanVlst.eq_def]
  rfl

theorem scanVlst_comma_space (cs q : Text) :
    scanVlst (',' :: ' ' :: cs) false q = ⟨q, some ',', true⟩ :: scanVlst cs false [] := by
  rw [scanVlst.eq_def]
  rfl

theorem scanVlst_comma {cs : Text} (h : cs.head? ≠ some ' ') (q : Text) :
    scanVlst (',' :: cs) false q = ⟨q, some ',', false⟩ :: scanVlst cs false [] := by
  rw [scanVlst.eq_def]
  cases cs with
  | nil => rfl
  | cons d ds =>
    have hd : d ≠ ' ' := fun heq => h (congrArg some heq)
    exact if_neg hd

theorem scanVlst_append {t : Text} {inside : Bool} (h : Unbroken inside t) (rest q : Text) :
    scanVlst (t ++ rest) inside q = scanVlst rest false (q ++ t) := by
  induction t generalizing inside q with
  | nil =>
    have hout : inside = false := h
    rw [hout, List.nil_append, List.append_nil]
  | cons c t ih =>
    rw [List.cons_append, scanVlst_cons h.1, ih h.2, List.append_assoc, List.singleton_append]

theorem Unbroken.head_notMem {c : Char} {t : Text} (h : Unbroken false (c :: t)) : c ∉ separators :=
  h.1 rfl

/-- The separators that the scanner makes. -/
def Token.Legit (t : Token) : Prop :=
  t.delimiter = none ∨ (t.delimiter = some ';' ∧ t.space = false) ∨ t.delimiter = some ','

theorem unbroken_of_append {q : Text} (hq : ∀ t, Unbroken false t → Unbroken false (q ++ t)) :
    Unbroken false q := by
  have hself := hq [] rfl
  rwa [List.append_nil] at hself

/-- Every token that the scanner cuts off is unbroken, given that what it has collected so far goes on
to be. -/
theorem scanVlst_unbroken (cs : Text) (inside : Bool) (q : Text)
    (hq : ∀ t, Unbroken inside t → Unbroken false (q ++ t)) :
    ∀ t ∈ scanVlst cs inside q, Unbroken false t.text ∧ t.Legit := by
  have hempty : ∀ t, Unbroken false t → Unbroken false ([] ++ t) := fun _ ht => ht
  fun_induction scanVlst cs inside q with
  | case1 q => exact List.forall_mem_nil _
  | case2 inside q hout =>
    have hclosed : inside = false := by simpa using hout
    rw [List.forall_mem_singleton]
    subst hclosed
    exact ⟨unbroken_of_append hq, .inl rfl⟩
  | case3 c cs inside q hcut ih =>
    obtain ⟨rfl, -⟩ : inside = false ∧ c = ';' := by simpa using hcut
    exact List.forall_mem_cons.2 ⟨⟨unbroken_of_append hq, .inr (.inl ⟨rfl, rfl⟩)⟩, ih hempty⟩
  | case4 c cs inside q _ hcut ih =>
    obtain ⟨rfl, -⟩ : inside = false ∧ c = ' ' := by simpa using hcut
    exact List.forall_mem_cons.2 ⟨⟨unbroken_of_append hq, .inl rfl⟩, ih hempty⟩
  | case5 c inside q _ _ hcut ih =>
    obtain ⟨rfl, -⟩ : inside = false ∧ c = ',' := by simpa using hcut
    exact List.forall_mem_cons.2 ⟨⟨unbroken_of_append hq, .inr (.inr rfl)⟩, ih hempty⟩
  | case6 c inside q _ _ hcut ds ih =>
    obtain ⟨rfl, -⟩ : inside = false ∧ c = ',' := by simpa using hcut
    exact List.forall_mem_cons.2 ⟨⟨unbroken_of_append hq, .inr (.inr rfl)⟩, ih hempty⟩
  | case7 c inside q _ _ hcut d ds hd ih =>
    obtain ⟨rfl, -⟩ : inside = false ∧ c = ',' := by simpa using hcut
    exact List.forall_mem_cons.2 ⟨⟨unbroken_of_append hq, .inr (.inr rfl)⟩, ih hempty⟩
  | case8 c cs inside q hsemi hspace hcomma ih =>
    refine ih fun t ht => ?_
    rw [List.append_assoc, List.singleton_append]
    refine hq (c :: t) ⟨fun hout => ?_, ht⟩
    subst hout
    simp only [separators, List.mem_cons, List.not_mem_nil, or_false, not_or]
    exact ⟨by simpa using hsemi, by simpa using hspace, by simpa using hcomma⟩

theorem tokens_unbroken (value : Text) : ∀ t ∈ tokens value, Unbroken false t.text ∧ t.Legit :=
  scanVlst_unbroken value false [] fun _ ht => ht

/-- What the scanner has collected goes into the first token. -/
theorem scanVlst_head_text (cs : Text) (inside : Bool) (q : Text) :
    ∀ t ∈ (scanVlst cs inside q).head?, t.text = [] → q = [] := by
  fun_induction scanVlst cs inside q with
  | case1 q =>
    intro t ht
    cases ht
  | case8 c cs inside q _ _ _ ih =>
    intro t ht htext
    exact absurd (ih t ht htext) (List.append_ne_nil_of_right_ne_nil q (List.cons_ne_nil c []))
  | case2 | case3 | case4 | case5 | case6 | case7 =>
    intro t ht htext
    rwa [← Option.some.inj ht] at htext

/-- The first token of a text that does not start with a space is not a blank one with a space. -/
theorem scanVlst_head {d : Char} (hd : d ≠ ' ') (ds : Text) :
    ∀ t ∈ (scanVlst (d :: ds) false []).head?, ¬ (t.IsBlank ∧ t.space = true) := by
  rintro t ht ⟨⟨htext, hdelim⟩, hspace⟩
  by_cases hsep : d ∈ separators
  · have hcases : d = ';' ∨ d = ',' := by
      simp only [separators, List.mem_cons, List.not_mem_nil, or_false] at hsep
      tauto
    rcases hcases with rfl | rfl
    · rw [scanVlst_semicolon] at ht
      rw [← Option.some.inj ht] at hdelim
      cases hdelim
    · by_cases hds : ds.head? = some ' '
      · obtain ⟨ds', rfl⟩ := List.head?_eq_some_iff.1 hds
        rw [scanVlst_comma_space] at ht
        rw [← Option.some.inj ht] at hdelim
        cases hdelim
      · rw [scanVlst_comma hds] at ht
        rw [← Option.some.inj ht] at hdelim
        cases hdelim
  · rw [scanVlst_cons fun _ => hsep] at ht
    exact absurd (scanVlst_head_text _ _ _ t ht htext) nofun

theorem joined_cons {t : Token} {ts : List Token} (hts : Joined ts)
    (h : ∀ u ∈ ts.head?, t.Separated u) : Joined (t :: ts) := by
  cases ts with
  | nil => exact hts.elim
  | cons u ts => exact ⟨h u rfl, hts⟩

/-- The tokens of a text that ends outside are joined. -/
theorem scanVlst_joined (cs : Text) (inside : Bool) (q : Text)
    (h : cs.foldl nextInside inside = false) : Joined (scanVlst cs inside q) := by
  fun_induction scanVlst cs inside q with
  | case1 q => cases h
  | case2 inside q hout => exact ⟨rfl, rfl⟩
  | case3 c cs inside q hcut ih =>
    obtain ⟨rfl, rfl⟩ : inside = false ∧ c = ';' := by simpa using hcut
    refine joined_cons (ih h) fun u _ => ⟨.inl rfl, ?_⟩
    rintro ⟨hdelim, -⟩
    cases hdelim
  | case4 c cs inside q _ hcut ih =>
    obtain ⟨rfl, rfl⟩ : inside = false ∧ c = ' ' := by simpa using hcut
    refine joined_cons (ih h) fun u _ => ⟨.inr rfl, ?_⟩
    rintro ⟨hdelim, -⟩
    cases hdelim
  | case5 c inside q _ _ hcut ih =>
    obtain ⟨rfl, rfl⟩ : inside = false ∧ c = ',' := by simpa using hcut
    refine joined_cons (ih h) fun u hu => ⟨.inl rfl, fun hblank => ?_⟩
    obtain rfl := Option.some.inj hu
    exact absurd hblank.2.2.2 Bool.false_ne_true
  | case6 c inside q _ _ hcut ds ih =>
    obtain ⟨rfl, rfl⟩ : inside = false ∧ c = ',' := by simpa using hcut
    exact joined_cons (ih h) fun u _ => ⟨.inl rfl, fun hblank => Bool.false_ne_true hblank.2.1.symm⟩
  | case7 c inside q _ _ hcut d ds hd ih =>
    obtain ⟨rfl, rfl⟩ : inside = false ∧ c = ',' := by simpa using hcut
    exact joined_cons (ih h) fun u hu => ⟨.inl rfl, fun hblank => scanVlst_head hd ds u hu hblank.2.2⟩
  | case8 c cs inside q _ _ _ ih => exact ih h

/-- An entry without a separator is the last one. -/
theorem Joined.eq_nil {t : Token} {ts : List Token} (h : Joined (t :: ts)) (hdelim : t.delimiter = none)
    (hspace : t.space = false) : ts = [] := by
  cases ts with
  | nil => rfl
  | cons u ts =>
    rcases h.1.1 with hsome | hspace'
    · rw [hdelim] at hsome
      cases hsome
    · exact absurd (hspace.symm.trans hspace') nofun

/-- What is written for entries does not start with a space, unless the first one is blank. -/
theorem head_flatMap_full {t : Token} {ts : List Token} (hjoined : Joined (t :: ts))
    (ht : Unbroken false t.text ∧ t.Legit) :
    ((t :: ts).flatMap Token.full = [] ∨ ((t :: ts).flatMap Token.full).head? = some ' ') ↔
      t.IsBlank := by
  rw [List.flatMap_cons, Token.full, List.append_assoc, List.append_assoc]
  cases htext : t.text with
  | cons c cs =>
    rw [htext] at ht
    have hc : c ≠ ' ' := by
      rintro rfl
      exact ht.1.head_notMem (by decide)
    refine iff_of_false ?_ fun hblank => List.cons_ne_nil c cs (htext.symm.trans hblank.1)
    rintro (hnil | hhead)
    · cases hnil
    · exact hc (Option.some.inj hhead)
  | nil =>
    rw [List.nil_append]
    cases hdelim : t.delimiter with
    | some d =>
      have hd : d ≠ ' ' := by
        rintro rfl
        rcases ht.2 with h | ⟨h, -⟩ | h <;> exact absurd (hdelim.symm.trans h) (by decide)
      refine iff_of_false ?_ fun hblank => Option.some_ne_none d (hdelim.symm.trans hblank.2)
      rintro (hnil | hhead)
      · cases hnil
      · exact hd (Option.some.inj hhead)
    | none =>
      refine iff_of_true ?_ ⟨htext, hdelim⟩
      cases hspace : t.space with
      | true => exact .inr rfl
      | false =>
        rw [hjoined.eq_nil hdelim hspace]
        exact .inl rfl

/-- A space comes first only if it is the space of a blank entry. -/
theorem blank_of_head {t : Token} {ts : List Token} (hjoined : Joined (t :: ts))
    (ht : Unbroken false t.text ∧ t.Legit) (hhead : ((t :: ts).flatMap Token.full).head? = some ' ') :
    t.IsBlank ∧ t.space = true := by
  have hblank : t.IsBlank := (head_flatMap_full hjoined ht).1 (.inr hhead)
  refine ⟨hblank, Bool.eq_true_of_not_eq_false fun hspace => ?_⟩
  rw [hjoined.eq_nil hblank.2 hspace] at hhead
  simp [Token.full, hblank.1, hblank.2, hspace] at hhead

/-- Joined tokens are found again in what is written for them. -/
theorem tokens_flatMap_full {ts : List Token} (hjoined : Joined ts)
    (hts : ∀ t ∈ ts, Unbroken false t.text ∧ t.Legit) : tokens (ts.flatMap Token.full) = ts := by
  induction ts with
  | nil => exact hjoined.elim
  | cons t ts ih =>
    obtain ⟨ht, htail⟩ := List.forall_mem_cons.1 hts
    rw [tokens, List.flatMap_cons, Token.full, List.append_assoc, List.append_assoc,
      scanVlst_append ht.1, List.nil_append]
    obtain ⟨text, delimiter, space⟩ := t
    cases ts with
    | nil =>
      obtain ⟨hdelim, hspace⟩ : delimiter = none ∧ space = false := hjoined
      subst hdelim hspace
      exact scanVlst.eq_def _ _ _
    | cons u ts =>
      obtain ⟨hsep, hrest⟩ := hjoined
      have ih : scanVlst ((u :: ts).flatMap Token.full) false [] = u :: ts := ih hrest htail
      rcases ht.2 with hdelim | ⟨hdelim, hspace⟩ | hdelim
      · dsimp only at hdelim
        subst hdelim
        have hspace : space = true := hsep.1.resolve_left Bool.false_ne_true
        subst hspace
        exact (scanVlst_space _ _).trans (congrArg _ ih)
      · dsimp only at hdelim hspace
        subst hdelim hspace
        exact (scanVlst_semicolon _ _).trans (congrArg _ ih)
      · dsimp only at hdelim
        subst hdelim
        cases space with
        | true => exact (scanVlst_comma_space _ _).trans (congrArg _ ih)
        | false =>
          have hhead : ((u :: ts).flatMap Token.full).head? ≠ some ' ' := fun hhead =>
            hsep.2 ⟨rfl, rfl, blank_of_head hrest (List.forall_mem_cons.1 htail).1 hhead⟩
          exact (scanVlst_comma hhead _).trans (congrArg _ ih)

/-! ## Entries -/

theorem serializeValue_eq_flatMap (vlst : List Val) :
    serializeValue vlst = (vlst.map Val.token).flatMap Token.full := by
  rw [serializeValue, List.flatMap_map]
  rfl

/-- A token that `init_val` keeps whole is written as it is. -/
theorem token_initVal {t : Token} (h : t.Kept) : (initVal t.text t.delimiter t.space).token = t := by
  have hfull : (initVal t.text t.delimiter t.space).token.full = t.full :=
    t.rewritten_eq_full_iff.2 h
  have htext : (initVal t.text t.delimiter t.space).token.text = t.text := by
    rw [Token.full, Token.full, List.append_assoc, List.append_assoc] at hfull
    exact List.append_cancel_right hfull
  rw [Token.mk.injEq]
  exact ⟨htext, rfl, rfl⟩

theorem map_token_initVlst {value : Text} (h : Lossless value) :
    (initVlst value).map Val.token = tokens value := by
  rw [initVlst, List.map_map]
  nth_rewrite 2 [← List.map_id (tokens value)]
  rw [List.map_inj_left]
  exact fun t ht => token_initVal (h.2 t ht)

/-- An entry that is read as itself and has no separator of its own. -/
structure Val.Clean (v : Val) : Prop where
  unbroken : Unbroken false v.token.text
  legit : v.token.Legit
  reads : initVal v.token.text v.delimiter v.space = v

theorem clean_of_mem_initVlst {value : Text} (h : Lossless value) : ∀ v ∈ initVlst value, v.Clean := by
  intro v hv
  obtain ⟨t, ht, rfl⟩ := List.mem_map.1 hv
  have htoken := token_initVal (h.2 t ht)
  obtain ⟨hunbroken, hlegit⟩ := tokens_unbroken value t ht
  refine ⟨by rwa [htoken], by rwa [htoken], ?_⟩
  rw [htoken]
  rfl

/-- Clean entries are read as they were written exactly if they are joined. -/
theorem initVlst_serializeValue_iff {vlst : List Val} (h : ∀ v ∈ vlst, v.Clean) :
    initVlst (serializeValue vlst) = vlst ↔ Joined (vlst.map Val.token) := by
  constructor
  · intro hread
    have hlossless : Lossless (serializeValue vlst) := by
      rw [← serializeValue_eq_iff, hread]
    have htokens := map_token_initVlst hlossless
    rw [hread] at htokens
    rw [htokens]
    exact scanVlst_joined _ _ _ hlossless.1
  · intro hjoined
    have htokens : tokens (serializeValue vlst) = vlst.map Val.token := by
      rw [serializeValue_eq_flatMap]
      refine tokens_flatMap_full hjoined (List.forall_mem_map.2 fun v hv => ?_)
      exact ⟨(h v hv).unbroken, (h v hv).legit⟩
    rw [initVlst, htokens, List.map_map]
    nth_rewrite 2 [← List.map_id vlst]
    rw [List.map_inj_left]
    exact fun v hv => (h v hv).reads

/-! ## Headers -/

/-- A header is read as it was written if its value is, and that starts with something else than a
space. -/
theorem readsBack_iff {key : Text} (hkey : key ≠ []) (hcolon : ':' ∉ key) (vlst : List Val) :
    Kvp.ReadsBack ⟨key, vlst⟩ ↔ initVlst (serializeValue vlst) = vlst ∧
      ¬ (serializeValue vlst = [] ∨ (serializeValue vlst).head? = some ' ') := by
  have hline : Kvp.line ⟨key, vlst⟩ = key ++ ':' :: ' ' :: serializeValue vlst := by
    simp [Kvp.line]
  have hskip : (' ' :: serializeValue vlst).dropWhile (· = ' ') =
      (serializeValue vlst).dropWhile (· = ' ') := rfl
  rw [Kvp.ReadsBack, hline, parseKeyValueLine_append hkey hcolon, hskip]
  cases hvalue : serializeValue vlst with
  | nil => simp
  | cons c cs =>
    by_cases hc : c = ' '
    · -- the spaces that are skipped do not come back
      subst hc
      refine iff_of_false ?_ fun h => h.2 (.inr rfl)
      intro hread
      split at hread
      · cases hread
      · have hvlst : initVlst ((' ' :: cs).dropWhile (· = ' ')) = vlst :=
          congrArg Kvp.vlst (Option.some.inj hread)
        have hle := (serializeValue_sublist ((' ' :: cs).dropWhile (· = ' '))).length_le
        have hdrop : ((' ' :: cs).dropWhile (· = ' ')).length ≤ cs.length := by
          rw [List.dropWhile_cons_of_pos (by simp)]
          exact (List.dropWhile_sublist _).length_le
        rw [hvlst, hvalue, List.length_cons] at hle
        omega
    · have hkept : (c :: cs).dropWhile (· = ' ') = c :: cs := List.dropWhile_cons_of_neg (by simpa using hc)
      rw [hkept, if_neg (List.cons_ne_nil c cs)]
      simp [hc]

theorem readsBack_iff_rejoins {key : Text} (hkey : key ≠ []) (hcolon : ':' ∉ key) {vlst : List Val}
    (h : ∀ v ∈ vlst, v.Clean) : Kvp.ReadsBack ⟨key, vlst⟩ ↔ Rejoins (vlst.map Val.token) := by
  rw [readsBack_iff hkey hcolon, initVlst_serializeValue_iff h, serializeValue_eq_flatMap]
  cases vlst with
  | nil => exact iff_of_false (fun h => h.1) fun h => h.joined
  | cons v vlst =>
    have hv : Unbroken false v.token.text ∧ v.token.Legit :=
      ⟨(h v List.mem_cons_self).unbroken, (h v List.mem_cons_self).legit⟩
    rw [List.map_cons]
    constructor
    · rintro ⟨hjoined, hstart⟩
      rw [head_flatMap_full hjoined hv] at hstart
      refine ⟨fun t ht => ?_, hjoined⟩
      rwa [← Option.some.inj ht]
    · rintro ⟨hstart, hjoined⟩
      rw [head_flatMap_full hjoined hv]
      exact ⟨hjoined, hstart _ rfl⟩

/-! ## Values that a query sets -/

/-- A word without separators, quotes, brackets and assignments. -/
def Plain (s : Text) : Prop := ∀ c ∈ s, c ∉ [';', ' ', ',', '<', '>', '"', '=']

instance (s : Text) : Decidable (Plain s) :=
  decidable_of_iff (s.all fun c => !([';', ' ', ',', '<', '>', '"', '='].contains c)) <| by
    simp [Plain]

theorem nextInside_of_plain {c : Char} (h : c ∉ ['<', '>', '"']) (inside : Bool) :
    nextInside inside c = inside := by
  simp only [List.mem_cons, List.not_mem_nil, or_false, not_or] at h
  obtain ⟨hopen, hclose, hquote⟩ := h
  rw [nextInside, if_neg hopen, if_neg hclose, if_neg hquote]

theorem unbroken_of_forall {s : Text} (h : ∀ c ∈ s, c ∉ separators ∧ c ∉ ['<', '>', '"']) :
    Unbroken false s := by
  induction s with
  | nil => exact rfl
  | cons c s ih =>
    obtain ⟨⟨hsep, hplain⟩, hs⟩ := List.forall_mem_cons.1 h
    refine ⟨fun _ => hsep, ?_⟩
    rw [nextInside_of_plain hplain]
    exact ih hs

theorem scanVal_append_of_plain {s : Text} (h : Plain s) (rest t : Text) (attr : Option Text) :
    scanVal (s ++ rest) false t attr = scanVal rest false (t ++ s) attr := by
  induction s generalizing t with
  | nil => rw [List.nil_append, List.append_nil]
  | cons c s ih =>
    obtain ⟨hc, hs⟩ := List.forall_mem_cons.1 h
    simp only [List.mem_cons, List.not_mem_nil, or_false, not_or] at hc
    have hassign : ¬ ((!false && decide (c = '=')) = true) := by simpa using hc.2.2.2.2.2.2
    rw [List.cons_append, scanVal, if_neg hassign, if_neg hc.2.2.2.2.2.1, ih hs, List.append_assoc,
      List.singleton_append]

/-- An assignment of one plain word to another is read as such. -/
theorem clean_of_plain {attr value : Text} {v : Val} (hattr : Plain attr) (hvalue : Plain value)
    (hlegit : v.token.Legit) (h₁ : v.attr = some attr) (h₂ : v.val = some value) : v.Clean := by
  have htext : v.token.text = attr ++ '=' :: value := by
    simp [Val.token, attrText, h₁, h₂]
  refine ⟨?_, hlegit, ?_⟩
  · rw [htext]
    refine unbroken_of_forall fun c hc => ?_
    rcases List.mem_append.1 hc with hc | hc
    · have hplain := hattr c hc
      simp only [separators, List.mem_cons, List.not_mem_nil, or_false, not_or] at hplain ⊢
      tauto
    · rcases List.mem_cons.1 hc with rfl | hc
      · decide
      · have hplain := hvalue c hc
        simp only [separators, List.mem_cons, List.not_mem_nil, or_false, not_or] at hplain ⊢
        tauto
  · have hscan : scanVal (attr ++ '=' :: value) false [] none = (some attr, some value) := by
      rw [scanVal_append_of_plain hattr, scanVal, if_pos (by decide), ← List.append_nil value,
        scanVal_append_of_plain hvalue, List.nil_append, List.nil_append, List.append_nil]
      rfl
    rw [initVal, htext, hscan, ← h₁, ← h₂]

/-- A value that is read has an assignment in it only behind a quote. -/
theorem scanVal_quote (cs : Text) (inside : Bool) (t : Text) (attr : Option Text)
    (hinside : inside = true → '"' ∈ t) (ht : '=' ∈ t → '"' ∈ t) :
    ∀ w ∈ (scanVal cs inside t attr).2, '=' ∈ w → '"' ∈ w := by
  fun_induction scanVal cs inside t attr with
  | case1 inside t attr =>
    intro w hw hassign
    cases inside with
    | true => cases hw
    | false =>
      obtain rfl := Option.some.inj hw
      exact ht hassign
  | case2 c cs inside t attr hcut ih =>
    obtain ⟨rfl, -⟩ : inside = false ∧ c = '=' := by simpa using hcut
    exact ih nofun nofun
  | case3 c cs inside t attr hcut ih =>
    refine ih (fun hopen => ?_) fun hmem => ?_
    · rw [List.mem_append]
      by_cases hc : c = '"'
      · exact .inr (List.mem_singleton.2 hc.symm)
      · rw [if_neg hc] at hopen
        exact .inl (hinside hopen)
    · rw [List.mem_append] at hmem ⊢
      rcases hmem with hmem | hmem
      · exact .inl (ht hmem)
      · obtain rfl := List.mem_singleton.1 hmem
        have hopen : inside = true := by simpa using hcut
        exact .inl (hinside hopen)

theorem quote_of_mem_initVlst {value : Text} {v : Val} (hv : v ∈ initVlst value) :
    ∀ w ∈ v.val, '=' ∈ w → '"' ∈ w := by
  obtain ⟨t, -, rfl⟩ := List.mem_map.1 hv
  exact scanVal_quote t.text false [] none nofun nofun

theorem assign_mem_nonceValue {rand : ℕ → ℕ} {length : ℕ} (h : 0 < length) (s : Text) :
    '=' ∈ nonceValue rand length s := by
  rw [nonceValue]
  split_ifs <;> exact List.mem_set (by simp; omega) _

theorem randomChar_ne_quote (n : ℕ) : randomChar n ≠ '"' := by
  have hall : ∀ k < 36, (if k < 10 then Char.ofNat (k + 48) else Char.ofNat (k + 55)) ≠ '"' := by
    decide
  exact hall (n % 36) (Nat.mod_lt n (by decide))

theorem quote_notMem_nonceValue {rand : ℕ → ℕ} {length : ℕ} (s : Text) :
    '"' ∉ nonceValue rand length s := by
  rw [nonceValue]
  intro hmem
  rcases List.mem_or_eq_of_mem_set hmem with hmem | heq
  · split_ifs at hmem
    · exact absurd (List.eq_of_mem_replicate hmem) (by decide)
    · exact absurd (List.eq_of_mem_replicate hmem) (by decide)
    · exact absurd (List.eq_of_mem_replicate hmem) (by decide)
    · obtain ⟨i, -, hi⟩ := List.mem_map.1 hmem
      exact randomChar_ne_quote _ hi
    · exact absurd (List.eq_of_mem_replicate hmem) (by decide)
  · exact absurd heq (by decide)

/-! ## What is left -/

/-- What joining depends on: whether anything is written for the entry, and what it is followed by. -/
def Token.shape (t : Token) : Bool × Option Char × Bool := (t.text = [], t.delimiter, t.space)

theorem shape_eq_iff {t t' : Token} : t.shape = t'.shape ↔
    (t.text = [] ↔ t'.text = []) ∧ t.delimiter = t'.delimiter ∧ t.space = t'.space := by
  simp [Token.shape]

theorem isBlank_congr {t t' : Token} (h : t.shape = t'.shape) : t.IsBlank ↔ t'.IsBlank := by
  obtain ⟨htext, hdelim, -⟩ := shape_eq_iff.1 h
  rw [Token.IsBlank, Token.IsBlank, htext, hdelim]

theorem separated_congr {t t' u u' : Token} (ht : t.shape = t'.shape) (hu : u.shape = u'.shape) :
    t.Separated u ↔ t'.Separated u' := by
  obtain ⟨-, hdelim, hspace⟩ := shape_eq_iff.1 ht
  obtain ⟨-, -, hspace'⟩ := shape_eq_iff.1 hu
  rw [Token.Separated, Token.Separated, isBlank_congr hu, hdelim, hspace, hspace']

theorem joined_congr {ts ts' : List Token} (h : ts.map Token.shape = ts'.map Token.shape) :
    Joined ts ↔ Joined ts' := by
  induction ts generalizing ts' with
  | nil => rw [List.map_eq_nil_iff.1 h.symm]
  | cons t ts ih =>
    obtain ⟨t', ts', rfl, ht, hts⟩ := List.map_eq_cons_iff.1 h.symm
    cases ts with
    | nil =>
      obtain ⟨-, hdelim, hspace⟩ := shape_eq_iff.1 ht
      rw [List.map_eq_nil_iff.1 hts, Joined, Joined, hdelim, hspace]
    | cons u ts =>
      obtain ⟨u', ts', rfl, hu, -⟩ := List.map_eq_cons_iff.1 hts
      rw [Joined, Joined, ih hts.symm, separated_congr ht.symm hu.symm]

theorem rejoins_congr {ts ts' : List Token} (h : ts.map Token.shape = ts'.map Token.shape) :
    Rejoins ts ↔ Rejoins ts' := by
  have hstart : (∀ t ∈ ts.head?, ¬ t.IsBlank) ↔ ∀ t ∈ ts'.head?, ¬ t.IsBlank := by
    cases ts with
    | nil => rw [List.map_eq_nil_iff.1 h.symm]
    | cons t ts =>
      obtain ⟨t', ts', rfl, ht, -⟩ := List.map_eq_cons_iff.1 h.symm
      simp only [List.head?_cons, Option.mem_def, Option.some.injEq, forall_eq', isBlank_congr ht]
  exact ⟨fun hr => ⟨hstart.1 hr.start, (joined_congr h).1 hr.joined⟩,
    fun hr => ⟨hstart.2 hr.start, (joined_congr h).2 hr.joined⟩⟩

/-- What an edit of other values keeps of an entry. -/
def Val.outline (v : Val) : Option Text × Bool × Option Char × Bool := (v.attr, v.token.shape)

theorem map_shape_of_outline {vlst vlst' : List Val}
    (h : vlst.map Val.outline = vlst'.map Val.outline) :
    (vlst.map Val.token).map Token.shape = (vlst'.map Val.token).map Token.shape := by
  have hsnd := congrArg (List.map Prod.snd) h
  rwa [List.map_map, List.map_map] at hsnd ⊢
  
theorem outline_replace (attr value : Text) (v : Val) :
    (if v.attr = some attr then { v with val := some value } else v).outline = v.outline := by
  split
  · rename_i hattr
    simp [Val.outline, Token.shape, Val.token, attrText, hattr]
  · rfl

/-- The outline after an edit depends on the edit only if it is a removal. -/
theorem map_outline_apply (attr : Text) (edit : Edit) (vlst : List Val) :
    (edit.apply attr vlst).map Val.outline =
      if edit = .remove then (vlst.map Val.outline).eraseP (·.1 = some attr)
      else vlst.map Val.outline := by
  cases edit with
  | keep => rfl
  | replace value =>
    rw [if_neg nofun, Edit.apply, List.map_map]
    exact List.map_congr_left fun v _ => outline_replace attr value v
  | remove =>
    rw [if_pos rfl, Edit.apply, List.eraseP_map]
    rfl

/-- The attributes that are removed. -/
def removed (edits : List (Text × Edit)) : List Text :=
  (edits.filter fun e => e.2 = .remove).map Prod.fst

theorem map_outline_applyEdits (edits : List (Text × Edit)) (vlst vlst' : List Val)
    (h : vlst.map Val.outline = vlst'.map Val.outline) :
    (applyEdits edits vlst).map Val.outline = (left (removed edits) vlst').map Val.outline := by
  induction edits generalizing vlst vlst' with
  | nil => exact h
  | cons e edits ih =>
    obtain ⟨attr, edit⟩ := e
    have hstep := map_outline_apply attr edit vlst
    by_cases hremove : edit = .remove
    · rw [if_pos hremove, h, List.eraseP_map] at hstep
      have hremoved : removed ((attr, edit) :: edits) = attr :: removed edits := by
        rw [removed, List.filter_cons_of_pos (by simpa using hremove)]
        rfl
      rw [hremoved]
      exact ih _ _ hstep
    · rw [if_neg hremove, h] at hstep
      have hremoved : removed ((attr, edit) :: edits) = removed edits := by
        rw [removed, List.filter_cons_of_neg (by simpa using hremove)]
        rfl
      rw [hremoved]
      exact ih _ _ hstep

/-- What an edited header can be joined like is what is left of it without the removed entries. -/
theorem rejoins_applyEdits_iff (edits : List (Text × Edit)) (vlst : List Val) :
    Rejoins ((applyEdits edits vlst).map Val.token) ↔
      Rejoins ((left (removed edits) vlst).map Val.token) :=
  rejoins_congr (map_shape_of_outline (map_outline_applyEdits edits vlst vlst rfl))

/-- Edits that set plain words keep entries clean. -/
theorem clean_applyEdits {edits : List (Text × Edit)}
    (hplain : ∀ e ∈ edits, ∀ value, e.2 = .replace value → Plain e.1 ∧ Plain value) {vlst : List Val}
    (h : ∀ v ∈ vlst, v.Clean) : ∀ v ∈ applyEdits edits vlst, v.Clean := by
  induction edits generalizing vlst with
  | nil => exact h
  | cons e edits ih =>
    obtain ⟨hhead, htail⟩ := List.forall_mem_cons.1 hplain
    refine ih htail ?_
    obtain ⟨attr, edit⟩ := e
    cases edit with
    | keep => exact h
    | remove => exact fun v hv => h v (List.mem_of_mem_eraseP hv)
    | replace value =>
      obtain ⟨hattr, hvalue⟩ := hhead value rfl
      refine List.forall_mem_map.2 fun v hv => ?_
      split
      · exact clean_of_plain hattr hvalue (h v hv).legit ‹_› rfl
      · exact h v hv

theorem editOf_eq_remove_iff {part : Option QNode} {value : Text → Text} :
    editOf part value = .remove ↔ part.any (·.op = .drop) = true := by
  cases part with
  | none => exact iff_of_false nofun nofun
  | some q =>
    rw [Option.any_some, decide_eq_true_iff]
    by_cases hd : q.op = .drop
    · exact iff_of_true (editOf_drop hd value) hd
    · refine iff_of_false ?_ hd
      by_cases hu : q.IsUpdate
      · rw [editOf_update hu]
        exact nofun
      · rw [editOf_other hu hd]
        exact nofun

/-- The edits of a table of attributes remove those that are dropped. -/
theorem removed_eq_dropped {query : Option Query} {section_ : String}
    (table : List (String × (Text → Text))) :
    removed (table.map fun p =>
      (p.1.toList, editOf (attributeQuery query section_.toList p.1.toList) p.2)) =
      dropped query section_ (table.map Prod.fst) := by
  rw [removed, dropped, List.filter_map, List.filter_map, List.map_map, List.map_map]
  have hcond : ((fun e : Text × Edit => decide (e.2 = .remove)) ∘ fun p : String × (Text → Text) =>
      (p.1.toList, editOf (attributeQuery query section_.toList p.1.toList) p.2)) =
      (fun attr : String => (attributeQuery query section_.toList attr.toList).any (·.op = .drop)) ∘
        Prod.fst := by
    funext p
    rw [Function.comp_apply, Function.comp_apply, Bool.eq_iff_iff, decide_eq_true_iff,
      editOf_eq_remove_iff]
  rw [hcond]
  rfl

/-! ## The whole query -/

variable {query : Option Query} {rand : ℕ → ℕ} {m m' : SipMessage}

theorem clean_of_readsBack {key : Text} {vlst : List Val} (hkey : key ≠ []) (hcolon : ':' ∉ key)
    (h : Kvp.ReadsBack ⟨key, vlst⟩) : ∀ v ∈ vlst, v.Clean := by
  obtain ⟨hread, -⟩ := (readsBack_iff hkey hcolon vlst).1 h
  have hlossless : Lossless (serializeValue vlst) := by
    rw [← serializeValue_eq_iff, hread]
  have hclean := clean_of_mem_initVlst hlossless
  rwa [hread] at hclean

theorem plain_choose {words : List String} {default : String}
    (h : ∀ w ∈ default :: words, Plain w.toList) (s : Text) : Plain (choose words default s) := by
  rw [choose]
  cases hw : words.find? fun w => occurs w.toList s with
  | none => exact h default List.mem_cons_self
  | some w => exact h w (List.mem_cons_of_mem _ (List.mem_of_find?_eq_some hw))

theorem plain_algorithmValue (s : Text) : Plain (algorithmValue s) := by
  rw [algorithmValue]
  split_ifs <;> decide +kernel

theorem plain_serverValues : ∀ p ∈ serverValues, Plain p.1.toList ∧ ∀ s, Plain (p.2 s) := by
  simp only [serverValues, List.forall_mem_cons]
  refine ⟨⟨by decide +kernel, plain_choose (by decide +kernel)⟩,
    ⟨by decide +kernel, plain_choose (by decide +kernel)⟩,
    ⟨by decide +kernel, plain_choose (by decide +kernel)⟩,
    ⟨by decide +kernel, plain_choose (by decide +kernel)⟩, List.forall_mem_nil _⟩

theorem editOf_eq_replace {part : Option QNode} {value : Text → Text} {w : Text}
    (h : editOf part value = .replace w) : ∃ q ∈ part, q.IsUpdate ∧ w = value q.value := by
  cases part with
  | none => cases h
  | some q =>
    by_cases hu : q.IsUpdate
    · rw [editOf_update hu] at h
      exact ⟨q, rfl, hu, (Edit.replace.inj h).symm⟩
    · by_cases hd : q.op = .drop
      · rw [editOf_drop hd] at h
        cases h
      · rw [editOf_other hu hd] at h
        cases h

theorem plain_serverEdits : ∀ e ∈ serverEdits query, ∀ value, e.2 = .replace value →
    Plain e.1 ∧ Plain value := by
  refine List.forall_mem_map.2 fun p hp value hvalue => ?_
  obtain ⟨hattr, hwords⟩ := plain_serverValues p hp
  obtain ⟨q, -, -, rfl⟩ := editOf_eq_replace hvalue
  exact ⟨hattr, hwords _⟩

theorem plain_authenticateEdits
    (hnonce : ∀ q ∈ attributeQuery query "www_authenticate".toList "nonce".toList, ¬ q.IsUpdate)
    (vlst : List Val) : ∀ e ∈ authenticateEdits query rand vlst, ∀ value, e.2 = .replace value →
      Plain e.1 ∧ Plain value := by
  simp only [authenticateEdits, List.forall_mem_cons]
  refine ⟨fun value hvalue => ?_, fun value hvalue => ?_, List.forall_mem_nil _⟩
  · obtain ⟨q, hq, hu, -⟩ := editOf_eq_replace hvalue
    exact absurd hu (hnonce q hq)
  · obtain ⟨q, -, -, rfl⟩ := editOf_eq_replace hvalue
    exact ⟨by decide +kernel, plain_algorithmValue _⟩

theorem removed_authenticateEdits (query : Option Query) (rand : ℕ → ℕ) (vlst : List Val) :
    removed (authenticateEdits query rand vlst) =
      dropped query "www_authenticate" ["nonce", "algorithm"] :=
  removed_eq_dropped [("nonce", nonceValue rand ((getValueLength vlst "nonce".toList).getD 0)),
    ("algorithm", algorithmValue)]

theorem removed_serverEdits :
    removed (serverEdits query) = dropped query "security_server" ["alg", "ealg", "prot", "mod"] :=
  removed_eq_dropped serverValues

/-- A header that was read, after edits that set plain words. -/
theorem readsBack_applyEdits_iff {kvp : Kvp} (hkey : kvp.key ≠ []) (hcolon : ':' ∉ kvp.key)
    (hread : kvp.ReadsBack) {edits : List (Text × Edit)}
    (hplain : ∀ e ∈ edits, ∀ value, e.2 = .replace value → Plain e.1 ∧ Plain value) :
    Kvp.ReadsBack { kvp with vlst := applyEdits edits kvp.vlst } ↔
      Rejoins ((left (removed edits) kvp.vlst).map Val.token) := by
  have hclean := clean_applyEdits hplain (clean_of_readsBack hkey hcolon hread)
  rw [readsBack_iff_rejoins hkey hcolon hclean, rejoins_applyEdits_iff]

theorem key_of_getKvp {key : Text} {kvp : Kvp} (h : m.getKvp key = some kvp) : kvp.key = key := by
  simpa using List.find?_some h

/-- Both headers of the result, in terms of those of the message. -/
theorem readsBack_mutated_iff (hread : m.ReadsBack)
    (hnonce : ∀ q ∈ attributeQuery query "www_authenticate".toList "nonce".toList, ¬ q.IsUpdate) :
    (m.mutated query rand).ReadsBack ↔
      (∀ kvp ∈ m.getKvp "WWW-Authenticate".toList,
        Rejoins ((left (dropped query "www_authenticate" ["nonce", "algorithm"]) kvp.vlst).map
          Val.token)) ∧
      ∀ kvp ∈ m.getKvp "Security-Server".toList,
        Rejoins ((left (dropped query "security_server" ["alg", "ealg", "prot", "mod"]) kvp.vlst).map
          Val.token) := by
  have hframed := framed_mutated query rand m
  simp only [SipMessage.ReadsBack, changedHeaders, List.forall_mem_cons] at hread ⊢
  rw [hframed.authenticate, hframed.server]
  have hauthenticate : ∀ kvp, m.getKvp "WWW-Authenticate".toList = some kvp →
      (Kvp.ReadsBack { kvp with vlst := applyEdits (authenticateEdits query rand kvp.vlst) kvp.vlst } ↔
        Rejoins ((left (dropped query "www_authenticate" ["nonce", "algorithm"]) kvp.vlst).map
          Val.token)) := by
    intro kvp hkvp
    have hkey := key_of_getKvp hkvp
    rw [← removed_authenticateEdits query rand kvp.vlst]
    exact readsBack_applyEdits_iff (by rw [hkey]; decide +kernel) (by rw [hkey]; decide +kernel)
      (hread.1 kvp hkvp) (plain_authenticateEdits hnonce kvp.vlst)
  have hserver : ∀ kvp, m.getKvp "Security-Server".toList = some kvp →
      (Kvp.ReadsBack { kvp with vlst := applyEdits (serverEdits query) kvp.vlst } ↔
        Rejoins ((left (dropped query "security_server" ["alg", "ealg", "prot", "mod"])
          kvp.vlst).map Val.token)) := by
    intro kvp hkvp
    have hkey := key_of_getKvp hkvp
    rw [← removed_serverEdits]
    exact readsBack_applyEdits_iff (by rw [hkey]; decide +kernel) (by rw [hkey]; decide +kernel)
      (hread.2.1 kvp hkvp) plain_serverEdits
  rw [Option.forall_mem_map, Option.forall_mem_map]
  constructor
  · rintro ⟨hw, hs, -⟩
    exact ⟨fun kvp hkvp => (hauthenticate kvp hkvp).1 (hw kvp hkvp),
      fun kvp hkvp => (hserver kvp hkvp).1 (hs kvp hkvp)⟩
  · rintro ⟨hw, hs⟩
    exact ⟨fun kvp hkvp => (hauthenticate kvp hkvp).2 (hw kvp hkvp),
      fun kvp hkvp => (hserver kvp hkvp).2 (hs kvp hkvp), List.forall_mem_nil _⟩

theorem exists_of_firstValue_ne_nil {key attr : Text} (h : m.firstValue key attr ≠ []) :
    ∃ vs, m.attributes key attr = some vs ∧ ∃ v ∈ vs.head?, v.val.getD [] ≠ [] := by
  rw [SipMessage.firstValue] at h
  cases hvs : m.attributes key attr with
  | none =>
    rw [hvs] at h
    exact absurd rfl h
  | some vs =>
    rw [hvs] at h
    cases hv : vs.head? with
    | none =>
      simp [hv] at h
    | some v =>
      refine ⟨vs, rfl, v, hv, ?_⟩
      simpa [hv] using h

theorem safe_of_present (hpresent : Present query m)
    (halgorithm : ∀ q ∈ attributeQuery query "www_authenticate".toList "algorithm".toList, q.IsUpdate) :
    Safe query m := by
  simp only [Present, targets, List.forall_mem_cons] at hpresent
  obtain ⟨hnonce, -, halg, healg, hprot, hmod, -⟩ := hpresent
  have hserver : ∀ attr : String,
      ((attributeQuery query "security_server".toList attr.toList).isSome →
        m.firstValue "Security-Server".toList attr.toList ≠ []) →
      ServerSafe query attr (m.attributes "Security-Server".toList attr.toList) := by
    intro attr hattr q hq _ vs hvs
    obtain ⟨vs', hvs', v, hv, -⟩ := exists_of_firstValue_ne_nil (hattr (Option.isSome_of_mem hq))
    obtain rfl := Option.some.inj (hvs'.symm.trans hvs)
    exact List.ne_nil_of_mem (List.mem_of_head? hv)
  refine ⟨fun q hq => ?_, halgorithm, ?_⟩
  · obtain ⟨vs, hvs, v, hv, hval⟩ := exists_of_firstValue_ne_nil (hnonce (Option.isSome_of_mem hq))
    exact ⟨vs, hvs, fun _ => ⟨v, hv, hval⟩, fun _ => List.ne_nil_of_mem (List.mem_of_head? hv)⟩
  · simp only [serverValues, List.forall_mem_cons]
    exact ⟨hserver _ halg, hserver _ healg, hserver _ hprot, hserver _ hmod, List.forall_mem_nil _⟩

theorem mem_apply_of_ne {attr : Text} {v : Val} {vlst : List Val} (hv : v ∈ vlst)
    (hne : v.attr ≠ some attr) (edit : Edit) : v ∈ edit.apply attr vlst := by
  cases edit with
  | keep => exact hv
  | replace value => exact List.mem_map.2 ⟨v, hv, if_neg hne⟩
  | remove => exact (List.mem_eraseP_of_neg (by simpa using hne)).2 hv

theorem applyEdits_authenticateEdits (vlst : List Val) :
    applyEdits (authenticateEdits query rand vlst) vlst =
      (editOf (attributeQuery query "www_authenticate".toList "algorithm".toList)
        algorithmValue).apply "algorithm".toList
        ((nonceEdit query rand vlst).apply "nonce".toList vlst) := rfl

/-- A nonce that was set ends in an assignment, and is not read as it was set. -/
theorem not_update_of_readsBack (hpresent : Present query m) (hread : (m.mutated query rand).ReadsBack) :
    ∀ q ∈ attributeQuery query "www_authenticate".toList "nonce".toList, ¬ q.IsUpdate := by
  intro q hq hu
  obtain ⟨vs, hvs, v, hv, hval⟩ :=
    exists_of_firstValue_ne_nil (hpresent _ List.mem_cons_self (Option.isSome_of_mem hq))
  obtain ⟨kvp, hkvp, rfl⟩ := Option.map_eq_some_iff.1 hvs
  have hframed := framed_mutated query rand m
  have hkvp' := hframed.authenticate
  rw [hkvp] at hkvp'
  have hback := hread _ List.mem_cons_self _ hkvp'
  have hkey := key_of_getKvp hkvp
  obtain ⟨hinit, -⟩ := (readsBack_iff (by rw [hkey]; decide +kernel) (by rw [hkey]; decide +kernel) _).1 hback
  obtain ⟨hmem, hattr⟩ := List.mem_filter.1 (List.mem_of_head? hv)
  have hattr : v.attr = some "nonce".toList := of_decide_eq_true hattr
  have hlength : (getValueLength kvp.vlst "nonce".toList).getD 0 = (v.val.getD []).length := by
    have hhead : (named "nonce".toList kvp.vlst).head? = some v := hv
    rw [getValueLength_eq, hhead]
    rfl
  -- the entry of the nonce is still there with its new value
  have hset : { v with val := some (nonceValue rand (v.val.getD []).length q.value) } ∈
      applyEdits (authenticateEdits query rand kvp.vlst) kvp.vlst := by
    have hne : some "nonce".toList ≠ some "algorithm".toList := by decide +kernel
    have hedit : nonceEdit query rand kvp.vlst =
        .replace (nonceValue rand (v.val.getD []).length q.value) := by
      have hq' : attributeQuery query "www_authenticate".toList "nonce".toList = some q := hq
      rw [nonceEdit, hlength, hq', editOf_update hu]
    rw [applyEdits_authenticateEdits, hedit]
    apply mem_apply_of_ne
    · exact List.mem_map.2 ⟨v, hmem, if_pos hattr⟩
    · exact hattr.trans_ne hne
  rw [← hinit] at hset
  have hpos : 0 < (v.val.getD []).length := List.length_pos_iff.2 hval
  exact quote_notMem_nonceValue q.value
    (quote_of_mem_initVlst hset _ rfl (assign_mem_nonceValue hpos q.value))

end Ims
