import VoWiFi.Ims.Message
import Mathlib.Tactic.Common

/-!
# Which header values are written back as they were read

Neither scanner adds or moves bytes, so what is written is what was read with some bytes left out. A
value survives exactly if nothing is lost on the way: the last token, the value of an attribute with an
odd number of quotes, or an attribute that a second `=` overwrites.
-/

namespace Ims

/-! ## Attributes -/

/-- What is written for an attribute and a value. -/
def written (attr val : Option Text) : Text := attrText attr ++ val.getD []

/-- The flag of `init_val` after some bytes. -/
def closes (inside : Bool) (cs : Text) : Bool :=
  cs.foldl (fun b c => if c = '"' then !b else b) inside

/-- Writing an attribute that is overwritten is longer. -/
theorem length_written_overwritten (a t cs : Text) :
    (written (some t) (some cs)).length < (written (some a) (some (t ++ '=' :: cs))).length := by
  simp [written, attrText]
  omega

theorem scanVal_sublist (cs : Text) (inside : Bool) (t : Text) (attr : Option Text) :
    (written (scanVal cs inside t attr).1 (scanVal cs inside t attr).2).Sublist
      (written attr (some (t ++ cs))) := by
  induction cs generalizing inside t attr with
  | nil =>
    rw [List.append_nil]
    cases inside with
    | false => exact List.Sublist.refl _
    | true => exact (List.nil_sublist t).append_left _
  | cons c cs ih =>
    unfold scanVal
    split
    · rename_i hassign
      obtain ⟨-, rfl⟩ : inside = false ∧ c = '=' := by simpa using hassign
      refine (ih inside [] (some t)).trans ?_
      cases attr with
      | none => simp [written, attrText]
      | some a => simp [written, attrText]
    · have hrest := ih (if c = '"' then !inside else inside) (t ++ [c]) attr
      rwa [List.append_assoc, List.singleton_append] at hrest

/-- The loop of `init_val` loses nothing exactly if it ends outside quotes and assigns at most once. -/
theorem scanVal_eq_iff (cs : Text) (inside : Bool) (t : Text) (attr : Option Text)
    (hne : inside = true → t ≠ []) :
    written (scanVal cs inside t attr).1 (scanVal cs inside t attr).2 =
      written attr (some (t ++ cs)) ↔
    closes inside cs = false ∧ (if attr.isSome then 1 else 0) + assignments inside cs ≤ 1 := by
  induction cs generalizing inside t attr with
  | nil =>
    rw [List.append_nil]
    have hbound : (if attr.isSome then 1 else 0) + assignments inside [] ≤ 1 := by
      cases attr <;> simp [assignments]
    cases inside with
    | false => exact ⟨fun _ => ⟨rfl, hbound⟩, fun _ => rfl⟩
    | true =>
      constructor
      · intro heq
        have hnil : [] = t := List.append_cancel_left heq
        exact absurd hnil.symm (hne rfl)
      · rintro ⟨hclosed, -⟩
        cases hclosed
  | cons c cs ih =>
    unfold scanVal assignments
    by_cases hassign : (!inside && decide (c = '=')) = true
    · obtain ⟨rfl, rfl⟩ : inside = false ∧ c = '=' := by simpa using hassign
      rw [if_pos hassign, if_pos hassign]
      have hrest := ih false [] (some t) nofun
      cases attr with
      | none =>
        have hsame : written none (some (t ++ '=' :: cs)) = written (some t) (some ([] ++ cs)) := by
          simp [written, attrText]
        rw [hsame, hrest]
        simp [closes]
      | some a =>
        constructor
        · intro heq
          have hle := (scanVal_sublist cs false [] (some t)).length_le
          have hlt := length_written_overwritten a t cs
          rw [heq] at hle
          simp only [List.nil_append] at hle
          omega
        · rintro ⟨-, hbound⟩
          rw [Option.isSome_some, if_pos rfl] at hbound
          omega
    · rw [if_neg hassign, if_neg hassign]
      have hrest := ih (if c = '"' then !inside else inside) (t ++ [c]) attr fun _ => by simp
      rw [List.append_assoc, List.singleton_append] at hrest
      rw [hrest, Nat.zero_add]
      rfl

theorem closes_eq (b : Bool) (cs : Text) :
    closes b cs = false ↔ (Even (cs.count '"') ↔ b = false) := by
  induction cs generalizing b with
  | nil => cases b <;> simp [closes]
  | cons c cs ih =>
    have hstep : closes b (c :: cs) = closes (if c = '"' then !b else b) cs := rfl
    rw [hstep, ih]
    by_cases hc : c = '"'
    · subst hc
      rw [List.count_cons_self, Nat.even_add_one]
      cases b <;> simp
    · simp [hc]

/-- What is written for a token in full. -/
def Token.full (t : Token) : Text :=
  t.text ++ t.delimiter.toList ++ if t.space then [' '] else []

/-- What is written for a token as `init_val` reads it. -/
def Token.rewritten (t : Token) : Text := (initVal t.text t.delimiter t.space).serialize

theorem Token.rewritten_eq (t : Token) :
    t.rewritten = written (scanVal t.text false [] none).1 (scanVal t.text false [] none).2 ++
      (t.delimiter.toList ++ if t.space then [' '] else []) := by
  simp only [Token.rewritten, Val.serialize, written, List.append_assoc]
  rfl

theorem Token.rewritten_sublist (t : Token) : t.rewritten.Sublist t.full := by
  rw [t.rewritten_eq, Token.full, List.append_assoc]
  exact (scanVal_sublist t.text false [] none).append_right _

theorem Token.rewritten_eq_full_iff (t : Token) : t.rewritten = t.full ↔ t.Kept := by
  rw [t.rewritten_eq, Token.full, List.append_assoc, List.append_left_inj]
  have hscan := scanVal_eq_iff t.text false [] none nofun
  rw [closes_eq] at hscan
  simpa [written, attrText, Token.Kept] using hscan

/-! ## Tokens -/

theorem cut_spec {t : Token} {ts : List Token} {cs whole : Text} {closed : Prop}
    (hfull : t.full ++ cs = whole)
    (hrest : (ts.flatMap Token.full).Sublist cs ∧ (ts.flatMap Token.full = cs ↔ closed)) :
    ((t :: ts).flatMap Token.full).Sublist whole ∧
      ((t :: ts).flatMap Token.full = whole ↔ closed) := by
  obtain ⟨hsub, heq⟩ := hrest
  rw [List.flatMap_cons, ← hfull]
  exact ⟨hsub.append_left _, List.append_right_inj _ |>.trans heq⟩

/-- The tokens of `init_vlst` are the value cut into pieces, up to a last token that is lost if the loop
ends inside. -/
theorem scanVlst_spec (cs : Text) (inside : Bool) (q : Text) (hne : inside = true → q ≠ []) :
    ((scanVlst cs inside q).flatMap Token.full).Sublist (q ++ cs) ∧
    ((scanVlst cs inside q).flatMap Token.full = q ++ cs ↔
      cs.foldl nextInside inside = false) := by
  fun_induction scanVlst cs inside q with
  | case1 q =>
    refine ⟨List.nil_sublist _, ?_⟩
    constructor
    · intro heq
      rw [List.append_nil] at heq
      exact absurd heq.symm (hne rfl)
    · intro hclosed
      cases hclosed
  | case2 inside q hout =>
    have hclosed : inside = false := by simpa using hout
    simp [Token.full, hclosed]
  | case3 c cs inside q hcut ih =>
    obtain ⟨rfl, rfl⟩ : inside = false ∧ c = ';' := by simpa using hcut
    exact cut_spec (by simp [Token.full]) (ih nofun)
  | case4 c cs inside q _ hcut ih =>
    obtain ⟨rfl, rfl⟩ : inside = false ∧ c = ' ' := by simpa using hcut
    exact cut_spec (by simp [Token.full]) (ih nofun)
  | case5 c inside q _ _ hcut ih =>
    obtain ⟨rfl, rfl⟩ : inside = false ∧ c = ',' := by simpa using hcut
    exact cut_spec (by simp [Token.full]) (ih nofun)
  | case6 c inside q _ _ hcut ds ih =>
    obtain ⟨rfl, rfl⟩ : inside = false ∧ c = ',' := by simpa using hcut
    exact cut_spec (by simp [Token.full]) (ih nofun)
  | case7 c inside q _ _ hcut d ds hd ih =>
    obtain ⟨rfl, rfl⟩ : inside = false ∧ c = ',' := by simpa using hcut
    exact cut_spec (by simp [Token.full]) (ih nofun)
  | case8 c cs inside q _ _ _ ih =>
    have hrest := ih fun _ => by simp
    rwa [List.append_assoc, List.singleton_append] at hrest

/-! ## Values -/

theorem serializeValue_initVlst (v : Text) :
    serializeValue (initVlst v) = (tokens v).flatMap Token.rewritten := by
  rw [serializeValue, initVlst, List.flatMap_map]
  rfl

theorem flatMap_sublist (ts : List Token) :
    (ts.flatMap Token.rewritten).Sublist (ts.flatMap Token.full) := by
  induction ts with
  | nil => exact List.Sublist.refl _
  | cons t ts ih => exact t.rewritten_sublist.append ih

/-- Writing back what was read adds nothing. -/
theorem serializeValue_sublist (v : Text) : (serializeValue (initVlst v)).Sublist v := by
  rw [serializeValue_initVlst]
  exact (flatMap_sublist _).trans (scanVlst_spec v false [] nofun).1

theorem flatMap_eq_iff {ts : List Token} :
    ts.flatMap Token.rewritten = ts.flatMap Token.full ↔ ∀ t ∈ ts, t.Kept := by
  induction ts with
  | nil => simp
  | cons t ts ih =>
    rw [List.forall_mem_cons, ← ih, ← t.rewritten_eq_full_iff, List.flatMap_cons, List.flatMap_cons]
    constructor
    · intro heq
      -- neither part can make up for what the other loses
      have h₁ := t.rewritten_sublist.length_le
      have h₂ := (flatMap_sublist ts).length_le
      have hlen := congrArg List.length heq
      rw [List.length_append, List.length_append] at hlen
      exact ⟨t.rewritten_sublist.eq_of_length (by omega), (flatMap_sublist ts).eq_of_length (by omega)⟩
    · rintro ⟨h₁, h₂⟩
      rw [h₁, h₂]

/-- A header value is written back as it was read exactly if it is lossless. -/
theorem serializeValue_eq_iff (v : Text) : serializeValue (initVlst v) = v ↔ Lossless v := by
  obtain ⟨hsub, hfull⟩ := scanVlst_spec v false [] nofun
  rw [List.nil_append] at hsub hfull
  rw [serializeValue_initVlst, Lossless, EndsOutside, ← hfull, ← flatMap_eq_iff]
  constructor
  · intro heq
    have hwhole : (tokens v).flatMap Token.full = v := by
      refine hsub.eq_of_length (le_antisymm hsub.length_le ?_)
      have hle := (flatMap_sublist (tokens v)).length_le
      rwa [heq] at hle
    exact ⟨hwhole, heq.trans hwhole.symm⟩
  · rintro ⟨hwhole, heq⟩
    exact heq.trans hwhole

/-! ## Header lines -/

/-- A header line is cut at the first colon, and the spaces behind it are skipped. -/
theorem parseKeyValueLine_append {key : Text} (hkey : key ≠ []) (hcolon : ':' ∉ key) (rest : Text) :
    parseKeyValueLine (key ++ ':' :: rest) =
      if rest.dropWhile (· = ' ') = [] then none
      else some ⟨key, initVlst (rest.dropWhile (· = ' '))⟩ := by
  have hall : ∀ c ∈ key, decide (c ≠ ':') = true := by
    intro c hc
    rw [decide_eq_true_iff]
    rintro rfl
    exact hcolon hc
  have htake : (key ++ ':' :: rest).takeWhile (· ≠ ':') = key := by
    rw [List.takeWhile_append_of_pos hall]
    exact List.append_nil key
  have hdrop : (key ++ ':' :: rest).dropWhile (· ≠ ':') = ':' :: rest := by
    rw [List.dropWhile_append_of_pos hall]
    rfl
  rw [parseKeyValueLine, htake, hdrop]
  dsimp only
  by_cases hrest : rest.dropWhile (· = ' ') = []
  · rw [if_neg fun h => h.1 hrest, if_pos hrest]
  · rw [if_pos ⟨hrest, hkey⟩, if_neg hrest]

/-! ## The buffers -/

theorem length_token_le {v : Text} {t : Token} (ht : t ∈ tokens v) : t.text.length ≤ v.length := by
  have hfull : t.text.length ≤ t.full.length := by
    rw [Token.full, List.append_assoc, List.length_append]
    omega
  have hpart : t.full.length ≤ ((tokens v).flatMap Token.full).length :=
    (List.sublist_flatten_of_mem (List.mem_map_of_mem ht)).length_le
  have hwhole := (scanVlst_spec v false [] nofun).1.length_le
  rw [List.nil_append] at hwhole
  exact hfull.trans (hpart.trans hwhole)

/-- A value that fits into the buffers of both scanners is written back as it was read exactly if the
outer scanner ends outside quotes and brackets, and every token has an even number of quotes and at most
one assignment outside them. -/
theorem serializeValue_of_fits (v : Text) (hlen : v.length < scBufLength) :
    (∀ t ∈ tokens v, t.text.length < scBufLength) ∧
    (serializeValue (initVlst v)).length < scBufLength ∧
    (serializeValue (initVlst v) = v ↔
      v.foldl nextInside false = false ∧ (∀ t ∈ tokens v, Even (t.text.count '"')) ∧
        ∀ t ∈ tokens v, assignments false t.text ≤ 1) := by
  refine ⟨fun t ht => (length_token_le ht).trans_lt hlen,
    (serializeValue_sublist v).length_le.trans_lt hlen, ?_⟩
  rw [serializeValue_eq_iff, Lossless, ← forall₂_and]
  exact Iff.rfl

theorem serializeValue_of_fits_algorithm :
    "alg=md5, qop=\"a;b\"".toList.length < scBufLength ∧
      serializeValue (initVlst "alg=md5, qop=\"a;b\"".toList) = "alg=md5, qop=\"a;b\"".toList :=
  ⟨by decide +kernel,
    (serializeValue_of_fits "alg=md5, qop=\"a;b\"".toList (by decide +kernel)).2.2.2 (by decide +kernel)⟩

end Ims
