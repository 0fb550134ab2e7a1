import VoWiFi.Lib.Json

/-!
# Reading JSON

`json.loads` as a machine that takes one character after the other. Its state holds the arrays and
objects that are open and what may come next. Left out are the constants `NaN` and `Infinity`, and halves
of surrogate pairs that stand alone.
-/

namespace Json

/-- The characters that may stand between tokens. -/
def isSpace (c : Char) : Bool := c = ' ' || c = '\t' || c = '\n' || c = '\r'

/-- An array that is open, with its items, or an object, with its keys and the key whose value is read. -/
inductive Frame where
  | arr (items : List Json)
  | obj (keys : PyDict Json) (key : Text)

/-- How much of an escape sequence has been read. -/
inductive Escape where
  | no
  | started
  | hex (left : ℕ) (code : ℕ)

/-- What has been read last. A string is a value, or a key in an object with some keys already; it may
end in the first half of a surrogate pair. -/
inductive Mode where
  | value
  | firstItem
  | firstKey
  | nextKey (keys : PyDict Json)
  | colon (keys : PyDict Json) (key : Text)
  | string (keys : Option (PyDict Json)) (s : Text) (high : Option ℕ) (escape : Escape)
  | number (s : Text)
  | word (rest : Text) (v : Json)
  | done (v : Json)
  | failed

structure Reader where
  stack : List Frame
  mode : Mode

/-! ## Scalars -/

/-- The digits of a fraction and the exponent, either of which may be missing. -/
def isFraction (s : Text) : Bool :=
  let expo (s : Text) : Bool :=
    match s with
    | [] => true
    | e :: s =>
      let digits := match s with
        | '+' :: s => s
        | '-' :: s => s
        | s => s
      (e = 'e' || e = 'E') && !digits.isEmpty && digits.all (·.isDigit)
  match s with
  | '.' :: s => s.head?.any (·.isDigit) && expo (s.dropWhile (·.isDigit))
  | s => expo s

/-- The number that a text is; its integral part has no zeros in front. -/
def number? (s : Text) : Option Json :=
  let body := match s with
    | '-' :: s => s
    | s => s
  let digits := body.takeWhile (·.isDigit)
  let rest := body.dropWhile (·.isDigit)
  if digits = [] || digits.head? = some '0' && digits ≠ ['0'] then none
  else if rest = [] then
    let n : ℤ := Nat.ofDigitChars 10 digits 0
    some (.int (if s.head? = some '-' then -n else n))
  else if isFraction rest then some (.float s)
  else none

def isNumberChar (c : Char) : Bool := c.isDigit || c ∈ ['-', '+', '.', 'e', 'E']

/-- The character behind a backslash stands for. -/
def unescape : Char → Option Char
  | '"' => some '"'
  | '\\' => some '\\'
  | '/' => some '/'
  | 'b' => some '\x08'
  | 'f' => some '\x0c'
  | 'n' => some '\n'
  | 'r' => some '\r'
  | 't' => some '\t'
  | _ => none

def hexDigit? (c : Char) : Option ℕ :=
  if '0' ≤ c && c ≤ '9' then some (c.toNat - 48)
  else if 'a' ≤ c && c ≤ 'f' then some (c.toNat - 87)
  else if 'A' ≤ c && c ≤ 'F' then some (c.toNat - 55)
  else none

/-! ## The machine -/

namespace Reader

def fail : Reader := ⟨[], .failed⟩

/-- The first character of a value. -/
def startValue (stack : List Frame) (c : Char) : Reader :=
  if c = '"' then ⟨stack, .string none [] none .no⟩
  else if c = '[' then ⟨.arr [] :: stack, .firstItem⟩
  else if c = '\x7b' then ⟨stack, .firstKey⟩
  else if c = 't' then ⟨stack, .word "rue".toList (.bool true)⟩
  else if c = 'f' then ⟨stack, .word "alse".toList (.bool false)⟩
  else if c = 'n' then ⟨stack, .word "ull".toList .null⟩
  else if c = '-' || c.isDigit then ⟨stack, .number [c]⟩
  else fail

/-- A character behind a value. -/
def afterValue (stack : List Frame) (v : Json) (c : Char) : Reader :=
  if isSpace c then ⟨stack, .done v⟩
  else match c, stack with
    | ',', .arr items :: stack => ⟨.arr (items ++ [v]) :: stack, .value⟩
    | ',', .obj keys key :: stack => ⟨stack, .nextKey (keys.set key v)⟩
    | ']', .arr items :: stack => ⟨stack, .done (.arr (items ++ [v]))⟩
    | '\x7d', .obj keys key :: stack => ⟨stack, .done (.obj (keys.set key v))⟩
    | _, _ => fail

/-- A character that an escape sequence with a code stands for; codes of one half make up a pair. -/
def endEscape (stack : List Frame) (keys : Option (PyDict Json)) (s : Text) (high : Option ℕ)
    (code : ℕ) : Reader :=
  match high with
  | some h =>
    if 0xdc00 ≤ code && code ≤ 0xdfff then
      ⟨stack, .string keys (s ++ [Char.ofNat (0x10000 + (h - 0xd800) * 0x400 + (code - 0xdc00))]) none .no⟩
    else fail
  | none =>
    if 0xd800 ≤ code && code ≤ 0xdbff then ⟨stack, .string keys s (some code) .no⟩
    else if 0xdc00 ≤ code && code ≤ 0xdfff then fail
    else ⟨stack, .string keys (s ++ [Char.ofNat code]) none .no⟩

/-- A character in a string. -/
def inString (stack : List Frame) (keys : Option (PyDict Json)) (s : Text) (high : Option ℕ) :
    Escape → Char → Reader
  | .no, c =>
    if c = '\\' then ⟨stack, .string keys s high .started⟩
    else if high.isSome then fail
    else if c = '"' then
      match keys with
      | none => ⟨stack, .done (.str s)⟩
      | some keys => ⟨stack, .colon keys s⟩
    else if c.toNat < 32 then fail
    else ⟨stack, .string keys (s ++ [c]) none .no⟩
  | .started, c =>
    if c = 'u' then ⟨stack, .string keys s high (.hex 4 0)⟩
    else if high.isSome then fail
    else match unescape c with
      | some c => ⟨stack, .string keys (s ++ [c]) none .no⟩
      | none => fail
  | .hex left code, c =>
    match hexDigit? c with
    | some d =>
      if left ≤ 1 then endEscape stack keys s high (code * 16 + d)
      else ⟨stack, .string keys s high (.hex (left - 1) (code * 16 + d))⟩
    | none => fail

def step (r : Reader) (c : Char) : Reader :=
  match r.mode with
  | .value => if isSpace c then r else startValue r.stack c
  | .firstItem =>
    if isSpace c then r
    else if c = ']' then ⟨r.stack.tail, .done (.arr [])⟩
    else startValue r.stack c
  | .firstKey =>
    if isSpace c then r
    else if c = '\x7d' then ⟨r.stack, .done (.obj [])⟩
    else if c = '"' then ⟨r.stack, .string (some []) [] none .no⟩
    else fail
  | .nextKey keys =>
    if isSpace c then r
    else if c = '"' then ⟨r.stack, .string (some keys) [] none .no⟩
    else fail
  | .colon keys key =>
    if isSpace c then r
    else if c = ':' then ⟨.obj keys key :: r.stack, .value⟩
    else fail
  | .string keys s high escape => inString r.stack keys s high escape c
  | .number s =>
    if isNumberChar c then ⟨r.stack, .number (s ++ [c])⟩
    else match number? s with
      | some v => afterValue r.stack v c
      | none => fail
  | .word rest v =>
    if rest.head? = some c then ⟨r.stack, if rest.tail = [] then .done v else .word rest.tail v⟩
    else fail
  | .done v => afterValue r.stack v c
  | .failed => r

def run (r : Reader) (s : Text) : Reader := s.foldl step r

/-- The state once a number that may be read is taken to be complete. -/
def settle (r : Reader) : Reader :=
  match r.mode with
  | .number s =>
    match number? s with
    | some v => ⟨r.stack, .done v⟩
    | none => fail
  | _ => r

end Reader

/-- `json.loads`; `none` is a `JSONDecodeError`. -/
def loads (s : Text) : Option Json :=
  match (Reader.run ⟨[], .value⟩ s).settle with
  | ⟨[], .done v⟩ => some v
  | _ => none

namespace Reader

/-! ## Runs -/

@[simp]
theorem run_nil (r : Reader) : r.run [] = r := rfl

@[simp]
theorem run_cons (r : Reader) (c : Char) (s : Text) : r.run (c :: s) = (r.step c).run s := rfl

theorem run_append (r : Reader) (s t : Text) : r.run (s ++ t) = (r.run s).run t := List.foldl_append

@[simp]
theorem run_fail (s : Text) : fail.run s = fail := by
  induction s with
  | nil => rfl
  | cons c s ih => exact ih

/-- Spaces are skipped in a state that skips each of them. -/
theorem run_spaces {r : Reader} (hr : ∀ c, isSpace c = true → r.step c = r) {s : Text}
    (hs : ∀ c ∈ s, isSpace c = true) : r.run s = r := by
  induction s with
  | nil => rfl
  | cons c s ih =>
    rw [List.forall_mem_cons] at hs
    rw [run_cons, hr c hs.1, ih hs.2]

theorem step_value_space (stack : List Frame) {c : Char} (h : isSpace c = true) :
    step ⟨stack, .value⟩ c = ⟨stack, .value⟩ := if_pos h

theorem step_firstItem_space (stack : List Frame) {c : Char} (h : isSpace c = true) :
    step ⟨stack, .firstItem⟩ c = ⟨stack, .firstItem⟩ := if_pos h

theorem step_colon_space (stack : List Frame) (keys : PyDict Json) (key : Text) {c : Char}
    (h : isSpace c = true) : step ⟨stack, .colon keys key⟩ c = ⟨stack, .colon keys key⟩ := if_pos h

theorem step_done_space (stack : List Frame) (v : Json) {c : Char} (h : isSpace c = true) :
    step ⟨stack, .done v⟩ c = ⟨stack, .done v⟩ := if_pos h

theorem run_done_spaces (stack : List Frame) (v : Json) {s : Text} (hs : ∀ c ∈ s, isSpace c = true) (t : Text) :
    run ⟨stack, .done v⟩ (s ++ t) = run ⟨stack, .done v⟩ t := by
  rw [run_append, run_spaces (fun c => step_done_space stack v) hs]

/-! ## Complete numbers -/

/-- A character that cannot be in a number completes it. -/
theorem step_settle (r : Reader) {c : Char} (h : isNumberChar c = false) : r.settle.step c = r.step c := by
  obtain ⟨stack, mode⟩ := r
  cases mode with
  | number s =>
    simp only [settle, step, h, if_neg Bool.false_ne_true]
    cases number? s <;> rfl
  | _ => rfl

/-- Reading on behind a text after which the state is known, apart from a number that may be complete. -/
theorem run_append_cons {r r' : Reader} {s : Text} (h : (r.run s).settle = r') {c : Char}
    (hc : isNumberChar c = false) (t : Text) : r.run (s ++ c :: t) = r'.run (c :: t) := by
  rw [run_append, run_cons, run_cons, ← h, step_settle _ hc]

theorem isNumberChar_of_isSpace {c : Char} (h : isSpace c = true) : isNumberChar c = false := by
  have hc : c = ' ' ∨ c = '\t' ∨ c = '\n' ∨ c = '\r' := by simpa [isSpace, or_assoc] using h
  rcases hc with rfl | rfl | rfl | rfl <;> rfl

/-- The same with spaces in between. -/
theorem run_append_spaces {r r' : Reader} {s gap : Text} (h : (r.run s).settle = r')
    (hgap : ∀ c ∈ gap, isSpace c = true) {c : Char} (hc : isNumberChar c = false) (t : Text) :
    r.run (s ++ (gap ++ c :: t)) = r'.run (gap ++ c :: t) := by
  cases gap with
  | nil => exact run_append_cons h hc t
  | cons c' gap => exact run_append_cons h (isNumberChar_of_isSpace (hgap c' List.mem_cons_self)) _

/-- A value, spaces, and the character behind them. -/
theorem run_append_done {r : Reader} {stack : List Frame} {v : Json} {s gap : Text}
    (h : (r.run s).settle = ⟨stack, .done v⟩) (hgap : ∀ c ∈ gap, isSpace c = true) {c : Char}
    (hc : isNumberChar c = false) (t : Text) :
    r.run (s ++ (gap ++ c :: t)) = run (afterValue stack v c) t := by
  rw [run_append_spaces h hgap hc, run_done_spaces stack v hgap]
  rfl

/-! ## Values -/

/-- A text is read as a value, wherever a value is expected. -/
def Reads (s : Text) (v : Json) : Prop := ∀ stack, (run ⟨stack, .value⟩ s).settle = ⟨stack, .done v⟩

/-- A state in which a value is expected, in an array possibly its end as well. -/
def Expects (stack : List Frame) (r : Reader) : Prop := r = ⟨stack, .value⟩ ∨ r = ⟨stack, .firstItem⟩

theorem Expects.step_eq {stack : List Frame} {r : Reader} (h : Expects stack r) {c : Char}
    (hspace : isSpace c = false) (hc : c ≠ ']') : r.step c = startValue stack c := by
  rcases h with rfl | rfl
  · simp [step, hspace]
  · simp [step, hspace, hc]

theorem Expects.run_spaces {stack : List Frame} {r : Reader} (h : Expects stack r) {s : Text}
    (hs : ∀ c ∈ s, isSpace c = true) : r.run s = r := by
  rcases h with rfl | rfl
  · exact Reader.run_spaces (fun c => step_value_space stack) hs
  · exact Reader.run_spaces (fun c => step_firstItem_space stack) hs

theorem Reads.run_eq {s : Text} {v : Json} (h : Reads s v) {stack : List Frame} {r : Reader}
    (hr : Expects stack r) : (r.run s).settle = ⟨stack, .done v⟩ := by
  rcases hr with rfl | rfl
  · exact h stack
  · -- spaces are skipped in both states, and the text does not start with the end of an array
    have hv := h stack
    clear h
    induction s with
    | nil => cases hv
    | cons c s ih =>
      by_cases hspace : isSpace c = true
      · rw [run_cons, step_value_space stack hspace] at hv
        rw [run_cons, step_firstItem_space stack hspace]
        exact ih hv
      · have hspace : isSpace c = false := Bool.eq_false_iff.2 hspace
        by_cases hc : c = ']'
        · subst hc
          rw [run_cons, show step ⟨stack, .value⟩ ']' = fail from rfl, run_fail] at hv
          cases hv
        · rw [run_cons, Expects.step_eq (Or.inl rfl) hspace hc] at hv
          rw [run_cons, Expects.step_eq (Or.inr rfl) hspace hc]
          exact hv

/-! ## Strings -/

/-- What stands between the quotation marks of a string. -/
def IsBody (body s : Text) : Prop :=
  ∀ stack keys, run ⟨stack, .string keys [] none .no⟩ body = ⟨stack, .string keys s none .no⟩

/-- A character that stands for itself in a string. -/
def isPlainChar (c : Char) : Bool := c ≠ '"' && c ≠ '\\' && 32 ≤ c.toNat

theorem isBody_of_plain {s : Text} (h : ∀ c ∈ s, isPlainChar c = true) : IsBody s s := by
  intro stack keys
  have hrun : ∀ acc, run ⟨stack, .string keys acc none .no⟩ s = ⟨stack, .string keys (acc ++ s) none .no⟩ := by
    induction s with
    | nil =>
      intro acc
      rw [List.append_nil]
      rfl
    | cons c s ih =>
      intro acc
      rw [List.forall_mem_cons] at h
      have hc : c ≠ '"' ∧ c ≠ '\\' ∧ ¬ c.toNat < 32 := by
        simpa [isPlainChar, and_assoc] using h.1
      have hstep : step ⟨stack, .string keys acc none .no⟩ c = ⟨stack, .string keys (acc ++ [c]) none .no⟩ := by
        simp [step, inString, hc]
      rw [run_cons, hstep, ih h.2, List.append_assoc]
      rfl
  exact hrun []

theorem IsBody.run_value {body s : Text} (h : IsBody body s) {stack : List Frame} {r : Reader}
    (hr : Expects stack r) : r.run ('"' :: body ++ ['"']) = ⟨stack, .done (.str s)⟩ := by
  rw [List.cons_append, run_cons, run_append, hr.step_eq rfl (by decide),
    show startValue stack '"' = ⟨stack, .string none [] none .no⟩ from rfl, h]
  rfl

/-- A state in which the key of an object is expected, at its beginning possibly its end as well. -/
def ExpectsKey (stack : List Frame) (keys : PyDict Json) (r : Reader) : Prop :=
  r = ⟨stack, .nextKey keys⟩ ∨ keys = [] ∧ r = ⟨stack, .firstKey⟩

theorem ExpectsKey.step_quote {stack : List Frame} {keys : PyDict Json} {r : Reader}
    (h : ExpectsKey stack keys r) : r.step '"' = ⟨stack, .string (some keys) [] none .no⟩ := by
  rcases h with rfl | ⟨rfl, rfl⟩
  · rfl
  · rfl

theorem ExpectsKey.run_spaces {stack : List Frame} {keys : PyDict Json} {r : Reader}
    (h : ExpectsKey stack keys r) {s : Text} (hs : ∀ c ∈ s, isSpace c = true) : r.run s = r := by
  have hstep : ∀ c, isSpace c = true → r.step c = r := by
    rcases h with rfl | ⟨rfl, rfl⟩
    · exact fun c hc => if_pos hc
    · exact fun c hc => if_pos hc
  exact Reader.run_spaces hstep hs

/-- A key and its colon, with the text behind it. -/
def keyText (body before after : Text) : Text := '"' :: (body ++ '"' :: (before ++ ':' :: after))

theorem IsBody.run_key {body key : Text} (h : IsBody body key) {stack : List Frame} {keys : PyDict Json}
    {r : Reader} (hr : ExpectsKey stack keys r) {before : Text} (hbefore : ∀ c ∈ before, isSpace c = true)
    (t : Text) : r.run (keyText body before t) = run ⟨.obj keys key :: stack, .value⟩ t := by
  rw [keyText, run_cons, hr.step_quote, run_append, h, run_cons,
    show step ⟨stack, .string (some keys) key none .no⟩ '"' = ⟨stack, .colon keys key⟩ from rfl, run_append,
    run_spaces (fun c => step_colon_space stack keys key) hbefore]
  rfl

/-- A key is not a value. -/
theorem IsBody.run_key_eq_fail {body key : Text} (h : IsBody body key) (stack : List Frame) {before : Text}
    (hbefore : ∀ c ∈ before, isSpace c = true) (t : Text) :
    run ⟨stack, .value⟩ (keyText body before t) = fail := by
  have hsplit : keyText body before t = ('"' :: body ++ ['"']) ++ (before ++ ':' :: t) := by
    simp [keyText]
  rw [hsplit, run_append, h.run_value (Or.inl rfl), run_append,
    run_spaces (fun c => step_done_space stack _) hbefore, run_cons]
  exact run_fail t

/-- A string with spaces around it. -/
theorem IsBody.reads {body s l t : Text} (h : IsBody body s) (hl : ∀ c ∈ l, isSpace c = true)
    (ht : ∀ c ∈ t, isSpace c = true) : Reads (l ++ ('"' :: body ++ ['"']) ++ t) (.str s) := by
  intro stack
  rw [run_append, run_append, run_spaces (fun c => step_value_space stack) hl, h.run_value (Or.inl rfl),
    run_spaces (fun c => step_done_space stack _) ht]
  rfl

/-! ## Integers -/

theorem isNumberChar_of_isDigit {c : Char} (h : c.isDigit = true) : isNumberChar c = true := by
  rw [isNumberChar, h, Bool.true_or]

theorem run_number {s : Text} (h : ∀ c ∈ s, isNumberChar c = true) (stack : List Frame) (acc : Text) :
    run ⟨stack, .number acc⟩ s = ⟨stack, .number (acc ++ s)⟩ := by
  induction s generalizing acc with
  | nil => rw [List.append_nil]; rfl
  | cons c s ih =>
    rw [List.forall_mem_cons] at h
    rw [run_cons, show step ⟨stack, .number acc⟩ c = ⟨stack, .number (acc ++ [c])⟩ from if_pos h.1, ih h.2,
      List.append_assoc]
    rfl

theorem startValue_of_isDigit {c : Char} (h : c = '-' ∨ c.isDigit = true) (stack : List Frame) :
    isSpace c = false ∧ startValue stack c = ⟨stack, .number [c]⟩ := by
  have hne : ∀ d : Char, d ≠ '-' → d.isDigit = false → c ≠ d := by
    rintro d hd hdigit rfl
    rcases h with h | h
    · exact hd h
    · rw [hdigit] at h
      cases h
  constructor
  · simp [isSpace, hne]
  · rcases h with rfl | h
    · rfl
    · simp [startValue, hne, h]

/-- The integral part of a number has no zeros in front. -/
theorem head?_toDigits_ne_zero {n : ℕ} (h : n ≠ 0) : (Nat.toDigits 10 n).head? ≠ some '0' := by
  induction n using Nat.strong_induction_on with
  | _ n ih =>
    rw [Nat.toDigits_eq_if (by omega)]
    split
    · rename_i hlt
      rw [List.head?_cons, ne_eq, Option.some.injEq]
      exact (by decide : ∀ k < 10, k ≠ 0 → k.digitChar ≠ '0') n hlt h
    · rename_i hge
      have hhead := ih (n / 10) (by omega) (by omega)
      have hne : Nat.toDigits 10 (n / 10) ≠ [] := Nat.toDigits_ne_nil
      obtain ⟨c, s, hs⟩ := List.exists_cons_of_ne_nil hne
      rw [hs] at hhead ⊢
      exact hhead

/-- Digits without zeros in front, with or without a sign. -/
theorem number?_of_isDigit {s : Text} (h : ∀ c ∈ s, c.isDigit = true) (hne : s ≠ [])
    (hzero : s.head? = some '0' → s = ['0']) :
    number? s = some (.int (Nat.ofDigitChars 10 s 0)) ∧
      number? ('-' :: s) = some (.int (-(Nat.ofDigitChars 10 s 0 : ℕ))) := by
  have htake : s.takeWhile (·.isDigit) = s := List.takeWhile_eq_self_iff.2 h
  have hdrop : s.dropWhile (·.isDigit) = [] := List.dropWhile_eq_nil_iff.2 h
  have hcond : ¬ ((decide (s = []) || decide (s.head? = some '0') && decide (s ≠ ['0'])) = true) := by
    simpa [hne] using hzero
  have hminus : s.head? ≠ some '-' := by
    intro hhead
    exact absurd (h '-' (List.mem_of_mem_head? hhead)) (by decide)
  have hbody : (match s with
      | '-' :: s => s
      | s => s) = s := by
    split
    · exact absurd rfl hminus
    · rfl
  constructor
  · simp only [number?, hbody, htake, hdrop, if_neg hcond, if_true, if_neg hminus]
  · simp only [number?, htake, hdrop, if_neg hcond, if_true, List.head?_cons]

theorem isDigit_toDigits (n : ℕ) : ∀ c ∈ Nat.toDigits 10 n, c.isDigit = true := fun _ hc =>
  Nat.isDigit_of_mem_toDigits (by omega) (by omega) hc

theorem number?_toDigits (n : ℕ) : number? (Nat.toDigits 10 n) = some (.int n) ∧
    number? ('-' :: Nat.toDigits 10 n) = some (.int (-(n : ℤ))) := by
  have hzero : (Nat.toDigits 10 n).head? = some '0' → Nat.toDigits 10 n = ['0'] := by
    intro hhead
    by_cases hn : n = 0
    · rw [hn, Nat.toDigits_zero]
    · exact absurd hhead (head?_toDigits_ne_zero hn)
  have heq := number?_of_isDigit (isDigit_toDigits n) Nat.toDigits_ne_nil hzero
  rwa [Nat.ofDigitChars_ten_toDigits] at heq

theorem run_numeral {s : Text} {c : Char} (hc : c = '-' ∨ c.isDigit = true) (hs : ∀ c ∈ s, c.isDigit = true)
    (stack : List Frame) : run ⟨stack, .value⟩ (c :: s) = ⟨stack, .number (c :: s)⟩ := by
  obtain ⟨hspace, hstart⟩ := startValue_of_isDigit hc stack
  rw [run_cons, show step ⟨stack, .value⟩ c = startValue stack c by simp [step, hspace], hstart,
    run_number fun c hc => isNumberChar_of_isDigit (hs c hc)]
  rfl

theorem reads_numeral (n : ℤ) : Reads (toString n).toList (.int n) := by
  intro stack
  cases n with
  | ofNat m =>
    have htext : (toString (Int.ofNat m)).toList = Nat.toDigits 10 m := by simp [toString, Int.repr]
    rw [htext]
    have hdigits := isDigit_toDigits m
    have hnumber := (number?_toDigits m).1
    cases hm : Nat.toDigits 10 m with
    | nil => exact absurd hm Nat.toDigits_ne_nil
    | cons c s =>
      rw [hm] at hdigits hnumber
      rw [List.forall_mem_cons] at hdigits
      rw [run_numeral (Or.inr hdigits.1) hdigits.2, settle]
      simp only [hnumber]
      rfl
  | negSucc m =>
    have htext : (toString (Int.negSucc m)).toList = '-' :: Nat.toDigits 10 (m + 1) := by
      simp [toString, Int.repr]
    rw [htext, run_numeral (Or.inl rfl) (isDigit_toDigits _), settle]
    simp only [(number?_toDigits (m + 1)).2]
    rfl

end Reader

end Json
