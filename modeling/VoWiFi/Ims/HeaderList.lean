import VoWiFi.Ims.Message
import VoWiFi.Lib.LinkedList

/-!
# The list of headers of a SIP message

A `sip_message_t` keeps its headers in a singly linked list with a pointer to the first and to the last
one and their number. `add_kvp_to_sip_message` inserts a header behind another one or at the end, and
`del_kvp_from_sip_message` removes one. Headers are named by a key and an index among those with this
key, which is never negative here.

What the list stands for is a sequence of headers, each with a number of its own.
-/

namespace Ims

open LinkedList (Cell Chain setNext insertAfterNth eraseNth)

/-- How a call stops instead of returning. -/
inductive ListFault where
  /-- An empty key is passed. -/
  | assertion
  /-- The walk leaves the memory, reads a header that has been freed, or does not end. -/
  | memory
  deriving DecidableEq, Repr

/-- The headers of a `sip_message_t`, and the memory they are in. A header that has been freed has no
value. -/
structure HeaderList where
  mem : List (Cell (Option Kvp))
  head : Option ℕ
  tail : Option ℕ
  num : ℤ
  deriving DecidableEq, Repr

/-- The list of a new message. -/
def HeaderList.empty : HeaderList := ⟨[], none, none, 0⟩

/-- The key of a header has the given length, and `strncmp` finds no difference. -/
def sameKey (key : Text) (kvp : Kvp) : Bool :=
  kvp.key.length = key.length && Text.cstr kvp.key = Text.cstr key

/-- Compare the key of a header, unless it has been freed. -/
def testKey (key : Text) (data : Option Kvp) : Option Bool := data.map (sameKey key)

/-- The loop of `get_kvp_from_sip_message` and `del_kvp_from_sip_message`: the header with the key and the
index, and the one before it. -/
def HeaderList.walk (m : HeaderList) (key : Text) (idx : ℕ) :
    Except ListFault (Option (Option ℕ × ℕ)) :=
  if key = [] then .error .assertion
  else
    match LinkedList.seek (testKey key) m.mem m.mem.length none m.head idx with
    | none => .error .memory
    | some r => .ok r

def HeaderList.getNumOfKvps (m : HeaderList) (key : Text) : Except ListFault ℕ :=
  if key = [] then .error .assertion
  else
    match LinkedList.count (testKey key) m.mem m.mem.length m.head 0 with
    | none => .error .memory
    | some n => .ok n

def HeaderList.getKvp (m : HeaderList) (key : Text) (idx : ℕ) : Except ListFault (Option ℕ) :=
  (m.walk key idx).map (Option.map Prod.snd)

/-- `prev->next`, or the null pointer where there is no cell. -/
def linkOf (mem : List (Cell (Option Kvp))) (a : ℕ) : Option ℕ := mem[a]?.bind Cell.next

/-- Free the key and the values of a header. -/
def freeKvp (mem : List (Cell (Option Kvp))) (a : ℕ) : List (Cell (Option Kvp)) :=
  mem.modify a fun c => { c with data := none }

/-- The header at address `a`, which comes after `prev`, is taken out of the list. -/
def HeaderList.unlink (m : HeaderList) (prev : Option ℕ) (a : ℕ) : HeaderList :=
  { mem := freeKvp (match prev with
      | none => m.mem
      | some b => setNext m.mem b (linkOf m.mem a)) a
    head := if prev = none then linkOf m.mem a else m.head
    tail := if m.tail = some a then prev else m.tail
    num := m.num - 1 }

def HeaderList.delKvp (m : HeaderList) (key : Text) (idx : ℕ) : Except ListFault HeaderList := do
  match ← m.walk key idx with
  | none => return m
  | some (prev, a) => return m.unlink prev a

/-- A new header is put behind `prev`. -/
def HeaderList.link (m : HeaderList) (kvp : Kvp) (prev : Option ℕ) : HeaderList :=
  let a := m.mem.length
  let mem := m.mem ++ [⟨some kvp, none⟩]
  { mem := match prev with
      | none => mem
      | some b => setNext (setNext mem a (linkOf mem b)) b (some a)
    head := if prev = none ∧ m.head = none then some a else m.head
    tail := if prev = none ∨ prev = m.tail then some a else m.tail
    num := m.num + 1 }

/-- `add_kvp_to_sip_message` for a header that `init_kvp` has just made, with the key and the index of
another header or without. -/
def HeaderList.addKvp (m : HeaderList) (kvp : Kvp) (anchor : Option (Text × ℕ)) :
    Except ListFault HeaderList := do
  match anchor with
  | none => return m.link kvp m.tail
  | some (key, idx) =>
    let found ← m.getKvp key idx
    return m.link kvp (found.or m.tail)

/-- A key that can be passed. -/
abbrev Key := { key : Text // key ≠ [] }

/-- The calls that change the list. -/
inductive HeaderCall where
  | add (kvp : Kvp) (anchor : Option (Key × ℕ))
  | del (key : Key) (idx : ℕ)

def HeaderList.call (m : HeaderList) : HeaderCall → Except ListFault HeaderList
  | .add kvp anchor => m.addKvp kvp (anchor.map fun k => (k.1.1, k.2))
  | .del key idx => m.delKvp key.1 idx

/-- A sequence of calls. -/
def HeaderList.run (m : HeaderList) (calls : List HeaderCall) : Except ListFault HeaderList :=
  calls.foldlM HeaderList.call m

/-! ## What the list stands for -/

/-- A sequence of headers. A header is told from others by the number of headers that were added before
it. -/
structure Headers where
  added : ℕ
  list : List (ℕ × Kvp)

/-- No headers. -/
def Headers.empty : Headers := ⟨0, []⟩

/-- What a call should do: insert right behind the header with the key and the index, or else append;
remove the header with the key and the index, or else do nothing. -/
def Headers.call (s : Headers) : HeaderCall → Headers
  | .add kvp none => ⟨s.added + 1, s.list ++ [(s.added, kvp)]⟩
  | .add kvp (some (key, idx)) =>
    ⟨s.added + 1, insertAfterNth (fun h => sameKey key.1 h.2) (s.added, kvp) idx s.list⟩
  | .del key idx => ⟨s.added, eraseNth (fun h => sameKey key.1 h.2) idx s.list⟩

/-- A sequence of calls. -/
def Headers.run (s : Headers) (calls : List HeaderCall) : Headers := calls.foldl Headers.call s

/-- The headers with a key. -/
def Headers.withKey (s : Headers) (key : Text) : List (ℕ × Kvp) :=
  s.list.filter fun h => sameKey key h.2

/-- The linked list stands for the sequence. -/
structure HeaderList.Represents (m : HeaderList) (s : Headers) : Prop where
  added : m.mem.length = s.added
  /-- Following the links from the head one meets the headers of the sequence. -/
  chain : Chain m.mem m.head (s.list.map fun h => (h.1, some h.2))
  acyclic : (s.list.map Prod.fst).Nodup
  head : m.head = none ↔ s.list = []
  tail : m.tail = s.list.getLast?.map Prod.fst
  num : m.num = s.list.length

end Ims
