import VoWiFi.Lib.CString
import VoWiFi.Lib.Cursor

/-!
# Query trees of the ePDG

A query is the form in which a message of a testcase reaches the ePDG (`ike_sa_instance.c`): a tree
of nodes with a name, an operator, a value type and a value. While it is being received, the tree is
reached through a pointer to the node that was added last.
-/

namespace Epdg

/-- The ways in which the C code stops instead of going on. -/
inductive Fault where
  | nullPointer
  /-- `exit(1)`, called for an attribute that follows an attribute without a parent. -/
  | noParent
  /-- A line does not fit into its buffer together with the byte that ends it. -/
  | bufferOverflow
  deriving DecidableEq, Repr

/-- `op_type`, zero as long as no operator is set. -/
inductive OpType where
  | notSet
  | update
  | drop
  deriving DecidableEq, Repr

/-- The fields of a `query_t`, its links apart. -/
structure QNode where
  /-- The name; `none` is a null pointer. -/
  name : Option Text
  op : OpType
  /-- The number of the value type. -/
  vtype : ℤ
  /-- The value; `none` is a null pointer. -/
  value : Option Text
  deriving DecidableEq, Repr

/-- A query with everything below it. -/
abbrev Query := RoseTree QNode

/-- `init_query`: a node whose fields are all zero. -/
def initQuery : QNode := ⟨none, .notSet, 0, none⟩

/-- The types of the lines that make up a query. -/
def msgTypeAttribute : ℕ := 1

@[inherit_doc msgTypeAttribute]
def msgTypeBlockStart : ℕ := 2

@[inherit_doc msgTypeAttribute]
def msgTypeBlockEnd : ℕ := 3

/-- `add_query_sub_message`: a new first child of the node or, for an attribute right after an
attribute, of its parent. -/
def addQuerySubMessage (query : Cursor QNode) (ptype ctype : ℕ) : Except Fault (Cursor QNode) :=
  if ctype = msgTypeAttribute ∧ ptype = msgTypeAttribute then
    match query.parent? with
    | some p => .ok (p.addSub initQuery)
    | none => .error .noParent
  else .ok (query.addSub initQuery)

/-- A byte as a C `char`, which is signed. -/
def charValue (c : Char) : ℤ := if c.toNat < 128 then c.toNat else c.toNat - 256

/-- `char_to_int` for a given base: digits up to the first space, a digit being worth its code minus
that of `0` whatever the base. -/
def charToInt (base : ℕ) (s : Text) : ℤ :=
  (s.takeWhile (· ≠ ' ')).foldl (fun n c => n * base + (charValue c - 48)) 0

/-- A token without the newline it may end in. -/
def stripNewline (s : Text) : Text := if s.getLast? = some '\n' then s.dropLast else s

/-- The words for the two operators. -/
def updateWord : Text := "update".toList

@[inherit_doc updateWord]
def dropWord : Text := "drop".toList

/-- The operator a token stands for, if it stands for one: only the beginning of the token is
compared. -/
def opOfToken (token : Text) : Option OpType :=
  if updateWord <+: token then some .update
  else if dropWord <+: token then some .drop
  else none

/-- Store the token at position `idx` of a line. -/
def QNode.setToken (n : QNode) (token : Text) (idx : ℕ) : QNode :=
  match idx with
  | 0 => { n with name := some (stripNewline token) }
  | 1 => { n with op := (opOfToken token).getD n.op }
  | 2 => { n with vtype := charToInt 10 token }
  | 3 => { n with value := some (stripNewline token) }
  | _ => n

/-- Store all tokens of a line. -/
def QNode.setTokens (n : QNode) (tokens : List Text) : QNode :=
  tokens.zipIdx.foldl (fun n t => n.setToken t.1 t.2) n

end Epdg
