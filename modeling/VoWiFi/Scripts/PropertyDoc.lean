import VoWiFi.Scripts.PropertyFile

/-!
# Property files as documents

A property file is a JSON document with one key on a line, in which values may be written as `VALUE`, with
a list of possible values and a list of correct ones or without them. A document here is a tree that holds
everything that can be told apart in the text: the spelling of keys and values, spaces, and commas. Its
lines are what the constructor of `Testcases` goes through; its value is what a reader of the document
expects, given the value that is put for each `VALUE`.
-/

namespace Scripts

/-- Spaces between two tokens. -/
abbrev Blank := { s : Text // ∀ c ∈ s, Json.isSpace c = true }

def noBlank : Blank := ⟨[], List.forall_mem_nil _⟩

def oneBlank : Blank := ⟨[' '], List.forall_mem_singleton.2 rfl⟩

def Value.json : Value → Json
  | int n => .int n
  | str s => .str s

/-! ## Placeholders -/

/-- A character of a string in a list of values: one that stands for itself and is not used to cut the
line into its parts. -/
def isElementChar (c : Char) : Bool :=
  Json.Reader.isPlainChar c && c ∉ [',', ':', '[', ']', '(', ')']

/-- A value in a list of values, with the spaces around it. -/
structure Element where
  left : Blank
  value : Value
  right : Blank
  plain : ∀ s, value = .str s → ∀ c ∈ s, isElementChar c = true
  deriving DecidableEq

/-- A number with a space in front of it. -/
def numberElement (n : ℤ) : Element := ⟨oneBlank, .int n, noBlank, fun _ h => by cases h⟩

/-- A value as it is written in JSON. -/
def Value.literal : Value → Text
  | int n => (toString n).toList
  | str s => '"' :: s ++ ['"']

def Element.text (e : Element) : Text := e.left.1 ++ e.value.literal ++ e.right.1

/-- The elements between the brackets of a list. -/
def elementsText (es : List Element) : Text := List.intercalate [','] (es.map Element.text)

/-- What stands in the place of a value: `VALUE`, or `VALUE` with a list of possible values and maybe, behind
a comma, a list of correct ones. -/
inductive Placeholder where
  | any
  | listed (possible : List Element) (correct : Option (Blank × List Element))
  deriving DecidableEq

namespace Placeholder

/-- What is behind the list of possible values. -/
def correctText : Option (Blank × List Element) → Text
  | none => []
  | some (gap, cs) => ',' :: gap.1 ++ '[' :: elementsText cs ++ [']']

def text : Placeholder → Text
  | any => "VALUE".toList
  | listed ps cs => "VALUE(".toList ++ ('[' :: elementsText ps ++ ']' :: correctText cs) ++ [')']

def possibleValues : Placeholder → List Value
  | any => anyValues
  | listed ps _ => ps.map Element.value

def correctValues : Placeholder → List Value
  | listed _ (some (_, cs)) => cs.map Element.value
  | _ => []

/-- The possible values that are not correct. -/
def adversarial (p : Placeholder) : List Value := p.possibleValues.filter (· ∉ p.correctValues)

/-- The values that may be put in the place: the correct ones, or zero if none is given. -/
def defaults (p : Placeholder) : List Value := if p.correctValues = [] then [.int 0] else p.correctValues

/-- The list of correct values is not empty, if there is one. -/
def definite : Placeholder → Bool
  | any => true
  | listed _ cs => !cs.any (·.2.isEmpty)

end Placeholder

/-- A line of a document. -/
inductive Line where
  | plain (text : Text)
  | value (before after : Blank) (p : Placeholder) (comma : Option Blank)

/-- A comma with the spaces in front of it. -/
def commaText : Option Blank → Text
  | none => []
  | some gap => gap.1 ++ [',']

def Line.text : Line → Text
  | plain text => text
  | value before after p comma =>
    "\"value\"".toList ++ before.1 ++ ':' :: (after.1 ++ p.text ++ commaText comma)

/-! ## The values of an attribute -/

/-- A file has a line with the possible and the correct values of the attribute whose name is the last one
in front of the line. The word `name` is not in the line itself. -/
def HasValueLine (pick : Picker) (file : List Text) (target : Text) (ps cs : List Element) : Prop :=
  ∃ before line after r, file = before ++ line :: after ∧
    before.foldlM (PropertyReader.line pick) PropertyReader.start = .ok r ∧ r.target = some target ∧
    Text.contains (Text.pyStrip line) "name".toList = false ∧
    ∃ left right gap comma,
      Text.pyStrip line = (Line.value left right (.listed ps (some (gap, cs))) comma).text

/-- The value that the mutated attribute of a generated testcase has. -/
def Generated.carried (g : Generated) : Option Value := (findTarget g.target g.testcase).bind (·.value)

/-- The testcases that are generated for an attribute carry the possible values that are not correct. -/
structure Separates (p : Property) (target : Text) (possible correct : List Value) : Prop where
  excluded : ∀ g ∈ updateValues p, g.target = target → ∀ v ∈ correct, g.carried ≠ some v
  carried : ∀ v ∈ possible, v ∉ correct → ∃ g ∈ updateValues p, g.target = target ∧ g.carried = some v

/-! ## Documents -/

/-- A key with the spaces around the colon. -/
structure Key where
  body : Text
  name : Text
  before : Blank
  after : Blank
  isBody : Json.Reader.IsBody body name

def Key.text (key : Key) : Text := '"' :: key.body ++ ['"'] ++ key.before.1 ++ ':' :: key.after.1

mutual

/-- A value: a text that is read as a value wherever it stands, or an array or an object. -/
inductive Doc where
  | inline (text : Text) (value : Json) (reads : Json.Reader.Reads text value)
  | arr (items : Items)
  | obj (members : Members)

/-- The elements of an array with the spaces around them. -/
inductive Items where
  | nil (gap : Blank)
  | cons (lead : Blank) (d : Doc) (gap : Blank) (rest : Items)

/-- The keys of an object with the spaces around them and their values. The key `value` may have a
placeholder, with a comma behind it or without one. -/
inductive Members where
  | nil (gap : Blank)
  | member (lead : Blank) (key : Key) (d : Doc) (gap : Blank) (rest : Members)
  | value (before after : Blank) (p : Placeholder) (comma : Option Blank) (rest : Members)

end

def Items.isNil : Items → Bool
  | nil _ => true
  | cons _ _ _ _ => false

def Members.isNil : Members → Bool
  | nil _ => true
  | member _ _ _ _ _ => false
  | value _ _ _ _ _ => false

/-- The comma behind an element, unless it is the last one. -/
def separator (last : Bool) : Text := if last then [] else [',']

/-! ## Files -/

/-- What a text with placeholders is made of. -/
inductive Glyph where
  | char (c : Char)
  | value (before after : Blank) (p : Placeholder) (comma : Option Blank)
  deriving DecidableEq

def spell (text : Text) : List Glyph := text.map .char

mutual

def Doc.glyphs : Doc → List Glyph
  | .inline text _ _ => spell text
  | .arr items => .char '[' :: (items.glyphs ++ [.char ']'])
  | .obj members => .char '\x7b' :: (members.glyphs ++ [.char '\x7d'])

def Items.glyphs : Items → List Glyph
  | .nil gap => spell gap.1
  | .cons lead d gap rest => spell lead.1 ++ (d.glyphs ++ (spell (gap.1 ++ separator rest.isNil) ++ rest.glyphs))

def Members.glyphs : Members → List Glyph
  | .nil gap => spell gap.1
  | .member lead key d gap rest =>
    spell (lead.1 ++ key.text) ++ (d.glyphs ++ (spell (gap.1 ++ separator rest.isNil) ++ rest.glyphs))
  | .value before after p comma rest => .value before after p comma :: rest.glyphs

end

def Line.glyphs : Line → List Glyph
  | plain text => spell text
  | value before after p comma => [.value before after p comma]

/-- A document is written in lines, with each placeholder on a line of its own, and the lines in a file,
with spaces at their ends, blank lines and comments. -/
structure Doc.WrittenIn (d : Doc) (lines : List Line) (file : List Text) : Prop where
  glyphs : lines.flatMap Line.glyphs = d.glyphs
  stripped : (file.map Text.pyStrip).filter (fun line => line ≠ [] ∧ line.head? ≠ some '#') = lines.map Line.text

mutual

/-- The value of a document, given what is put for each placeholder. -/
def Doc.fill (put : Placeholder → Value) : Doc → Json
  | .inline _ v _ => v
  | .arr items => .arr (items.fill put)
  | .obj members => .obj (members.fill put [])

def Items.fill (put : Placeholder → Value) : Items → List Json
  | .nil _ => []
  | .cons _ d _ rest => d.fill put :: rest.fill put

def Members.fill (put : Placeholder → Value) (keys : PyDict Json) : Members → PyDict Json
  | .nil _ => keys
  | .member _ key d _ rest => rest.fill put (keys.set key.name (d.fill put))
  | .value _ _ p _ rest => rest.fill put (keys.set "value".toList (put p).json)

end

/-- A line has `VALUE` in it only if it has a placeholder. -/
def Line.Clear : Line → Prop
  | plain text => Text.contains text "VALUE".toList = false
  | value _ _ _ _ => True

instance : DecidablePred Line.Clear
  | .plain text => inferInstanceAs (Decidable (Text.contains text "VALUE".toList = false))
  | .value _ _ _ _ => isTrue trivial

/-- A list of possible values is not empty. -/
def Line.hasValues : Line → Bool
  | plain _ => true
  | value _ _ p _ => p.possibleValues ≠ []

/-- The values of a placeholder can be read from a line, and a name if it has `name` in it. -/
def Line.Readable (line : Line) : Prop :=
  line.hasValues = true ∧ (Text.contains line.text "name".toList = true → (readName line.text).isOk = true)

instance : DecidablePred Line.Readable := fun line =>
  inferInstanceAs (Decidable (line.hasValues = true ∧ (_ → (readName line.text).isOk = true)))

mutual

/-- No key follows a placeholder in its object, and no list of correct values is empty. -/
def Doc.closed : Doc → Bool
  | .inline _ _ _ => true
  | .arr items => items.closed
  | .obj members => members.closed

def Items.closed : Items → Bool
  | .nil _ => true
  | .cons _ d _ rest => d.closed && rest.closed

def Members.closed : Members → Bool
  | .nil _ => true
  | .member _ _ d _ rest => d.closed && rest.closed
  | .value _ _ p _ rest => rest.isNil && p.definite

end

/-- The constructor succeeds and the default object is the document, with one of the correct values for
each placeholder. -/
def Doc.Loads (d : Doc) (pick : Picker) (file : List Text) : Prop :=
  ∃ tc, Testcases.init pick file = .ok tc ∧
    ∃ put : Placeholder → Value, (∀ p, put p ∈ p.defaults) ∧ tc.defaultObject = d.fill put

end Scripts
