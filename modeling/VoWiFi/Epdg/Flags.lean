import VoWiFi.Epdg.IkeHeader

/-!
# Flags of the header

A string update of the flags is meant to name one flag, or `no_` and one flag. `process_ike_header`
compares it with the twelve names one after another, each time only up to the end of the shorter text.
-/

namespace Epdg

/-- The flags of the header that a query can change. -/
inductive Flag where
  | responder
  | version
  | initiator
  | encryption
  | commit
  | authonly
  deriving DecidableEq, Repr

/-- The text that sets a flag. -/
def Flag.name : Flag → Text
  | responder => "responder".toList
  | version => "version".toList
  | initiator => "initiator".toList
  | encryption => "encryption".toList
  | commit => "commit".toList
  | authonly => "authonly".toList

/-- The text that clears a flag. -/
def Flag.noName (f : Flag) : Text := "no_".toList ++ f.name

def Flag.get (h : IkeHeader) : Flag → Bool
  | responder => h.responseFlag
  | version => h.versionFlag
  | initiator => h.initiatorFlag
  | encryption => h.encryptionFlag
  | commit => h.commitFlag
  | authonly => h.authonlyFlag

def Flag.set (h : IkeHeader) (b : Bool) : Flag → IkeHeader
  | responder => { h with responseFlag := b }
  | version => { h with versionFlag := b }
  | initiator => { h with initiatorFlag := b }
  | encryption => { h with encryptionFlag := b }
  | commit => { h with commitFlag := b }
  | authonly => { h with authonlyFlag := b }

/-- The flag that a text asks for, given the flag as it is. -/
def Flag.wanted (tmp : Text) (old : Bool) (f : Flag) : Bool :=
  if tmp = f.name then true else if tmp = f.noName then false else old

/-- What a string update of the flags is for: the flag the text names is set or cleared, and no other flag
changes. -/
structure SelectiveUpdate (tmp : Text) (h h' : IkeHeader) : Prop where
  wanted : ∀ f : Flag, f.get h' = f.wanted tmp (f.get h)
  atMostOne : ∀ f g : Flag, f.get h' ≠ f.get h → g.get h' ≠ g.get h → f = g

/-- The text that a query for a response carries for the flags, as a string to update them with. -/
structure FlagsUpdate (q : Query) (r : Round) (tmp : Text) : Prop where
  round : r ∈ generatedRounds
  name : isQueryName q.label (some r.responseText) = true
  node : (getSubQueryByName q "flags".toList).map RoseTree.label =
    some ⟨some "flags".toList, .update, valTypeString, some tmp⟩

/-- The search of an update of the responder's SPI does not come before the flags, or ends. -/
def FlagsReached (chunkHash : Chunk → UInt32) (ref : HashRef) (query : Option Query) (r : Round)
    (t : InitHashTable) : Prop :=
  HeaderField.responderSpi.asked query r = none ∨ ref.First chunkHash t

/-- The text is a name wherever it agrees with one up to the end of the shorter one. -/
def Distinctive (tmp : Text) : Prop :=
  ∀ f : Flag, (checkFlag f.name tmp = true → tmp = f.name) ∧
    (checkFlag f.noName tmp = true → tmp = f.noName)

end Epdg
