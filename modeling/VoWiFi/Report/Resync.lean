import VoWiFi.Ims.Listener

/-!
# Resynchronisation

The controller sends `init` to start a test over. What the listeners of the two servers have read of a
message that was not completed should then be forgotten: the next message should be published as by a
listener that has just been started. `init` leaves the variables of the decoder as they are, though.
-/

namespace Report

open Brackets (Kind)

/-- Lines that a listener which has just been started publishes as one query, at the last of them. -/
def Complete : Server → List Text → Prop
  | .epdg, msg => Brackets.Complete Epdg.Listener.receive Epdg.Listener.start msg
  | .ims, msg => Brackets.Complete Ims.Listener.receive Ims.Listener.start msg

/-- The listener has read some lines and an `init`, and publishes for a message what it publishes when it
has just been started, at the same lines. -/
def Resynchronises : Server → (before msg : List Text) → Prop
  | .epdg, before, msg => Brackets.Resyncs Epdg.Listener.receive Epdg.Listener.start
      (before ++ [Epdg.resetRequest]) msg
  | .ims, before, msg => Brackets.Resyncs Ims.Listener.receive Ims.Listener.start
      (before ++ [Epdg.resetRequest]) msg

/-- What a line does to the number of open blocks. -/
def Server.lineKind : Server → Text → Kind
  | .epdg => Epdg.lineKind
  | .ims => Ims.lineKind

end Report
