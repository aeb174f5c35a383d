import LiveRelay.Log
import LiveRelay.Room.Seating

/-! # What a room writes to the log -/

namespace LiveRelay

inductive RoomNotice where
  | joined (handle : Handle) (id : ParticipantId)
  | left (handle : Handle) (id : ParticipantId)
  | registeredTwice (handle : Handle)
  | duplicateNotClosed (handle : Handle) (verdict : Verdict)
  | notClosed (handle : Handle) (verdict : Verdict)
  | notSeated (handle : Handle) (why : SeatingError)
  | ignoredDisconnect (why : SeatingError)
  | dropped (kind : ClientKind) (why : SeatingError)
  | reached (kind : ClientKind) (sender : Handle) (count : Nat)
  | clockReset
  | queueFull (handle : Handle)
  | closing (handle : Handle)
deriving DecidableEq, Repr

namespace RoomNotice

def number (n : UInt64) : String := toString n.toNat

def line : RoomNotice → LogLine
  | .joined h i => ⟨.info, "Connection " ++ number h ++ " joined as participant " ++ number i⟩
  | .left h i => ⟨.info, "Connection " ++ number h ++ " (participant " ++ number i ++ ") left"⟩
  | .registeredTwice h => ⟨.error, "Connection " ++ number h ++ " registered twice, dropping it"⟩
  | .duplicateNotClosed h v =>
    ⟨.warn, "Could not close duplicate connection " ++ number h ++ ": " ++ v.reason⟩
  | .notClosed h v => ⟨.warn, "Could not close connection " ++ number h ++ ": " ++ v.reason⟩
  | .notSeated h why => ⟨.error, "Failed to seat connection " ++ number h ++ ": " ++ why.message⟩
  | .ignoredDisconnect why => ⟨.error, "Ignoring disconnect: " ++ why.message⟩
  | .dropped kind why => ⟨.error, "Dropping `" ++ kind.name ++ "`: " ++ why.message⟩
  | .reached kind h n =>
    ⟨.debug, "`" ++ kind.name ++ "` from connection " ++ number h ++ " reached " ++ toString n ++
      " connection(s)"⟩
  | .clockReset => ⟨.info, "Shared clock reset"⟩
  | .queueFull h =>
    ⟨.warn, "Outbound queue of connection " ++ number h ++ " is full, dropping a message"⟩
  | .closing h => ⟨.debug, "Connection " ++ number h ++ " is closing, skipped"⟩

/-- What a refused message leaves in the log. -/
def ofOffer (o : Offer) : Option RoomNotice :=
  match o.verdict with
  | .accepted => none
  | .full => some (.queueFull o.handle)
  | .closed => some (.closing o.handle)

end RoomNotice

end LiveRelay
