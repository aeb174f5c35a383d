import LiveRelay.Main
import LiveRelay.Proofs.Relay.Duplicate
import LiveRelay.Proofs.Relay.Seated
import LiveRelay.Proofs.Session.Fanout
import LiveRelay.Proofs.Session.Legible
import LiveRelay.Proofs.Session.Mirror
import LiveRelay.Proofs.Session.Story
import LiveRelay.Proofs.Wire.RoundTrip
import LiveRelay.Proofs.Wire.Classification
import LiveRelay.Proofs.Wire.Members
import LiveRelay.Relay.Requests
import LiveRelay.Proofs.Session.Remembered
import LiveRelay.Proofs.Room.Departures
import LiveRelay.Proofs.Session.Accounts
import LiveRelay.Proofs.Session.Seclusion
import LiveRelay.Proofs.Session.Rejected
import LiveRelay.Proofs.Relay.Wired
import LiveRelay.Proofs.Relay.Passage
import LiveRelay.Proofs.Relay.Order
import LiveRelay.Proofs.Relay.Kicked
import LiveRelay.Proofs.Static.Path
import LiveRelay.Proofs.Session.Epoch
import LiveRelay.Proofs.Session.Written
import LiveRelay.Proofs.Session.Relayed
import LiveRelay.Proofs.Socket.Stream
import LiveRelay.Proofs.Room.Delivery
import LiveRelay.Proofs.Wire.EitherOrder
import LiveRelay.Proofs.Wire.Placement
