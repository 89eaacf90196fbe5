import Intercept.Endpoint.Http
import Intercept.Interest.Reader
import Intercept.Wire.Packet
import Intercept.Proofs.Chain.Advance
import Intercept.Proofs.Registry.Service
import Intercept.Proofs.Registry.Order
import Intercept.Proofs.Broker.Carry
import Intercept.Proofs.Broker.Event
import Intercept.Proofs.Broker.Tenure
import Intercept.Proofs.Broker.Journal
import Intercept.Proofs.Broker.Operation
import Intercept.Proofs.Broker.Move
import Intercept.Proofs.Broker.Sequel
import Intercept.Proofs.Broker.Thread
import Intercept.Proofs.Broker.Content
import Intercept.Proofs.Broker.Standing
import Intercept.Proofs.Broker.Calls
import Intercept.Proofs.Broker.Completion
import Intercept.Proofs.Broker.Ids
import Intercept.Proofs.Broker.Roster
import Intercept.Proofs.Broker.Answer
import Intercept.Proofs.Broker.Visits
import Intercept.Proofs.Broker.Account
import Intercept.Proofs.Broker.Refusal
import Intercept.Proofs.Broker.Outbound
import Intercept.Proofs.Broker.Succession
import Intercept.Proofs.Endpoint.Interleaving
import Intercept.Proofs.Broker.Deadline
import Intercept.Proofs.Broker.Correlations
import Intercept.Proofs.Broker.Feed
import Intercept.Proofs.Broker.Observers
import Intercept.Proofs.Registry.Unobserved
import Intercept.Proofs.Broker.Aside
import Intercept.Proofs.Registry.Audience
import Intercept.Proofs.Registry.Buckets
import Intercept.Proofs.Broker.Identity
import Intercept.Proofs.Broker.Tally
import Intercept.Proofs.Broker.Balance
import Intercept.Proofs.Broker.Independence
import Intercept.Proofs.Broker.Confluence
import Intercept.Proofs.Broker.Lifetime
import Intercept.Proofs.Endpoint.Dialogue
import Intercept.Proofs.Endpoint.Negotiation
import Intercept.Proofs.Endpoint.Handshake
import Intercept.Proofs.Endpoint.Watch
import Intercept.Proofs.Endpoint.Silence
import Intercept.Proofs.Wire.Reader
import Intercept.Proofs.Wire.Tank
import Intercept.Proofs.Wire.Verdict
import Intercept.Proofs.Wire.Leniency
import Intercept.Proofs.Wire.Variant
import Intercept.Proofs.Wire.Lossless
import Intercept.Proofs.Wire.Keys
import Intercept.Proofs.Lane.Frame
import Intercept.Proofs.Text.JsonNumber
import Intercept.Proofs.Text.Json
import Intercept.Proofs.Text.Embedded
import Intercept.Proofs.Lane.Control
import Intercept.Proofs.Interest.Like
import Intercept.Proofs.Interest.Comparison
import Intercept.Proofs.Interest.Defect
import Intercept.Proofs.Interest.Tolerance
import Intercept.Proofs.Interest.Address
import Intercept.Proofs.Broker.Changeless
import Intercept.Proofs.Broker.Laps
import Intercept.Proofs.Wire.Cursor
import Intercept.Proofs.Wire.Overlay
import Intercept.Proofs.Broker.Totals
import Intercept.Proofs.Wire.Replay
