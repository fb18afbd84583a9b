import ClusterOverlay.Batch
import ClusterOverlay.Config
import ClusterOverlay.Config.File
import ClusterOverlay.Control
import ClusterOverlay.Framing
import ClusterOverlay.Mailroom
import ClusterOverlay.Node
import ClusterOverlay.Outbox
import ClusterOverlay.Overlay
import ClusterOverlay.Proofs.Membership
import ClusterOverlay.Proofs.Membership.Changes
import ClusterOverlay.Proofs.Membership.MainServer
import ClusterOverlay.Proofs.Node.Events
import ClusterOverlay.Proofs.Node.MainServer
import ClusterOverlay.Proofs.Node.Start
import ClusterOverlay.Proofs.Reassembly.Arrivals
import ClusterOverlay.Proofs.Reassembly.Calls
import ClusterOverlay.Proofs.Reassembly.RoundTrip
import ClusterOverlay.Proofs.Reassembly.Shipment
import ClusterOverlay.Proofs.Reassembly.Window
import ClusterOverlay.Proofs.Routing.Agreement
import ClusterOverlay.Proofs.Routing.Chains
import ClusterOverlay.Proofs.Routing.Delivery
import ClusterOverlay.Proofs.Routing.Relays
import ClusterOverlay.Protocol
import ClusterOverlay.Reassembly
import ClusterOverlay.Routing
import ClusterOverlay.Schedule
import ClusterOverlay.Station
import ClusterOverlay.Status
import ClusterOverlay.Toml.Document
import ClusterOverlay.Transport
import ClusterOverlay.View
import ClusterOverlay.Watch
import ClusterOverlay.Proofs.Schedule
import ClusterOverlay.Proofs.Schedule.Budgets
import ClusterOverlay.Proofs.Membership.Following
import ClusterOverlay.Proofs.Node.Regular
import ClusterOverlay.Proofs.Convergence
import ClusterOverlay.Proofs.Schedule.Lanes
import ClusterOverlay.Proofs.Node.Upkeep
import ClusterOverlay.Proofs.Routing.Broadcast
import ClusterOverlay.Proofs.Batch
import ClusterOverlay.Proofs.Reassembly.Isolation
import ClusterOverlay.Proofs.Node.Silence
import ClusterOverlay.Proofs.Convergence.Evictions
import ClusterOverlay.Proofs.Packet
import ClusterOverlay.Proofs.Convergence.Overtaking
import ClusterOverlay.Proofs.Station.Calls
import ClusterOverlay.Proofs.Station.Refusals
import ClusterOverlay.Proofs.Reassembly.Once
import ClusterOverlay.Proofs.Node.Intake
import ClusterOverlay.Proofs.Station.Deliveries
import ClusterOverlay.Proofs.Roster
import ClusterOverlay.Proofs.Membership.Messages
import ClusterOverlay.Proofs.Node.Outgoing
import ClusterOverlay.Proofs.Node.Speech
import ClusterOverlay.Proofs.Convergence.Floods
import ClusterOverlay.Proofs.Framing
import ClusterOverlay.Proofs.Station.Frames
import ClusterOverlay.Proofs.Schedule.Polling
import ClusterOverlay.Proofs.Schedule.Overtaking
import ClusterOverlay.Proofs.Reassembly.Completion
import ClusterOverlay.Proofs.Convergence.Closing
import ClusterOverlay.Proofs.Membership.Removals
import ClusterOverlay.Proofs.Schedule.Renewals
import ClusterOverlay.Proofs.Outbox
import ClusterOverlay.Proofs.Station.Reports
import ClusterOverlay.Proofs.Routing.Plans
import ClusterOverlay.Proofs.Membership.Turns
import ClusterOverlay.Proofs.Routing.Rewrites
import ClusterOverlay.Proofs.Batch.Reception
import ClusterOverlay.Proofs.Reassembly.Lifetime
import ClusterOverlay.Proofs.Batch.Latency
import ClusterOverlay.Proofs.Watch.Patrols
import ClusterOverlay.Proofs.Framing.Streams
import ClusterOverlay.Proofs.Address
import ClusterOverlay.Proofs.Peer
