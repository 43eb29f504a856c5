import NiriBridge.Support.SortedSet
import NiriBridge.Support.SortedMap
import NiriBridge.Support.Cursor
import NiriBridge.Support.Hoare
import NiriBridge.Support.Run
import NiriBridge.Support.Spans
import NiriBridge.Support.Duplex
import NiriBridge.Model.Error
import NiriBridge.Model.Geometry
import NiriBridge.Model.Touchpad
import NiriBridge.Touch.State
import NiriBridge.Touch.Route
import NiriBridge.Touch.Switch
import NiriBridge.Model.Capture
import NiriBridge.Capture.Story
import NiriBridge.Capture.Stream
import NiriBridge.Support.Transcript
import NiriBridge.Model.Config
import NiriBridge.Model.Control
import NiriBridge.Model.Protocol
import NiriBridge.Model.Input
import NiriBridge.Model.Strips
import NiriBridge.Model.Receiver
import NiriBridge.Receiver.Calls
import NiriBridge.Receiver.Held
import NiriBridge.Model.Pairing
import NiriBridge.Model.Manager
import NiriBridge.Manager.Prepared
import NiriBridge.Manager.Transaction
import NiriBridge.Manager.SavedPeers
import NiriBridge.Manager.Switching
import NiriBridge.Manager.Importing
import NiriBridge.Manager.Pinning
import NiriBridge.Model.Activity
import NiriBridge.Model.Coordinator
import NiriBridge.Session.Protocol
import NiriBridge.Support.Before
import NiriBridge.Session.Accord
import NiriBridge.Session.Stream
import NiriBridge.Coordinator.Calls
import NiriBridge.Coordinator.Branches
import NiriBridge.Coordinator.Messages
import NiriBridge.Coordinator.Relations
import NiriBridge.Session.Devices
import NiriBridge.Edges.Strips
import NiriBridge.Edges.Landing
import NiriBridge.Receiver.Gate
import NiriBridge.Model.Hybrid
import NiriBridge.Receiver.Touchpads
import NiriBridge.Model.Handoff
import NiriBridge.Touch.Acquire
import NiriBridge.Touch.Handoff
import NiriBridge.Touch.Clock
import NiriBridge.Touch.Legal
import NiriBridge.Manager.Trust
import NiriBridge.Manager.Sharing
import NiriBridge.Support.Words
import NiriBridge.Firewall.Listing
import NiriBridge.Firewall.Ownership
import NiriBridge.Firewall.Runs
import NiriBridge.Firewall.History
import NiriBridge.Model.Firewall
import NiriBridge.Support.Json
import NiriBridge.Support.Fragments
import NiriBridge.Model.Wire
import NiriBridge.Wire.Sizes
import NiriBridge.Wire.Frames
import NiriBridge.Touch.Reading
import NiriBridge.Keys.Aggregate
import NiriBridge.Keys.Monitor
import NiriBridge.Coordinator.Watch
import NiriBridge.Coordinator.Chord
import NiriBridge.Coordinator.Escape
import NiriBridge.Coordinator.Guard
import NiriBridge.Coordinator.Crossing
import NiriBridge.Coordinator.Waiting
import NiriBridge.Session.Races
import NiriBridge.Session.Inputs
import NiriBridge.Receiver.Outputs
import NiriBridge.Coordinator.Placing
import NiriBridge.Firewall.Parsing
import NiriBridge.Model.Draft
import NiriBridge.Canvas.Agreement
import NiriBridge.Canvas.Offer
import NiriBridge.Model.Toml
import NiriBridge.Manager.Sections
import NiriBridge.Coordinator.Routes
import NiriBridge.Session.Routing
import NiriBridge.Coordinator.Answers
import NiriBridge.Session.Refusals
import NiriBridge.Coordinator.Drives
import NiriBridge.Coordinator.Stuck
import NiriBridge.Keys.Toggles
import NiriBridge.Coordinator.Mirror
import NiriBridge.Receiver.Replay
import NiriBridge.Session.Mirroring
