import Rammux.Lib.Machine
import Rammux.Lib.Slab
import Rammux.Lib.Queue
import Rammux.Lib.Lists
import Rammux.Lib.Linked
import Rammux.Lib.Ownership
import Rammux.Basic
import Rammux.PinList
import Rammux.PinLists
import Rammux.Buffer
import Rammux.DataLists
import Rammux.Flow
import Rammux.Stream.Wake
import Rammux.Stream.Inbound
import Rammux.Stream.Outbound
import Rammux.Stream.State
import Rammux.Stream.Waiting
import Rammux.Stream.Leaving
import Rammux.Connection.Streams
import Rammux.Connection.Tables
import Rammux.Connection.Accounts
import Rammux.Connection.Wakeups
import Rammux.Connection.History
import Rammux.Connection.Violations
import Rammux.Connection.Steps
import Rammux.Connection.Traces
import Rammux.Connection.Consistency
import Rammux.Connection.Fairness
import Rammux.Connection.Endpoint
import Rammux.Connection.Aborted
import Rammux.Connection.Handles
import Rammux.Connection.Flushing
import Rammux.Connection.Chatter
import Rammux.Lib.Channel
import Rammux.Net.Link
import Rammux.Net.Machine
import Rammux.Net.Invariant
import Rammux.Net.Compliance
import Rammux.Net.Conservation
import Rammux.Net.Leaks
import Rammux.Net.Delivery
import Rammux.Net.Session
import Rammux.Lib.BigEndian
import Rammux.Lib.Framing
import Rammux.Wire.Header
import Rammux.Wire.Canonical
import Rammux.Wire.Protocol
import Rammux.Wire.Decoder
import Rammux.Wire.Encoder
import Rammux.Wire.RoundTrip
import Rammux.Wire.Codec
import Rammux.Wire.Peer
import Rammux.Connection.Pings
import Rammux.Connection.Active
import Rammux.Connection.Exchange
import Rammux.Connection.Downgrade
import Rammux.Connection.Handover
import Rammux.Stream.TurnQueue
import Rammux.Connection.Safety
import Rammux.Net.Wired
import Rammux.Net.Carrier
import Rammux.Net.Refinement
import Rammux.Net.Rest
import Rammux.Net.OverBytes
import Rammux.Connection.Given
