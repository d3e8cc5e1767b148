import Renee.Gateway.CrashConsistency
import Renee.Gateway.Dispatcher
import Renee.Gateway.DispatcherSpec
import Renee.Gateway.Identity
import Renee.Gateway.IdentitySpec
import Renee.Gateway.Rotation
import Renee.Gateway.Routing
import Renee.Library.Ancestry
import Renee.Library.BinarySearch
import Renee.Library.ByteSource
import Renee.Library.Bytes
import Renee.Library.Codec
import Renee.Library.Fallible
import Renee.Library.Guard
import Renee.Library.Interference
import Renee.Library.OrderBy
import Renee.Library.OrderedMap
import Renee.Library.Sha256
import Renee.Library.SharedLine
import Renee.Library.Statements
import Renee.Library.SlidingWindow
import Renee.Library.Table
import Renee.Library.TokenRegistry
import Renee.Library.Transition
import Renee.Model.Capability
import Renee.Model.CapabilityAgreement
import Renee.Model.CapabilityRun
import Renee.Model.Update
import Renee.Model.UpdateAgreement
import Renee.Model.UpdateRun
import Renee.Service.Authority
import Renee.Service.Connection
import Renee.Service.Correspondence
import Renee.Service.Coverage
import Renee.Service.Delivery
import Renee.Service.Dispatch
import Renee.Service.Drain
import Renee.Service.Emission
import Renee.Service.Entitlement
import Renee.Service.FirstReason
import Renee.Service.Forwarding
import Renee.Service.ForwardingRun
import Renee.Service.Grounds
import Renee.Service.Handler
import Renee.Service.Handoff
import Renee.Service.Notices
import Renee.Service.Progress
import Renee.Service.Quiescence
import Renee.Service.Reasons
import Renee.Service.RevokeHandling
import Renee.Service.SharedStore
import Renee.Service.Tracking
import Renee.Session.Negotiation
import Renee.Session.Process
import Renee.Session.Refinement
import Renee.Session.Relay
import Renee.Store.Accept
import Renee.Store.AcceptSpec
import Renee.Store.Answering
import Renee.Store.Authorization
import Renee.Store.AuthorizationSpec
import Renee.Store.Broker
import Renee.Store.Coherence
import Renee.Store.Confinement
import Renee.Store.Control
import Renee.Store.ControlBytes
import Renee.Store.ControlSpec
import Renee.Store.Convergence
import Renee.Store.Ending
import Renee.Store.EnumerationReader
import Renee.Store.ExactlyOnce
import Renee.Store.Growth
import Renee.Store.Isolation
import Renee.Store.Locality
import Renee.Store.PageSpec
import Renee.Store.PassLocality
import Renee.Store.PassRun
import Renee.Store.PassSpec
import Renee.Store.Passes
import Renee.Store.Persistence
import Renee.Store.Preservation
import Renee.Store.Readable
import Renee.Store.Failures
import Renee.Store.Refusal
import Renee.Store.Revocation
import Renee.Store.Run
import Renee.Store.Schema
import Renee.Store.Selection
import Renee.Store.Settling
import Renee.Store.Validate
import Renee.Store.ValidateComplete
import Renee.Store.ValidateSpec
import Renee.Store.VectorReader
import Renee.Store.Verifier
import Renee.Store.WellFormed
import Renee.Subscription.Alone
import Renee.Subscription.Concurrent
import Renee.Subscription.Custody
import Renee.Subscription.Discipline
import Renee.Subscription.Interleaving
import Renee.Subscription.Ledger
import Renee.Subscription.LedgerRun
import Renee.Subscription.Registry
import Renee.Subscription.RegistrySpec
import Renee.Subscription.Reporting
import Renee.Supervisor.Addresses
import Renee.Supervisor.Children
import Renee.Supervisor.RestartBudget
import Renee.Supervisor.Supervision
import Renee.Types
import Renee.Wire.Frame
import Renee.Wire.Framing
import Renee.Wire.Greeting
import Renee.Wire.MessageCodecs
import Renee.Wire.MutationMessages
import Renee.Wire.Pipe
import Renee.Wire.RequestCodecs
import Renee.Wire.SubscriptionMessages
import Renee.Wire.UpdateMessages
import Renee.Wire.UpdateMessagesSpec
import Renee.Wire.UpdateRecord
