import Owasaka.Foundation.HashTree
import Owasaka.Foundation.SplitTree
import Owasaka.Foundation.SplitBoundary
import Owasaka.Foundation.Bytes
import Owasaka.Foundation.Lookup
import Owasaka.Foundation.Bolt
import Owasaka.Foundation.System
import Owasaka.Foundation.Disk
import Owasaka.Foundation.Sha256
import Owasaka.Foundation.Signature
import Owasaka.Foundation.Json
import Owasaka.Foundation.Subject
import Owasaka.Foundation.AnyValue
import Owasaka.Foundation.DedupOn
import Owasaka.Foundation.ExtFloat
import Owasaka.Foundation.Numeral
import Owasaka.Transparency.Hash
import Owasaka.Transparency.Inclusion
import Owasaka.Transparency.Consistency
import Owasaka.Transparency.Tree
import Owasaka.Transparency.Log
import Owasaka.Transparency.Handles
import Owasaka.Pki.Authority
import Owasaka.Pki.Rotation
import Owasaka.Pki.ConcurrentRotation
import Owasaka.Pki.FailedRotation
import Owasaka.Transparency.TreeHead
import Owasaka.Transparency.HeadAuthenticity
import Owasaka.Jwt.Token
import Owasaka.Jwt.Rendered
import Owasaka.Jwt.PurposeSeparation
import Owasaka.Jwt.Lifetime
import Owasaka.Jwt.Jwks
import Owasaka.Events.Pipeline
import Owasaka.Events.Signing
import Owasaka.Events.SignerAgreement
import Owasaka.Events.Stored
import Owasaka.Events.Push
import Owasaka.Events.OneContent
import Owasaka.Events.CriticalLeaves
import Owasaka.Events.Neotron
import Owasaka.Events.Spoofing
import Owasaka.Events.Feedback
import Owasaka.Identity.Principal
import Owasaka.Identity.Authenticator
import Owasaka.Identity.ClaimMapper
import Owasaka.Identity.SubjectCollision
import Owasaka.Identity.PrincipalIndex
import Owasaka.Identity.CredentialIndex
import Owasaka.Identity.OidcState
import Owasaka.Identity.Revocation
import Owasaka.Identity.RevokedTokens
import Owasaka.Foundation.SplitN
import Owasaka.Identity.ApiKey
import Owasaka.Authz.Engine
import Owasaka.Authz.Decision
import Owasaka.Authz.GroupRoles
import Owasaka.Authz.SharedAttrs
import Owasaka.Authz.Loader
import Owasaka.Authz.Inheritance
import Owasaka.Authz.Cycles
import Owasaka.Authz.Reload
import Owasaka.Authz.ConcurrentReload
import Owasaka.Foundation.InPlace
import Owasaka.Correlation.Temporal
import Owasaka.Correlation.ChainAlerts
import Owasaka.Correlation.AlertTimes
import Owasaka.Correlation.Eviction
import Owasaka.Foundation.Occurrence
import Owasaka.Correlation.EarliestChain
import Owasaka.Foundation.Descending
import Owasaka.Foundation.RingBuffer
import Owasaka.Stream.Window
import Owasaka.Stream.Buffer
import Owasaka.Foundation.InsertionSort
import Owasaka.Stream.TopTalkers
import Owasaka.Retention.Sweep
import Owasaka.Retention.Expiry
import Owasaka.Retention.KeepForever
import Owasaka.Retention.Compaction
import Owasaka.Foundation.Civil
import Owasaka.Foundation.Hex
import Owasaka.Backup.Engine
import Owasaka.Backup.Restore
import Owasaka.Backup.Snapshot
import Owasaka.Backup.Swap
import Owasaka.Backup.Aside
import Owasaka.Backup.LocalSink
import Owasaka.Backup.Rotation
import Owasaka.Backup.FailedWrites
import Owasaka.Migrations.Runner
import Owasaka.Migrations.Versions
import Owasaka.Migrations.Histories
import Owasaka.Ebpf.Connect
import Owasaka.Dns.Resolver
import Owasaka.Canary.Trigger
import Owasaka.Canary.Interleavings
import Owasaka.Integrity.AuditEntry
import Owasaka.Integrity.AuditLog
import Owasaka.Integrity.TornWrites
import Owasaka.Integrity.TamperEvidence
import Owasaka.Integrity.RecordedTexts
import Owasaka.Foundation.BlockTree
import Owasaka.Foundation.Directory
import Owasaka.Foundation.CivilOrder
import Owasaka.Integrity.MerkleTree
import Owasaka.Foundation.Newest
import Owasaka.Repository.Alerts
import Owasaka.Repository.Listing
import Owasaka.Correlation.YamlRule
import Owasaka.Correlation.RuleMeaning
import Owasaka.Foundation.KeyedValues
import Owasaka.Discovery.Asset
import Owasaka.Discovery.Drift
import Owasaka.Topology.Graph
import Owasaka.Topology.Taught
import Owasaka.Topology.Subscribers
import Owasaka.Api.WSHub
import Owasaka.Authz.Gate
import Owasaka.Foundation.RequestText
import Owasaka.Transparency.HeadHistory
import Owasaka.Transparency.Served
import Owasaka.Api.Login
import Owasaka.Discovery.Reconciliation
import Owasaka.Health.Registry
import Owasaka.Repository.Triage
import Owasaka.Topology.History
import Owasaka.Api.OidcLogin
import Owasaka.Canary.Planted
import Owasaka.Foundation.JsonCut
import Owasaka.Tor.ExitNodes
import Owasaka.Discovery.PortScanner
import Owasaka.Backup.Recovery
import Owasaka.Canary.Tripwires
