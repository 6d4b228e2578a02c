import Palimpsest.Access.Registry
import Palimpsest.Access.RegistryRoom
import Palimpsest.Access.RegistryUpdates
import Palimpsest.Access.SharedTraversal
import Palimpsest.Access.TraversalBlocked
import Palimpsest.Access.TraversalResume
import Palimpsest.Access.TraversalRuns
import Palimpsest.Access.TraversalSafety
import Palimpsest.Account.AccountTexts
import Palimpsest.Account.Agreement
import Palimpsest.Account.GuestIdentity
import Palimpsest.Account.HostUser
import Palimpsest.Changeset.Effects
import Palimpsest.Changeset.Entries
import Palimpsest.Changeset.Events
import Palimpsest.Changeset.Groups
import Palimpsest.Changeset.Hardlinks
import Palimpsest.Changeset.Hiding
import Palimpsest.Changeset.Index
import Palimpsest.Changeset.LayerTree
import Palimpsest.Changeset.Layout
import Palimpsest.Changeset.Member
import Palimpsest.Changeset.MemberNames
import Palimpsest.Changeset.Normalize
import Palimpsest.Changeset.OpaqueMarker
import Palimpsest.Changeset.Present
import Palimpsest.Changeset.Purge
import Palimpsest.Changeset.Reducer
import Palimpsest.Changeset.RelPath
import Palimpsest.Changeset.ReservedNames
import Palimpsest.Changeset.WellFormed
import Palimpsest.Control.Auth
import Palimpsest.Control.Decoding
import Palimpsest.Control.FrameDecoder
import Palimpsest.Control.Grammar
import Palimpsest.Control.HostMonotone
import Palimpsest.Control.HostRejection
import Palimpsest.Control.HostRun
import Palimpsest.Control.HostSession
import Palimpsest.Control.Message
import Palimpsest.Control.RoundTrip
import Palimpsest.Control.Sending
import Palimpsest.Control.Texts
import Palimpsest.Guest.CmdlineAgreement
import Palimpsest.Guest.ConsoleQueue
import Palimpsest.Guest.KernelCmdline
import Palimpsest.Guest.MainOutputPump
import Palimpsest.Hub.BuildChanges
import Palimpsest.Hub.BuildLease
import Palimpsest.Hub.BuildWorker
import Palimpsest.Hub.Cursor
import Palimpsest.Hub.ExportFencing
import Palimpsest.Hub.ImageExport
import Palimpsest.Hub.Listing
import Palimpsest.Hub.ListingPages
import Palimpsest.Hub.PackageTags
import Palimpsest.Hub.PackageUpload
import Palimpsest.Hub.TagCommits
import Palimpsest.Hub.TagProtocol
import Palimpsest.Hub.TagRuns
import Palimpsest.Hub.TagSteps
import Palimpsest.Hub.UploadChanges
import Palimpsest.Hub.UploadProtocol
import Palimpsest.Hub.UploadRuns
import Palimpsest.Hub.UploadSafety
import Palimpsest.Hub.UploadWorld
import Palimpsest.Initramfs.Newc
import Palimpsest.Initramfs.NewcRoundTrip
import Palimpsest.Layer.Fields
import Palimpsest.Layer.Grammars
import Palimpsest.Layer.Headers
import Palimpsest.Layer.Pax
import Palimpsest.Layer.Records
import Palimpsest.Layer.ReservedIntake
import Palimpsest.Layer.ScanAccounts
import Palimpsest.Layer.ScanEnds
import Palimpsest.Layer.ScanTar
import Palimpsest.Layer.Spellings
import Palimpsest.Layer.Translate
import Palimpsest.Lib.Base64
import Palimpsest.Lib.ByteParser
import Palimpsest.Lib.Calls
import Palimpsest.Lib.Canonical
import Palimpsest.Lib.Chunks
import Palimpsest.Lib.Decimal
import Palimpsest.Lib.Deferral
import Palimpsest.Lib.Dependencies
import Palimpsest.Lib.Directory
import Palimpsest.Lib.FloatRepr
import Palimpsest.Lib.Framing
import Palimpsest.Lib.HexField
import Palimpsest.Lib.History
import Palimpsest.Lib.IsoTime
import Palimpsest.Lib.Json
import Palimpsest.Lib.JsonAscii
import Palimpsest.Lib.JsonEq
import Palimpsest.Lib.JsonHook
import Palimpsest.Lib.JsonLoads
import Palimpsest.Lib.JsonShorter
import Palimpsest.Lib.JsonText
import Palimpsest.Lib.JsonWidth
import Palimpsest.Lib.Keyset
import Palimpsest.Lib.Lines
import Palimpsest.Lib.LittleEndian
import Palimpsest.Lib.Loop
import Palimpsest.Lib.ParentTree
import Palimpsest.Lib.Partition
import Palimpsest.Lib.PathComponents
import Palimpsest.Lib.PathParts
import Palimpsest.Lib.Pool
import Palimpsest.Lib.PosixPath
import Palimpsest.Lib.Regex
import Palimpsest.Lib.Results
import Palimpsest.Lib.Segments
import Palimpsest.Lib.Sha256
import Palimpsest.Lib.Since
import Palimpsest.Lib.Steps
import Palimpsest.Lib.Throughout
import Palimpsest.Lib.Utf8
import Palimpsest.Lib.Utf8Bytes
import Palimpsest.Lib.Window
import Palimpsest.Lib.Words
import Palimpsest.Lifecycle.GuestRuns
import Palimpsest.Lifecycle.GuestSteps
import Palimpsest.Lifecycle.HostFrames
import Palimpsest.Lifecycle.Mac
import Palimpsest.Lifecycle.Session
import Palimpsest.Lifecycle.SignedFrames
import Palimpsest.Logs.Console
import Palimpsest.Logs.Delivery
import Palimpsest.Logs.Follow
import Palimpsest.Logs.Rounds
import Palimpsest.Monitor.CrashAtomic
import Palimpsest.Monitor.ExecControl
import Palimpsest.Monitor.ExecOnce
import Palimpsest.Monitor.Identity
import Palimpsest.Monitor.LeaseSafety
import Palimpsest.Monitor.Ledger
import Palimpsest.Monitor.LedgerAtomic
import Palimpsest.Monitor.Owner
import Palimpsest.Monitor.Preactivation
import Palimpsest.Monitor.PreactivationLease
import Palimpsest.Monitor.Publication
import Palimpsest.Network.OciNetwork
import Palimpsest.Network.QemuArguments
import Palimpsest.Policy.PolicyEncoding
import Palimpsest.Policy.PolicyJson
import Palimpsest.Policy.PolicyRoundTrip
import Palimpsest.Policy.Preflight
import Palimpsest.Policy.SandboxPolicy
import Palimpsest.Process.ExecWorkload
import Palimpsest.Process.ProcessSpec
import Palimpsest.Project.Environment
import Palimpsest.Project.RunNames
import Palimpsest.Project.SecretReferences
import Palimpsest.Project.SecretShapes
import Palimpsest.Runtime.BackendRules
import Palimpsest.Runtime.Convergence
import Palimpsest.Runtime.DownProject
import Palimpsest.Runtime.ProjectLedger
import Palimpsest.Runtime.ProjectRuntime
import Palimpsest.Runtime.RunBackend
import Palimpsest.Runtime.ServiceOrder
import Palimpsest.Runtime.UpFailure
import Palimpsest.Runtime.UpPlan
import Palimpsest.Runtime.UpRollback
import Palimpsest.Runtime.UpSafety
import Palimpsest.Runtime.UpSuccess
import Palimpsest.Stage1.Addresses
import Palimpsest.Stage1.AssemblyParser
import Palimpsest.Stage1.BootAgreement
import Palimpsest.Stage1.Cursor
import Palimpsest.Stage1.Envelope
import Palimpsest.Stage1.FieldParsers
import Palimpsest.Stage1.GuestReference
import Palimpsest.Stage1.HostTransport
import Palimpsest.Stage1.NetworkParser
import Palimpsest.Stage1.Plan
import Palimpsest.Stage1.PlanParser
import Palimpsest.Stage1.PlanText
import Palimpsest.Stage1.PlanValues
import Palimpsest.Stage1.ProcessParser
import Palimpsest.Stage1.ProcessStrings
import Palimpsest.Stage1.Spans
import Palimpsest.Stage1.Transport
import Palimpsest.Stage1.VerifyTransport
import Palimpsest.Stage1.WorkingDirectory
import Palimpsest.Volumes.CrashConvergence
import Palimpsest.Volumes.Creation
import Palimpsest.Volumes.Deletion
import Palimpsest.Volumes.KvmVolume
import Palimpsest.Volumes.States
import Palimpsest.Volumes.WorkingTools
