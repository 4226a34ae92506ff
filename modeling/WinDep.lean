import WinDep.Editor.RoundTrip
import WinDep.Editor.Form
import WinDep.Policy.Windep
import WinDep.Api.Resolve
import WinDep.Config.Plaintext
import WinDep.Config.Served
import WinDep.Config.Store
import WinDep.Config.Resolve
import WinDep.Data.MapRange
import WinDep.Config.Aliasing
import WinDep.Files.Paths
import WinDep.Files.Target
import WinDep.Config.SecretsAtRest
import WinDep.Config.Secret
import WinDep.Config.Masking
import WinDep.Config.Document
import WinDep.Data.JsonObject
import WinDep.Config.Envelope
import WinDep.Config.Decoder
import WinDep.Data.JsonRoundTrip
import WinDep.Data.Runs
import WinDep.Upload.Handlers
import WinDep.Upload.Sequential
import WinDep.Upload.Length
import WinDep.Upload.Client
import WinDep.Files.Volume
import WinDep.Upload.Overlap
import WinDep.Upload.Writers
import WinDep.Upload.Serializable
import WinDep.Api.Record
import WinDep.Data.Latest
import WinDep.Fleet.Report
import WinDep.Fleet.Store
import WinDep.Fleet.Tally
import WinDep.Fleet.Prune
import WinDep.Fleet.Delivery
import WinDep.Data.Program
import WinDep.Files.Calls
import WinDep.Files.Handlers
import WinDep.Files.Confined
import WinDep.Files.Tree
import WinDep.Files.Outcomes
import WinDep.Files.Truncated
import WinDep.Data.Faults
import WinDep.Files.Faulty
import WinDep.Files.Independence
import WinDep.Files.Present
import WinDep.Files.Crash
import WinDep.Files.Routes
import WinDep.Files.System
import WinDep.Files.Audit
import WinDep.Data.Uri
import WinDep.Files.Urls
import WinDep.Data.EventLoop
import WinDep.Data.Ensures
import WinDep.Data.Tokens
import WinDep.Data.Holes
import WinDep.Data.Xml
import WinDep.Data.XmlHoles
import WinDep.Deploy.PowerShell
import WinDep.Deploy.Calls
import WinDep.Deploy.Policy
import WinDep.Deploy.Config
import WinDep.Deploy.Unattend
import WinDep.Deploy.Template
import WinDep.Deploy.AnswerFile
import WinDep.Deploy.Headless
import WinDep.Deploy.Window
import WinDep.Deploy.Gate
import WinDep.Deploy.Readable
import WinDep.Deploy.Routing
import WinDep.Data.Scope
import WinDep.Deploy.Progress
import WinDep.Deploy.Fallback
import WinDep.Deploy.Names
import WinDep.Deploy.Planned
import WinDep.Data.Utf16
import WinDep.Files.Wim
import WinDep.Data.Bounded
import WinDep.Fleet.Snapshot
import WinDep.Data.Batch
import WinDep.Deploy.Shipping
import WinDep.Data.Regex
import WinDep.Deploy.LogLines
import WinDep.Data.SlashPath
import WinDep.Files.Resolve
import WinDep.Files.Counted
import WinDep.Data.Moments
import WinDep.Files.Dirty
import WinDep.Fleet.Views
import WinDep.Fleet.Ingest
import WinDep.Fleet.Forward
import WinDep.Upload.Retries
import WinDep.Editor.Edits
import WinDep.Editor.Opened
import WinDep.Editor.Images
import WinDep.Deploy.Inventory
import WinDep.Data.JsonSchema
import WinDep.Policy.Collected
import WinDep.Policy.Schema
import WinDep.Files.Tab
import WinDep.Deploy.Disks
import WinDep.Data.Executions
import WinDep.Deploy.Reported
