import TokenQuota.Text.Bytes
import TokenQuota.Text.Blank
import TokenQuota.Text.Digits
import TokenQuota.Number.Fixed
import TokenQuota.Number.Binary64
import TokenQuota.Number.Shortest
import TokenQuota.NameMap
import TokenQuota.Json.Fault
import TokenQuota.Json.Literal
import TokenQuota.Json.Number
import TokenQuota.Json.Reader
import TokenQuota.Json.Skip
import TokenQuota.Json.Value
import TokenQuota.Json.Writer
import TokenQuota.Config.Basic
import TokenQuota.Config.Edit
import TokenQuota.Config.Validity
import TokenQuota.Config.Format
import TokenQuota.Error
import TokenQuota.Digest
import TokenQuota.TokenBucket.Basic
import TokenQuota.TokenBucket.Script
import TokenQuota.TokenBucket.StateKey
import TokenQuota.TokenBucket.Stale
import TokenQuota.Backoff
import TokenQuota.Clock
import TokenQuota.Stats
import TokenQuota.Settings
import TokenQuota.Task
import TokenQuota.Store.Basic
import TokenQuota.Store.Outage
import TokenQuota.Store.Backend
import TokenQuota.Store.Connections
import TokenQuota.Bucket.Basic
import TokenQuota.Bucket.Taking
import TokenQuota.Bucket.Preparing
import TokenQuota.Bucket.Container
import TokenQuota.Archive.Directory
import TokenQuota.Archive.Folder
import TokenQuota.Archive.Basic
import TokenQuota.Server.Basic
import TokenQuota.Server.Applying
import TokenQuota.Server.Running
import TokenQuota.Server.Admin
import TokenQuota.Deployment
import TokenQuota.Http.Body
import TokenQuota.Http.Resource
import TokenQuota.Http.Service
import TokenQuota.Redis.Location
import TokenQuota.Redis.Reply
import TokenQuota.Redis.Session
import TokenQuota.CommandLine.EnvFile
import TokenQuota.CommandLine.Launch
import TokenQuota.CommandLine.Run
import TokenQuota.Http.Connection
import TokenQuota.Main
import TokenQuota.Proofs.TokenBucket.RateBound
import TokenQuota.Proofs.Config.ReadBack
import TokenQuota.Proofs.Config.InPlace
import TokenQuota.Proofs.Json.Grammar
import TokenQuota.Proofs.Json.Layout
import TokenQuota.Proofs.Config.Presentation
import TokenQuota.Proofs.Server.Convergence
import TokenQuota.Proofs.Server.ReloadSafety
import TokenQuota.Proofs.Server.AdminOrder
import TokenQuota.Proofs.Bucket.Charging
import TokenQuota.Proofs.Server.Charging
import TokenQuota.Proofs.TokenBucket.StaleKeys
import TokenQuota.Proofs.Bucket.Cleaning
import TokenQuota.Proofs.Store.Opening
import TokenQuota.Proofs.Store.Handles
import TokenQuota.Proofs.Store.Ownership
import TokenQuota.Proofs.Archive.Contents
import TokenQuota.Proofs.Bucket.Isolation
import TokenQuota.Proofs.TokenBucket.LimitChange
import TokenQuota.Proofs.Server.Upkeep
import TokenQuota.Proofs.Server.Transparency
import TokenQuota.Proofs.Archive.Durability
import TokenQuota.Proofs.Server.History
import TokenQuota.Proofs.Server.Renotification
import TokenQuota.Proofs.Server.Restarts
import TokenQuota.Proofs.TokenBucket.Expiry
import TokenQuota.Proofs.Task.Turns
import TokenQuota.Proofs.Bucket.Resolution
import TokenQuota.Proofs.Server.Reaping
import TokenQuota.Proofs.Http.AdminRequests
import TokenQuota.Proofs.Server.Lifecycle
import TokenQuota.Proofs.TokenBucket.Waits
import TokenQuota.Proofs.TokenBucket.CellBounds
import TokenQuota.Proofs.TokenBucket.Saturation
import TokenQuota.Proofs.TokenBucket.Monotonicity
import TokenQuota.Proofs.TokenBucket.Overflow
import TokenQuota.Proofs.TokenBucket.Feasibility
import TokenQuota.Proofs.TokenBucket.Splitting
import TokenQuota.Proofs.Store.Lapsing
import TokenQuota.Proofs.Bucket.Lookups
import TokenQuota.Proofs.Bucket.Sweeping
import TokenQuota.Proofs.Bucket.Racing
import TokenQuota.Proofs.Bucket.Absorbing
import TokenQuota.Proofs.Server.Pairs
import TokenQuota.Proofs.Config.Violations
import TokenQuota.Proofs.Stats.Counting
import TokenQuota.Proofs.Redis.Cleaning
import TokenQuota.Proofs.Http.TokenRequests
import TokenQuota.Proofs.TokenBucket.StateKeys
import TokenQuota.Proofs.Bucket.Pausing
import TokenQuota.Proofs.Http.CountRequests
