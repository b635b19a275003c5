import PaPlatform.Lib.Run
import PaPlatform.Lib.Json
import PaPlatform.Lib.Text
import PaPlatform.Lib.Record
import PaPlatform.Deploy.Values
import PaPlatform.Custody.Freshness
import PaPlatform.Custody.Accept
import PaPlatform.Custody.Failure
import PaPlatform.Custody.Bounds
import PaPlatform.Custody.Owners
import PaPlatform.Custody.Written
import PaPlatform.Prepared.Reload
import PaPlatform.Registry.Tickets
import PaPlatform.Registry.Terminal
import PaPlatform.Registry.Projection
import PaPlatform.Registry.Authority
import PaPlatform.Capacity.Lifecycle
import PaPlatform.Tickets.Aliases
import PaPlatform.Admission.Takeover
import PaPlatform.Todo.Section
import PaPlatform.Todo.Sessions
import PaPlatform.Hub.Chunks
import PaPlatform.Validation.Digest
import PaPlatform.Custody.Phases
import PaPlatform.Custody.Progress
import PaPlatform.Tickets.LinkedBranches
import PaPlatform.Tickets.Updates
import PaPlatform.Safety.Redirects
import PaPlatform.Workflow.Interleavings
import PaPlatform.Documents.Settlement
import PaPlatform.Tickets.Resumption
import PaPlatform.Admission.Receipts
import PaPlatform.Admission.DirtyScope
import PaPlatform.Deploy.StatusRecords
import PaPlatform.Lib.JsonMembers
import PaPlatform.Lib.JsonNumbers
import PaPlatform.Lib.JsonPretty
import PaPlatform.Lib.Utf8Strict
import PaPlatform.Validation.ReviewJson
import PaPlatform.Validation.ReviewReader
import PaPlatform.Tickets.Comments
import PaPlatform.GitContext.Branches
import PaPlatform.GitContext.Readers
import PaPlatform.Tickets.IdOrder
import PaPlatform.Templates.Substitution
import PaPlatform.Lib.Collect
import PaPlatform.Lib.Pattern
import PaPlatform.Lib.PatternRests
import PaPlatform.Operations.RoundTrip
import PaPlatform.Validation.ReviewAuthority
import PaPlatform.Artifacts.Feedback
import PaPlatform.Context.RefreshLimiter
import PaPlatform.Quota.Profile
import PaPlatform.Diagnostics.Chunks
import PaPlatform.Diagnostics.Forms
import PaPlatform.Diagnostics.Reading
import PaPlatform.Diagnostics.Agreement
import PaPlatform.Diagnostics.Incremental
