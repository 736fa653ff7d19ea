import OneMail.Accounts.Attribution
import OneMail.Accounts.Cap
import OneMail.Accounts.Removal
import OneMail.Accounts.Requests
import OneMail.Admin.Counting
import OneMail.Admin.Lockout
import OneMail.Attachments.Collection
import OneMail.Attachments.Safety
import OneMail.Backfill.Migration
import OneMail.Backfill.Safety
import OneMail.Backfill.Verification
import OneMail.Binding.Ownership
import OneMail.Binding.Requests
import OneMail.Cleanup.Addresses
import OneMail.Cleanup.AllOrNothing
import OneMail.Content.LocalUrls
import OneMail.External.Enqueue
import OneMail.External.Idempotency
import OneMail.Fleet.Accounting
import OneMail.Fleet.Contracts
import OneMail.Fleet.Optimality
import OneMail.Fleet.Ownership
import OneMail.Fleet.Placement
import OneMail.Fleet.Registry
import OneMail.Fleet.Replay
import OneMail.Fleet.Streaks
import OneMail.Fleet.Writes
import OneMail.Idle.OneSync
import OneMail.Idle.Workers
import OneMail.Js.Bytes
import OneMail.Js.Host
import OneMail.Js.JsString
import OneMail.Js.Json
import OneMail.Js.Pattern
import OneMail.Js.Uri
import OneMail.Js.Url
import OneMail.Js.UtcDate
import OneMail.Lib.Batch
import OneMail.Lib.Chunks
import OneMail.Lib.Coding
import OneMail.Lib.Conservation
import OneMail.Lib.Copies
import OneMail.Lib.Fallible
import OneMail.Lib.Grouping
import OneMail.Lib.Heap
import OneMail.Lib.Interleave
import OneMail.Lib.KeyValue
import OneMail.Lib.Loop
import OneMail.Lib.Membership
import OneMail.Lib.Numeral
import OneMail.Lib.OneTime
import OneMail.Lib.Ordered
import OneMail.Lib.Paging
import OneMail.Lib.Recency
import OneMail.Lib.Regex
import OneMail.Lib.Resend
import OneMail.Lib.Retention
import OneMail.Lib.Retry
import OneMail.Lib.Selection
import OneMail.Lib.Stream
import OneMail.Lib.Supply
import OneMail.Lib.Table
import OneMail.Lib.Transition
import OneMail.Metrics.History
import OneMail.Metrics.Response
import OneMail.Mirror.Deletion
import OneMail.Mirror.Jobs
import OneMail.Mirror.Lossless
import OneMail.Move.Attempts
import OneMail.Move.Recovery
import OneMail.Move.Server
import OneMail.Mutation.Barrier
import OneMail.Mutation.Completion
import OneMail.Mutation.Flags
import OneMail.Mutation.Handlers
import OneMail.Mutation.Identity
import OneMail.Mutation.Ingest
import OneMail.Mutation.Mailbox
import OneMail.Mutation.Queue
import OneMail.Mutation.Reports
import OneMail.Mutation.Rows
import OneMail.Mutation.Serialization
import OneMail.Mutation.Statements
import OneMail.Net.Guards
import OneMail.Net.Socks5
import OneMail.Outbound.AtMostOnce
import OneMail.Outbound.Jobs
import OneMail.Outbound.Leases
import OneMail.Outbound.Queue
import OneMail.Outbound.Senders
import OneMail.Outbound.Truthful
import OneMail.Proxy.Delivery
import OneMail.Proxy.Mailbox
import OneMail.Proxy.Numbers
import OneMail.Proxy.Search
import OneMail.Proxy.Session
import OneMail.Proxy.Stability
import OneMail.Quota.Coordinator
import OneMail.Quota.Counting
import OneMail.Quota.Flush
import OneMail.Secrets.Keys
import OneMail.Secrets.Stores
import OneMail.Secrets.Uses
import OneMail.Send.Balance
import OneMail.Send.Calls
import OneMail.Send.Dispatch
import OneMail.Send.Ledger
import OneMail.Send.Mail
import OneMail.Send.Quota
import OneMail.Send.Refund
import OneMail.Send.Reservations
import OneMail.Sync.Anchor
import OneMail.Sync.Backoff
import OneMail.Sync.Catalog
import OneMail.Sync.Downloads
import OneMail.Sync.Folders
import OneMail.Sync.Graph
import OneMail.Sync.Imap
import OneMail.Sync.Pop3
import OneMail.Sync.Targets
import OneMail.Sync.Watermark
import OneMail.Tokens.Newest
import OneMail.Tokens.Stores
import OneMail.Unified.ApiKeys
import OneMail.Unified.Auth
import OneMail.Unified.BoundedFilter
import OneMail.Unified.Cursor
import OneMail.Unified.EmailOrder
import OneMail.Unified.Federation
import OneMail.Unified.Filter
import OneMail.Unified.Listing
import OneMail.Unified.Merge
import OneMail.Unified.OneOwner
import OneMail.Unified.Owners
import OneMail.Unified.PageMerge
import OneMail.Unified.Pagination
import OneMail.Unified.Remote
import OneMail.Unified.Scope
import OneMail.Unified.Shards
import OneMail.Unified.SqlFilter
import OneMail.Unified.VerifCode
import OneMail.Upload.Config
import OneMail.Upload.Delivery
import OneMail.Upload.ExactlyOnce
import OneMail.Upload.Uploader
import OneMail.Webhook.Decoding
import OneMail.Webhook.Template
import OneMail.Webhook.UrlGuard
import OneMail.Webhook.UrlSafety
