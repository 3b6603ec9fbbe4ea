import CivicPulse.Lang.Pool
import CivicPulse.Text.Json
import CivicPulse.Text.Regex
import CivicPulse.Text.JsonProofs
import CivicPulse.Domain
import CivicPulse.Platform
import CivicPulse.Schemas
import CivicPulse.Store.Table
import CivicPulse.Store.Redis
import CivicPulse.Triage.Rules
import CivicPulse.Services.Cache
import CivicPulse.Services.Triage
import CivicPulse.Services.Complaints
import CivicPulse.Triage.Guardrail
import CivicPulse.Runs.TriageCalls
import CivicPulse.Runs.Orchestration
import CivicPulse.Runs.Provenance
import CivicPulse.Services.ContentHash
import CivicPulse.Runs.Transparency
import CivicPulse.Runs.RateLimit
import CivicPulse.Runs.Storable
import CivicPulse.Store.History
import CivicPulse.Services.Figures
import CivicPulse.Runs.Requests
import CivicPulse.Runs.Sessions
import CivicPulse.Runs.RequestRuns
import CivicPulse.Runs.StatusMachine
import CivicPulse.Runs.Statistics
import CivicPulse.Runs.StatsCache
import CivicPulse.Triage.Summary
import CivicPulse.Frontend.Dashboard
import CivicPulse.Frontend.Form
import CivicPulse.Lang.Alone
import CivicPulse.Services.Alone
import CivicPulse.Runs.Atomic
import CivicPulse.Store.Frame
import CivicPulse.Runs.Poisoned
import CivicPulse.Runs.ReadThrough
import CivicPulse.Runs.Inference
import CivicPulse.Runs.Browsing
import CivicPulse.Services.Seed
import CivicPulse.Runs.Seeding
import CivicPulse.Lang.Image
import CivicPulse.Store.Anonymous
import CivicPulse.Triage.Llm
import CivicPulse.Runs.Contact
import CivicPulse.Services.Listing
import CivicPulse.Runs.RetryAfter
import CivicPulse.Triage.Sanitize
import CivicPulse.Text.Occurrences
import CivicPulse.Triage.Delimiters
import CivicPulse.Triage.Streetlights
import CivicPulse.Text.CodePoints
import CivicPulse.Triage.Reply
import CivicPulse.Lang.Tally
import CivicPulse.Runs.Counters
import CivicPulse.Runs.Outages
import CivicPulse.Text.Objects
import CivicPulse.Triage.Fences
import CivicPulse.Http.Api
import CivicPulse.Http.Responses
import CivicPulse.Runs.Progress
import CivicPulse.Http.Limits
import CivicPulse.Lang.Memory
import CivicPulse.Runs.Staleness
import CivicPulse.Http.Refusals
import CivicPulse.Http.Transactions
import CivicPulse.Http.Logging
import CivicPulse.Http.Middleware
import CivicPulse.Http.ServerErrors
import CivicPulse.Http.Providers
import CivicPulse.Http.RequestLines
import CivicPulse.Http.Deployed
