import AccessControl.Address.Cache
import AccessControl.Address.Database
import AccessControl.Database.Scope
import AccessControl.Hierarchy.Labels
import AccessControl.Log.Line
import AccessControl.Proofs.Hierarchy.Acyclic
import AccessControl.Proofs.Path.Placeholders
import AccessControl.Proofs.Policy.Grants
import AccessControl.Proofs.Session.Blocks
import AccessControl.Session.Assignments
import AccessControl.Session.Authorization
import AccessControl.Settings.Environment
import AccessControl.Time.Reading
import AccessControl.Proofs.Policy.Restriction
import AccessControl.Proofs.Cache.Builders
import AccessControl.Proofs.Session.Shared
import AccessControl.Proofs.Rule.WellFormed
import AccessControl.Proofs.Session.RuleCalls
import AccessControl.Proofs.Rule.RoundTrip
import AccessControl.Proofs.Policy.RoundTrip
import AccessControl.Proofs.Session.Isolation
import AccessControl.Proofs.Policy.Monotonicity
import AccessControl.Proofs.Value.Number
import AccessControl.Proofs.Cache.Agreement
import AccessControl.Proofs.Cache.Clients
import AccessControl.Proofs.Cache.Lockstep
import AccessControl.Proofs.Cache.Issued
import AccessControl.Proofs.Cache.Counting
import AccessControl.Proofs.Cache.Eviction
import AccessControl.Proofs.Session.Outage
import AccessControl.Proofs.Session.Peers
import AccessControl.Proofs.Session.Columns
import AccessControl.Proofs.Session.Rollback
import AccessControl.Proofs.Hierarchy.ClosedPaths
import AccessControl.Proofs.Hierarchy.Descendants
import AccessControl.Proofs.Hierarchy.Linked
import AccessControl.Proofs.Session.Admissions
import AccessControl.Proofs.Session.Trials
import AccessControl.Proofs.Session.Trees
import AccessControl.Proofs.Rule.Precedence
import AccessControl.Proofs.Path.Coverage
import AccessControl.Proofs.Stores.Search
import AccessControl.Proofs.Session.Callers
import AccessControl.Proofs.Session.Listings
import AccessControl.Proofs.Session.Batches
import AccessControl.Proofs.Session.Restating
import AccessControl.Proofs.Cache.Forgetting
import AccessControl.Proofs.Settings.Lists
import AccessControl.Proofs.Settings.Invariants
import AccessControl.Proofs.Settings.Escapes
import AccessControl.Proofs.Stores.Keys
import AccessControl.Proofs.Log.Entries
import AccessControl.Proofs.Log.Console
import AccessControl.Proofs.Log.Fields
import AccessControl.Text.Regex
import AccessControl.Proofs.Text.Regex
