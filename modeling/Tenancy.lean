import Tenancy.Exchange
import Tenancy.Plan.Decide
import Tenancy.Plan.Sql
import Tenancy.Proofs.Json.RoundTrips
import Tenancy.Proofs.Partition.KeyValues
import Tenancy.Proofs.Restrict.Audit
import Tenancy.Proofs.Restrict.Contexts
import Tenancy.Proofs.Restrict.Contract
import Tenancy.Proofs.Restrict.Placement
import Tenancy.Proofs.Restrict.Spelling
import Tenancy.Proofs.Restrict.Templates
import Tenancy.Proofs.Restrict.Visibility
import Tenancy.Proofs.Rows.InnerJoins
import Tenancy.Proofs.Rows.Links
import Tenancy.Proofs.Rows.OuterJoins
import Tenancy.Proofs.Scope.Ancestry
import Tenancy.Proofs.Scope.Filters
import Tenancy.Proofs.Scope.Pairing
import Tenancy.Proofs.Scope.Regions
import Tenancy.Proofs.Session.Interleaving
import Tenancy.Proofs.Session.Reentrancy
import Tenancy.Proofs.Sql.Filters
import Tenancy.Proofs.Sql.JoinTrees
import Tenancy.Proofs.Sql.Quoting
import Tenancy.Proofs.Sql.Synthetic
import Tenancy.Proofs.Sql.Unions
import Tenancy.Proofs.Sql.Writing
import Tenancy.Proofs.Tasks.Isolation
import Tenancy.Session
