import WriteRelay.Spool.Guarantees
import WriteRelay.Spool.Configuration
import WriteRelay.Spool.Selection
import WriteRelay.Spool.Pruning
import WriteRelay.Spool.Stats
import WriteRelay.Spool.Redriving
import WriteRelay.Spool.Migrations
import WriteRelay.App.Run
import WriteRelay.Doctor
import WriteRelay.Monitoring.Metrics
import WriteRelay.Postgres.Assembly
import WriteRelay.Postgres.Refinement
import WriteRelay.EndToEnd
import WriteRelay.Inbox.Refinement
import WriteRelay.Inbox.Connection
import WriteRelay.Delivery.Identity
import WriteRelay.Delivery.Outcomes
import WriteRelay.Delivery.Retry
import WriteRelay.Sql.Emit
import WriteRelay.Sdk.RoundTrip
import WriteRelay.Sdk.Timestamps
import WriteRelay.Sdk.Storable
import WriteRelay.Sdk.Unfolding
