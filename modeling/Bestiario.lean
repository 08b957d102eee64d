import Bestiario.Lib.Table
import Bestiario.Lib.View
import Bestiario.Lib.Timeline
import Bestiario.Wire
import Bestiario.Parse
import Bestiario.Repo
import Bestiario.Pipeline
import Bestiario.Derived
import Bestiario.Convergence
import Bestiario.Rebuild
import Bestiario.Beside
import Bestiario.Coverage
import Bestiario.Retention
import Bestiario.RateBook
import Bestiario.Thinning
import Bestiario.Sync
import Bestiario.Lib.Tiling
import Bestiario.Lib.Calendar
import Bestiario.Lib.Timestamp
import Bestiario.Lib.Json
import Bestiario.Lib.Groups
import Bestiario.Lib.Segments
import Bestiario.Window
import Bestiario.Metric
import Bestiario.Activity
import Bestiario.Volume
import Bestiario.Fees
import Bestiario.Disputes
import Bestiario.Views
import Bestiario.Series
import Bestiario.Address
import Bestiario.Partitions
import Bestiario.Document
import Bestiario.Snapshot
import Bestiario.Rows
import Bestiario.Absence
import Bestiario.Weeks
import Bestiario.Totals
import Bestiario.WholeArchive
import Bestiario.Restatement
import Bestiario.Revisions
import Bestiario.Unmoved
import Bestiario.Digest
import Bestiario.Relay
import Bestiario.Listing
import Bestiario.Republish
import Bestiario.Lib.Paging
import Bestiario.Backfill
import Bestiario.Publishers
import Bestiario.Present
import Bestiario.Admission
import Bestiario.Indexed
import Bestiario.Sightings
import Bestiario.Bestiary
import Bestiario.Steady
import Bestiario.Arrivals
import Bestiario.Warned
import Bestiario.Lib.Running
import Bestiario.Sums
import Bestiario.Quotes
import Bestiario.Timing
import Bestiario.Stored
import Bestiario.Load
import Bestiario.Windowed
import Bestiario.Labels
import Bestiario.Resolve
import Bestiario.Clock
import Bestiario.Lib.Retain
import Bestiario.Migration
import Bestiario.Reingest
import Bestiario.Agreement
import Bestiario.Pricing
import Bestiario.Lib.Rounding
import Bestiario.Ticket
import Bestiario.Preceding
import Bestiario.Lib.Codes
import Bestiario.FileNames
import Bestiario.Lib.Ranks
import Bestiario.Joined
import Bestiario.Durations
import Bestiario.Columns
import Bestiario.Lib.Gather
import Bestiario.Lib.FirstWrite
import Bestiario.Dialling
import Bestiario.Naming
import Bestiario.Tally
import Bestiario.Discovery
import Bestiario.Following
import Bestiario.Followed
import Bestiario.Mixture
import Bestiario.Lib.Compact
import Bestiario.Posting
import Bestiario.Publishing
import Bestiario.Promises
import Bestiario.Lib.Checks
import Bestiario.Lib.Folding
import Bestiario.Settings
import Bestiario.Settled
