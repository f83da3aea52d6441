import Rulebook.Http.App
import Rulebook.Json.Text
import Rulebook.Settings.Load
import Rulebook.Settings.Plain.Library
import Rulebook.Proofs.Parsing
import Rulebook.Proofs.Rounding
import Rulebook.Proofs.Numerals
import Rulebook.Proofs.Spacing
import Rulebook.Proofs.Legible
import Rulebook.Proofs.RoundTrip
import Rulebook.Proofs.Outcome
import Rulebook.Proofs.Tables
import Rulebook.Proofs.Registry
import Rulebook.Proofs.Authoring
import Rulebook.Proofs.Snapshot
import Rulebook.Proofs.Exchanges
import Rulebook.Proofs.Records
import Rulebook.Proofs.Acknowledged
import Rulebook.Proofs.Bookkeeping
import Rulebook.Proofs.Lineage
import Rulebook.Proofs.Paging
import Rulebook.Proofs.Viability
import Rulebook.Proofs.Partition
import Rulebook.Proofs.Layout
import Rulebook.Proofs.Visits
import Rulebook.Proofs.Flattening
import Rulebook.Proofs.NotANumber
import Rulebook.Proofs.Duality
import Rulebook.Proofs.Relevance
import Rulebook.Proofs.Reordering
import Rulebook.Proofs.Places
import Rulebook.Proofs.Walks
import Rulebook.Proofs.Tracing
import Rulebook.Proofs.Listing
import Rulebook.Proofs.FlatObjects
import Rulebook.Proofs.SyntaxTrees
import Rulebook.Proofs.Overlap
import Rulebook.Proofs.Descent
import Rulebook.Proofs.Resuming
import Rulebook.Proofs.Nearest
import Rulebook.Proofs.NumberTokens
import Rulebook.Proofs.Overlays
import Rulebook.Proofs.PlainLibrary
import Rulebook.Proofs.Layering
