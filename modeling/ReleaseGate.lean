import ReleaseGate.Command.Run
import ReleaseGate.Main
import ReleaseGate.Proofs.Suite.Attribution
import ReleaseGate.Proofs.Config.Accepted
import ReleaseGate.Proofs.Evidence.Verdict
import ReleaseGate.Proofs.Contract.Satisfied
import ReleaseGate.Proofs.Text.Utf8
import ReleaseGate.Proofs.Json.Numeral
import ReleaseGate.Proofs.Json.Scan
import ReleaseGate.Proofs.Json.Tree
import ReleaseGate.Proofs.Json.Reread
import ReleaseGate.Proofs.Decimal.Bounds
import ReleaseGate.Proofs.Decimal.Shortest
import ReleaseGate.Proofs.Json.InRange
import ReleaseGate.Proofs.Evidence.PassRate
import ReleaseGate.Proofs.Evidence.Readable
import ReleaseGate.Proofs.Contract.Reread
import ReleaseGate.Proofs.Files.Grows
import ReleaseGate.Proofs.Taxonomy.Build
import ReleaseGate.Proofs.Files.Reach
import ReleaseGate.Proofs.Files.Join
import ReleaseGate.Proofs.Evidence.Store
import ReleaseGate.Proofs.Config.Grown
import ReleaseGate.Proofs.Command.Revalidate
import ReleaseGate.Proofs.Source.Scanner
import ReleaseGate.Proofs.Taxonomy.Assemble
import ReleaseGate.Proofs.Decimal.Grid
import ReleaseGate.Proofs.Json.Plain
import ReleaseGate.Proofs.Time.Date
import ReleaseGate.Proofs.Time.Instant
import ReleaseGate.Proofs.Evidence.RoundTrip
import ReleaseGate.Proofs.Suite.Recognised
import ReleaseGate.Proofs.Suite.Line
import ReleaseGate.Proofs.Suite.Rendered
import ReleaseGate.Proofs.Command.Generate
import ReleaseGate.Proofs.Evidence.Partition
import ReleaseGate.Proofs.Matrix.Traced
import ReleaseGate.Proofs.Command.Count
import ReleaseGate.Proofs.Text.Field
import ReleaseGate.Proofs.Providers.Record
import ReleaseGate.Proofs.Providers.Counted
import ReleaseGate.Proofs.Files.Named
import ReleaseGate.Proofs.Files.Leads
import ReleaseGate.Proofs.Files.Search
import ReleaseGate.Proofs.Files.Pattern
import ReleaseGate.Proofs.Files.Rooted
import ReleaseGate.Proofs.Files.Unbarred
import ReleaseGate.Proofs.Matrix.Rooted
import ReleaseGate.Proofs.Files.Walk
import ReleaseGate.Proofs.Source.Tree
import ReleaseGate.Proofs.Source.Total
import ReleaseGate.Proofs.Files.Slashed
import ReleaseGate.Proofs.Taxonomy.Faults
import ReleaseGate.Proofs.Matrix.Independent
import ReleaseGate.Proofs.Matrix.Monotone
import ReleaseGate.Proofs.Contract.Failed
import ReleaseGate.Proofs.Contract.Weaker
import ReleaseGate.Proofs.Text.Quoted
import ReleaseGate.Proofs.Contract.Located
import ReleaseGate.Proofs.Suite.Composed
import ReleaseGate.Proofs.Contract.Populated
import ReleaseGate.Proofs.Evidence.Totals
import ReleaseGate.Proofs.Source.Stripped
import ReleaseGate.Proofs.Source.Cut
import ReleaseGate.Proofs.Suite.Announced
import ReleaseGate.Proofs.Evidence.Unreported
import ReleaseGate.Proofs.Text.Partition
import ReleaseGate.Proofs.Json.Part
import ReleaseGate.Proofs.Catalog
import ReleaseGate.Proofs.Command.Check
import ReleaseGate.Proofs.Toml.Spelled
import ReleaseGate.Proofs.Toml.Written
import ReleaseGate.Proofs.Toml.Tables
import ReleaseGate.Proofs.Config.Overridden
