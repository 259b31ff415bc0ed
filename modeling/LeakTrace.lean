import LeakTrace.Main
import LeakTrace.Proofs.Flow.Literal
import LeakTrace.Proofs.Detection.LaterCode
import LeakTrace.Proofs.Detection.Termination
import LeakTrace.Proofs.Flow.Respelling
import LeakTrace.Proofs.Detection.Suppressed
import LeakTrace.Proofs.Detection.Binding
import LeakTrace.Proofs.Flow.Write
import LeakTrace.Proofs.Flow.LiteralKey
import LeakTrace.Proofs.Flow.SettledText
import LeakTrace.Proofs.Flow.Lookup
import LeakTrace.Proofs.Flow.Depth
import LeakTrace.Proofs.Pattern.Container
import LeakTrace.Proofs.Pattern.Focus
import LeakTrace.Proofs.Pattern.Unmarked
import LeakTrace.Proofs.Pattern.Spelling
import LeakTrace.Proofs.Catalog.Levels
import LeakTrace.Proofs.Rule.Remainder
import LeakTrace.Proofs.Pattern.Draft
import LeakTrace.Proofs.TrailingBlanks
import LeakTrace.Proofs.Crate.Lexeme
import LeakTrace.Proofs.Changes
import LeakTrace.Proofs.Catalog.FieldName
import LeakTrace.Proofs.Template
