import PoseLang.Cache
import PoseLang.Motion.Decode
import PoseLang.Sample
import PoseLang.Proofs.Number.Order
import PoseLang.Proofs.Number.Rounding
import PoseLang.Proofs.Number.Decimal
import PoseLang.Proofs.Number.Sum
import PoseLang.Proofs.Token.Lexical
import PoseLang.Proofs.Token.Lexer
import PoseLang.Proofs.Token.Malformed
import PoseLang.Proofs.Token.Trivia
import PoseLang.Proofs.Token.LetterCase
import PoseLang.Proofs.Document.Grammar
import PoseLang.Proofs.Document.Reader
import PoseLang.Proofs.Document.Repeated
import PoseLang.Proofs.Document.Descent
import PoseLang.Proofs.Document.Progress
import PoseLang.Proofs.Document.Viable
import PoseLang.Proofs.Document.Layout
import PoseLang.Proofs.Document.LetterCase
import PoseLang.Proofs.Document.Checked
import PoseLang.Proofs.Document.Faults
import PoseLang.Proofs.Document.Places
import PoseLang.Proofs.Document.Blame
import PoseLang.Proofs.AxisSet
import PoseLang.Proofs.Posture
import PoseLang.Proofs.Posture.Permitted
import PoseLang.Proofs.Posture.LastWord
import PoseLang.Proofs.Timeline
import PoseLang.Proofs.Timeline.Track
import PoseLang.Proofs.Timeline.Order
import PoseLang.Proofs.Timeline.Assembly
import PoseLang.Proofs.Played
import PoseLang.Proofs.Rotation
import PoseLang.Proofs.Motion.RoundTrip
import PoseLang.Proofs.Motion.ModelName
import PoseLang.Proofs.Motion.Parses
import PoseLang.Proofs.Motion.Stream
import PoseLang.Proofs.Motion.Truncation
import PoseLang.Proofs.Compile
import PoseLang.Proofs.Limits
import PoseLang.Proofs.Warnings
import PoseLang.Proofs.Located
import PoseLang.Proofs.Cache
import PoseLang.Proofs.Cache.Recency
