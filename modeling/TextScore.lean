import TextScore.CommandLine.Run
import TextScore.Fault.Message
import TextScore.Main
import TextScore.Midi.Arrangement
import TextScore.Score.Compile
import TextScore.Score.Listing
import TextScore.Score.Payload
import TextScore.Proofs.CommandLine.Output
import TextScore.Proofs.Ensemble.Credits
import TextScore.Proofs.Ensemble.Declared
import TextScore.Proofs.Ensemble.DefaultGroup
import TextScore.Proofs.Ensemble.Marks
import TextScore.Proofs.Ensemble.Notation
import TextScore.Proofs.Ensemble.Written
import TextScore.Proofs.Json.Numeral
import TextScore.Proofs.Json.Outside
import TextScore.Proofs.Json.Reader
import TextScore.Proofs.Json.RoundTrip
import TextScore.Proofs.Json.Squeezed
import TextScore.Proofs.Macro.Substituted
import TextScore.Proofs.Macro.Written
import TextScore.Proofs.Measure.Assignment
import TextScore.Proofs.Measure.Clause
import TextScore.Proofs.Measure.LastActive
import TextScore.Proofs.Measure.Names
import TextScore.Proofs.Measure.Segment
import TextScore.Proofs.Midi.Arrangement
import TextScore.Proofs.Midi.Exported
import TextScore.Proofs.Midi.Hanging
import TextScore.Proofs.Midi.Tempo
import TextScore.Proofs.Midi.Ticks
import TextScore.Proofs.Noted
import TextScore.Proofs.Number.Arithmetic
import TextScore.Proofs.Number.Layout
import TextScore.Proofs.Number.Numeral
import TextScore.Proofs.Number.Quotient
import TextScore.Proofs.Number.Rounding
import TextScore.Proofs.Number.Scaling
import TextScore.Proofs.Number.Value
import TextScore.Proofs.Number.Whole
import TextScore.Proofs.Outcome
import TextScore.Proofs.Pitch
import TextScore.Proofs.Repeat.Pass
import TextScore.Proofs.Repeat.Phrase
import TextScore.Proofs.Repeat.Room
import TextScore.Proofs.Score.Accounted
import TextScore.Proofs.Score.Failing
import TextScore.Proofs.Score.Located
import TextScore.Proofs.Score.MetaBlocks
import TextScore.Proofs.Score.Order
import TextScore.Proofs.Score.Roster
import TextScore.Proofs.Score.Shown
import TextScore.Proofs.Score.Sorted
import TextScore.Proofs.Score.Stages
import TextScore.Proofs.Score.Undeclared
import TextScore.Proofs.Source.Invisible
import TextScore.Proofs.Source.Kept
import TextScore.Proofs.Source.Marked
import TextScore.Proofs.Text.Class
import TextScore.Proofs.Text.Scan
import TextScore.Proofs.Text.Words
import TextScore.Proofs.Timeline.Broadcast
import TextScore.Proofs.Timeline.Continued
import TextScore.Proofs.Timeline.Emission
import TextScore.Proofs.Timeline.Failing
import TextScore.Proofs.Timeline.Forward
import TextScore.Proofs.Timeline.History
import TextScore.Proofs.Timeline.Independence
import TextScore.Proofs.Timeline.Memory
import TextScore.Proofs.Timeline.Play
import TextScore.Proofs.Timeline.Roster
import TextScore.Proofs.Timeline.Transposition
import TextScore.Proofs.Timeline.Voice
import TextScore.Proofs.Token.Annotation
import TextScore.Proofs.Token.Cut
import TextScore.Proofs.Token.First
import TextScore.Proofs.Token.Notation
import TextScore.Proofs.Token.Rejoined
import TextScore.Proofs.Token.Spot
