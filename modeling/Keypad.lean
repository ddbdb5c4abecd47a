import Keypad.Expression.Infix
import Keypad.Expression.Tree
import Keypad.Json.Forms
import Keypad.Main
import Keypad.Operation
import Keypad.Proofs.Binary64.Nearest
import Keypad.Proofs.Calculator.ChainFold
import Keypad.Proofs.Calculator.Coherence
import Keypad.Proofs.Calculator.DisplayText
import Keypad.Proofs.Calculator.Presentation
import Keypad.Proofs.Calculator.Recovery
import Keypad.Proofs.Calculator.Stopped
import Keypad.Proofs.Calculator.TypedNumber
import Keypad.Proofs.Display.Ceiling
import Keypad.Proofs.Display.Characters
import Keypad.Proofs.Display.Places
import Keypad.Proofs.Display.ReadBack
import Keypad.Proofs.Display.Separators
import Keypad.Proofs.Display.Settled
import Keypad.Proofs.Display.Written
import Keypad.Proofs.Expression.Literal
import Keypad.Proofs.Expression.Order
import Keypad.Proofs.Expression.Phrase
import Keypad.Proofs.Expression.Sentence
import Keypad.Proofs.Expression.Value
import Keypad.Proofs.Session.TypedExpression
import Keypad.Proofs.Calculator.Effect
import Keypad.Proofs.Calculator.Frame
import Keypad.Proofs.Calculator.Recording
import Keypad.Proofs.Calculator.Repetition
import Keypad.Proofs.Binary64.Order
import Keypad.Proofs.Calculator.Along
import Keypad.Proofs.Calculator.DigitCeiling
import Keypad.Proofs.Calculator.DisplayCharacters
import Keypad.Proofs.Calculator.DisplaysWithin
import Keypad.Proofs.Calculator.EitherMode
import Keypad.Proofs.Calculator.ForeignCharacter
import Keypad.Proofs.Display.DisplayNumber
import Keypad.Proofs.Display.InDigits
import Keypad.Proofs.Display.NumberValue
import Keypad.Proofs.Display.ReadsWithin
import Keypad.Proofs.Display.Scaling
import Keypad.Proofs.Display.Threshold
import Keypad.Proofs.Expression.Fault
import Keypad.Proofs.Expression.FirstFault
import Keypad.Proofs.Expression.Lexeme
import Keypad.Proofs.Expression.Parentheses
import Keypad.Proofs.Expression.Postorder
import Keypad.Proofs.Expression.Reordering
import Keypad.Proofs.Expression.Run
import Keypad.Proofs.Binary64.Overflow
import Keypad.Proofs.Calculator.ChainDisplay
import Keypad.Proofs.Calculator.ShowsNumber
import Keypad.Proofs.Decimal.Positional
import Keypad.Proofs.Display.ExponentForm
import Keypad.Proofs.Settings.Field
import Keypad.Proofs.Settings.Override
import Keypad.Proofs.Settings.InRange
import Keypad.Proofs.Settings.Library
import Keypad.Proofs.Settings.Saved
import Keypad.Proofs.Toml.Line
import Keypad.Proofs.Toml.Document
import Keypad.Proofs.Binary64.NearestReal
import Keypad.Proofs.Calculator.CanonicalEntry
import Keypad.Proofs.Calculator.EntryKeys
import Keypad.Proofs.Calculator.RoundedEntry
import Keypad.Proofs.Display.CutoffRounding
import Keypad.Proofs.Display.LeastRefused
import Keypad.Proofs.Display.ShortestText
import Keypad.Proofs.Display.TieRounding
import Keypad.Proofs.Display.TypedRounding
import Keypad.Proofs.Calculator.LastOperator
import Keypad.Proofs.Calculator.Operand
import Keypad.Proofs.Calculator.TruthfulTape
import Keypad.Proofs.Display.ZeroSign
import Keypad.Proofs.Expression.PlainNumber
import Keypad.Proofs.Calculator.TakingBack
import Keypad.Proofs.Display.Groups
import Keypad.Proofs.Display.ReducedText
import Keypad.Proofs.Session.Spacing
