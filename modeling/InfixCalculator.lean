import InfixCalculator.Main
import InfixCalculator.Proofs.Lexing
import InfixCalculator.Session.Screen
import InfixCalculator.Proofs.Conversion
import InfixCalculator.Proofs.Evaluation
import InfixCalculator.Proofs.Substitution
import InfixCalculator.Proofs.Acceptance
import InfixCalculator.Proofs.Precedence
import InfixCalculator.Proofs.RecursiveDescent
import InfixCalculator.Proofs.Spelling
import InfixCalculator.Proofs.Arrangement
import InfixCalculator.Proofs.Outcome
import InfixCalculator.Proofs.Display
import InfixCalculator.Proofs.Replay
import InfixCalculator.Proofs.Rendering
import InfixCalculator.Proofs.Cut
import InfixCalculator.Proofs.Agreement
import InfixCalculator.Proofs.ResultText
import InfixCalculator.Proofs.PostfixText
import InfixCalculator.Proofs.Undo
import InfixCalculator.Proofs.Retention
import InfixCalculator.Proofs.FirstFault
import InfixCalculator.Proofs.Placement
import InfixCalculator.Proofs.Forest
import InfixCalculator.Proofs.Insertion
import InfixCalculator.Proofs.LastSymbol
import InfixCalculator.Proofs.FloorDivision
import InfixCalculator.Proofs.Limits
import InfixCalculator.Proofs.Concatenation
import InfixCalculator.Proofs.Focus
import InfixCalculator.Proofs.OptionReading
import InfixCalculator.Proofs.OptionSpelling
import InfixCalculator.Proofs.StackHeight
