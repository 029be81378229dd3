import HackStack.Asm.Alu
import HackStack.Asm.Block
import HackStack.Asm.Line
import HackStack.Asm.Listing
import HackStack.Asm.Mnemonic
import HackStack.Asm.Symbols
import HackStack.Command
import HackStack.Command.Reading
import HackStack.Command.Symbol
import HackStack.Diagnostic
import HackStack.Emitter
import HackStack.Emitter.Session
import HackStack.Fault
import HackStack.Field
import HackStack.FileTree
import HackStack.Invocation
import HackStack.Machine
import HackStack.Machine.Loading
import HackStack.Machine.Running
import HackStack.Main
import HackStack.Module
import HackStack.Path
import HackStack.Program
import HackStack.Proofs.Activations
import HackStack.Proofs.Arithmetic
import HackStack.Proofs.Assembling
import HackStack.Proofs.Blocks
import HackStack.Proofs.Bootstrap
import HackStack.Proofs.Budgets
import HackStack.Proofs.Captured
import HackStack.Proofs.Cells
import HackStack.Proofs.Comparisons
import HackStack.Proofs.DefinedOnce
import HackStack.Proofs.Directories
import HackStack.Proofs.Embedding
import HackStack.Proofs.Execution
import HackStack.Proofs.Files
import HackStack.Proofs.Formatting
import HackStack.Proofs.FrameEffects
import HackStack.Proofs.Frames
import HackStack.Proofs.Grammar
import HackStack.Proofs.InPlace
import HackStack.Proofs.InstructionSet
import HackStack.Proofs.Labels
import HackStack.Proofs.Layout
import HackStack.Proofs.Listings
import HackStack.Proofs.Loadable
import HackStack.Proofs.Malformed
import HackStack.Proofs.Meaning
import HackStack.Proofs.Names
import HackStack.Proofs.Outcomes
import HackStack.Proofs.Parsed
import HackStack.Proofs.Rearranged
import HackStack.Proofs.Refusals
import HackStack.Proofs.Rendered
import HackStack.Proofs.RoundTrip
import HackStack.Proofs.Simulation
import HackStack.Proofs.Splitting
import HackStack.Proofs.StackEffects
import HackStack.Proofs.Statics
import HackStack.Proofs.StraightLine
import HackStack.Proofs.TwoPass
import HackStack.Proofs.WordMachine
import HackStack.Proofs.Written
import HackStack.RegisterFile
import HackStack.Segment
import HackStack.Source
import HackStack.Text.Blank
import HackStack.Text.Digit
import HackStack.Text.LineBreak
import HackStack.Text.Numeral
import HackStack.Text.Order
import HackStack.Text.Printable
import HackStack.Text.Quoted
import HackStack.Text.UpperCase
import HackStack.Text.Utf8
import HackStack.Tool
import HackStack.Word
