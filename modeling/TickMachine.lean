import TickMachine.Binary.Basic
import TickMachine.Binary.Rounding
import TickMachine.Binary.Arithmetic
import TickMachine.Decimal.Basic
import TickMachine.Decimal.Shortest
import TickMachine.Decimal.Text
import TickMachine.Opcode
import TickMachine.Instruction
import TickMachine.Program
import TickMachine.Fault
import TickMachine.Stack
import TickMachine.Event
import TickMachine.Record
import TickMachine.Machine.Basic
import TickMachine.Machine.Effect
import TickMachine.Machine.Tick
import TickMachine.Session
import TickMachine.Log
import TickMachine.Assembler
import TickMachine.Unprintable
import TickMachine.QuotedText
import TickMachine.CommandLine
import TickMachine.Simulation
import TickMachine.Main
import TickMachine.Proofs.Decode
import TickMachine.Proofs.Effect
import TickMachine.Proofs.Move
import TickMachine.Proofs.Commands
import TickMachine.Proofs.Bounds
import TickMachine.Proofs.Journal
import TickMachine.Proofs.Listing
import TickMachine.Proofs.Walker
import TickMachine.Proofs.Alignment
import TickMachine.Proofs.Pass
import TickMachine.Proofs.Schedule
import TickMachine.Proofs.Finish
import TickMachine.Proofs.Observation
import TickMachine.Proofs.Assembly
import TickMachine.Proofs.DepthScan
import TickMachine.Proofs.Waits
import TickMachine.Proofs.Faults
import TickMachine.Proofs.Log
import TickMachine.Proofs.Simulation
import TickMachine.Proofs.Atomicity
import TickMachine.Proofs.Shape
import TickMachine.Proofs.Policies
import TickMachine.Proofs.Strays
import TickMachine.Proofs.Tidying
import TickMachine.Proofs.Extension
import TickMachine.Proofs.Underlay
import TickMachine.Proofs.Pauses
import TickMachine.Proofs.FloatPaths
import TickMachine.Proofs.Fetches
import TickMachine.Proofs.Messages
import TickMachine.Proofs.NumberText
import TickMachine.Proofs.EventText
import TickMachine.Proofs.FieldText
import TickMachine.Proofs.LineText
import TickMachine.Proofs.QuotedText
import TickMachine.Proofs.Account
import TickMachine.Proofs.WordFetch
import TickMachine.Proofs.BoundedStack
