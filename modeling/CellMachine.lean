import CellMachine.Cell
import CellMachine.Command.Arguments
import CellMachine.Command.Batch
import CellMachine.Command.Exit
import CellMachine.Command.Interactive
import CellMachine.Command.Profile
import CellMachine.Delivery
import CellMachine.Fault
import CellMachine.FileSystem
import CellMachine.Host
import CellMachine.Host.Buffer
import CellMachine.Host.Console
import CellMachine.Host.Script
import CellMachine.Host.Streams
import CellMachine.Host.Terminal
import CellMachine.Image
import CellMachine.Key
import CellMachine.Log
import CellMachine.Machine
import CellMachine.Machine.Action
import CellMachine.Machine.Instruction
import CellMachine.Main
import CellMachine.Memory
import CellMachine.Memory.Transfer
import CellMachine.Opcode
import CellMachine.Proofs.Addresses
import CellMachine.Proofs.Arguments
import CellMachine.Proofs.Arithmetic
import CellMachine.Proofs.BatchRuns
import CellMachine.Proofs.Bounds
import CellMachine.Proofs.Commands
import CellMachine.Proofs.Concurrence
import CellMachine.Proofs.Contents
import CellMachine.Proofs.DeadCells
import CellMachine.Proofs.DeviceProtocol
import CellMachine.Proofs.Dispatch
import CellMachine.Proofs.FaultFootprint
import CellMachine.Proofs.FloorCrossing
import CellMachine.Proofs.GuardedMachine
import CellMachine.Proofs.GuardsHold
import CellMachine.Proofs.History
import CellMachine.Proofs.InstructionSets
import CellMachine.Proofs.Instructions
import CellMachine.Proofs.ListMachine
import CellMachine.Proofs.ListRefinement
import CellMachine.Proofs.Loading
import CellMachine.Proofs.LogText
import CellMachine.Proofs.MemoryHistory
import CellMachine.Proofs.Outcome
import CellMachine.Proofs.Overflow
import CellMachine.Proofs.PointerBalance
import CellMachine.Proofs.Recorder
import CellMachine.Proofs.ReportReading
import CellMachine.Proofs.Retry
import CellMachine.Proofs.ReturnStack
import CellMachine.Proofs.Runs
import CellMachine.Proofs.StackDisplay
import CellMachine.Proofs.StackFrame
import CellMachine.Proofs.StackLines
import CellMachine.Proofs.StepLists
import CellMachine.Proofs.StepwiseRuns
import CellMachine.Proofs.Tally
import CellMachine.Proofs.TerminalRuns
import CellMachine.Proofs.Transcript
import CellMachine.Proofs.Transfers
import CellMachine.Proofs.Unread
import CellMachine.Proofs.Verbosity
import CellMachine.Stack
import CellMachine.Statistics
import CellMachine.System
import CellMachine.System.Load
import CellMachine.System.Run
import CellMachine.System.Step
import CellMachine.Text.Field
