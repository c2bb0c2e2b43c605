import TickEngine.Command.Basic
import TickEngine.Command.Batch
import TickEngine.Command.Draft
import TickEngine.Command.Wire
import TickEngine.Component.Basic
import TickEngine.Component.Catalog
import TickEngine.Component.Error
import TickEngine.Component.Registry
import TickEngine.Component.TypeId
import TickEngine.Engine.Basic
import TickEngine.Engine.Config
import TickEngine.Engine.Run
import TickEngine.Entity.Basic
import TickEngine.Main
import TickEngine.MessagePack.Reader
import TickEngine.MessagePack.Value
import TickEngine.MessagePack.Writer
import TickEngine.Number.Duration
import TickEngine.Number.Ieee
import TickEngine.Number.Literal
import TickEngine.Number.Real
import TickEngine.Number.Shortest
import TickEngine.Order.Search
import TickEngine.Order.SortedMap
import TickEngine.Particles.Session
import TickEngine.Particles.Systems
import TickEngine.Pipeline.Dispatch
import TickEngine.Pipeline.Execution
import TickEngine.Pipeline.Outline
import TickEngine.Pipeline.System
import TickEngine.Pipeline.Tree
import TickEngine.Proofs.Ages
import TickEngine.Proofs.Budgets
import TickEngine.Proofs.Cells
import TickEngine.Proofs.Census
import TickEngine.Proofs.Commuting
import TickEngine.Proofs.Crew
import TickEngine.Proofs.Declarations
import TickEngine.Proofs.Despawns
import TickEngine.Proofs.Direct
import TickEngine.Proofs.Endings
import TickEngine.Proofs.EngineHistory
import TickEngine.Proofs.Executions
import TickEngine.Proofs.Failure
import TickEngine.Proofs.Forecast
import TickEngine.Proofs.HandOff
import TickEngine.Proofs.Handles
import TickEngine.Proofs.Identifiers
import TickEngine.Proofs.Ids
import TickEngine.Proofs.Items
import TickEngine.Proofs.Ledger
import TickEngine.Proofs.Lifetimes
import TickEngine.Proofs.Line
import TickEngine.Proofs.Names
import TickEngine.Proofs.Offers
import TickEngine.Proofs.OneWorker
import TickEngine.Proofs.Order
import TickEngine.Proofs.Placements
import TickEngine.Proofs.Preorder
import TickEngine.Proofs.Progress
import TickEngine.Proofs.Rebuild
import TickEngine.Proofs.Records
import TickEngine.Proofs.Recycling
import TickEngine.Proofs.Registration
import TickEngine.Proofs.Rounding
import TickEngine.Proofs.Rows
import TickEngine.Proofs.Runs
import TickEngine.Proofs.Schedules
import TickEngine.Proofs.Search
import TickEngine.Proofs.Sequential
import TickEngine.Proofs.Sessions
import TickEngine.Proofs.Shapes
import TickEngine.Proofs.Slots
import TickEngine.Proofs.Stages
import TickEngine.Proofs.Starting
import TickEngine.Proofs.Storage
import TickEngine.Proofs.Ticks
import TickEngine.Proofs.Upkeep
import TickEngine.Proofs.Wire
import TickEngine.Proofs.World
import TickEngine.Proofs.WorldHistory
import TickEngine.Schema.Coding
import TickEngine.Schema.Shape
import TickEngine.Script.Action
import TickEngine.Script.Interpreter
import TickEngine.Script.Motion
import TickEngine.Selection.Access
import TickEngine.Selection.LiveSet
import TickEngine.Selection.SetSpec
import TickEngine.Storage.Cell
import TickEngine.Storage.Table
import TickEngine.Tasks.Machine
import TickEngine.Tasks.Panic
import TickEngine.Tasks.Pool
import TickEngine.Tasks.Program
import TickEngine.Tasks.Sequential
import TickEngine.Tasks.Sharing
import TickEngine.Text.Blank
import TickEngine.Text.Hex
import TickEngine.Text.Quoted
import TickEngine.Text.Unprintable
import TickEngine.World.Basic
import TickEngine.World.Change
