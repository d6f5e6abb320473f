import EvmExporter.Abi
import EvmExporter.Config.Abi
import EvmExporter.Config.Acceptable
import EvmExporter.Config.ArgRanges
import EvmExporter.Config.Args
import EvmExporter.Config.BytesArgs
import EvmExporter.Config.Env
import EvmExporter.Config.EnvValue
import EvmExporter.Config.Load
import EvmExporter.Config.NameClashes
import EvmExporter.Config.Naming
import EvmExporter.Config.Offences
import EvmExporter.Config.SnakeCase
import EvmExporter.Config.Spellings
import EvmExporter.Config.Types
import EvmExporter.Config.UintSpellings
import EvmExporter.Config.Validate
import EvmExporter.Decoder
import EvmExporter.Decoder.Exportable
import EvmExporter.Decoder.Fields
import EvmExporter.Decoder.Precision
import EvmExporter.Deps
import EvmExporter.Error
import EvmExporter.Exporter
import EvmExporter.Exporter.Accounting
import EvmExporter.Exporter.Attempts
import EvmExporter.Exporter.BatchSize
import EvmExporter.Exporter.CallErrors
import EvmExporter.Exporter.ContractValues
import EvmExporter.Exporter.DirectReads
import EvmExporter.Exporter.Duration
import EvmExporter.Exporter.Events
import EvmExporter.Exporter.FiniteGauges
import EvmExporter.Exporter.Freshness
import EvmExporter.Exporter.HashOrder
import EvmExporter.Exporter.History
import EvmExporter.Exporter.Isolation
import EvmExporter.Exporter.Lifecycle
import EvmExporter.Exporter.Reasons
import EvmExporter.Exporter.Requests
import EvmExporter.Exporter.Runs
import EvmExporter.Exporter.SharedCalls
import EvmExporter.Exporter.Shutdown
import EvmExporter.Exporter.Startup
import EvmExporter.Exporter.Warnings
import EvmExporter.Laws
import EvmExporter.Lib.Future
import EvmExporter.Lib.Hex
import EvmExporter.Lib.Interning
import EvmExporter.Lib.Machine
import EvmExporter.Lib.OnceLog
import EvmExporter.Lib.Outcome
import EvmExporter.Lib.Radix
import EvmExporter.Lib.Rounding
import EvmExporter.Lib.SortedMap
import EvmExporter.Lib.Store
import EvmExporter.Lib.Template
import EvmExporter.Lib.Utf8
import EvmExporter.Multicall
import EvmExporter.Multicall.Chunks
import EvmExporter.Multicall.Deadline
import EvmExporter.Multicall.Requests
import EvmExporter.Planner
import EvmExporter.Planner.GaugeNames
import EvmExporter.Planner.Handed
import EvmExporter.Planner.Help
import EvmExporter.Planner.Labels
import EvmExporter.Planner.Reorder
import EvmExporter.Planner.Schema
import EvmExporter.Planner.Sites
import EvmExporter.Planner.Success
import EvmExporter.Planner.Totality
import EvmExporter.Planner.Validated
import EvmExporter.Process
import EvmExporter.Process.Exits
import EvmExporter.Reference
import EvmExporter.Reference.Tuples
