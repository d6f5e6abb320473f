import EvmExporter.Abi
import Mathlib.Data.Rat.Defs

/-! The configuration as it is deserialised: `config.rs`, the structures only. -/

namespace EvmExporter

open Lib

/-- An `f64` up to the sign of zero and the payload of a NaN. -/
inductive F64 where
  | finite (q : ℚ)
  | inf (negative : Bool)
  | nan
  deriving DecidableEq

namespace F64

def zero : F64 := .finite 0

def one : F64 := .finite 1

/-- `x as f64` of a machine integer: the nearest 53-bit number, ties to the even one. -/
def ofNat (n : ℕ) : F64 :=
  let unit := 2 ^ (n.log2 - 52)
  let rest := n % unit
  let down := n / unit
  let up := if unit < 2 * rest ∨ (unit = 2 * rest ∧ down % 2 = 1) then down + 1 else down
  .finite ((up * unit : ℕ) : ℚ)

end F64

/-! ### YAML -/

/-- `serde_yaml_ng::Number`: an unsigned, a negative, or a floating-point scalar. -/
inductive Number where
  | posInt (n : ℕ)
  | negInt (i : ℤ)
  | float (x : F64)

/-- `serde_yaml_ng::Value`. -/
inductive Value where
  | null
  | bool (b : Bool)
  | number (n : Number)
  | string (s : String)
  | sequence (elems : List Value)
  | mapping (entries : List (Value × Value))
  | tagged (tag : String) (value : Value)

/-! ### The configuration tree -/

abbrev Labels := SortedMap String String

structure Output where
  index : ℕ := 0
  field : String := ""
  name : String := ""
  scale : F64 := .zero

/-- `scale` if set, else 1. -/
def Output.effectiveScale (o : Output) : F64 := if o.scale = .zero then .one else o.scale

structure Call where
  args : List Value := []
  labels : Labels := ∅

structure Metric where
  name : String := ""
  help : String := ""
  function : String := ""
  args : List Value := []
  outputs : List Output := []
  calls : List Call := []
  labels : Labels := ∅

structure Instance where
  address : String
  labels : Labels := ∅

structure Contract where
  name : String
  metricPrefix : String := ""
  abiPath : String := ""
  abiInline : String := ""
  labels : Labels := ∅
  instances : List Instance := []
  metrics : List Metric := []
  parsedAbi : Option JsonAbi := none

/-- `metric_prefix` if set, else `name`. -/
def Contract.effectiveMetricPrefix (ct : Contract) : String :=
  if ct.metricPrefix.isEmpty then ct.name else ct.metricPrefix

/-- Durations are counted in nanoseconds. -/
structure Chain where
  rpcUrl : String := ""
  chainId : ℕ := 0
  multicall3Address : String := ""
  blockTag : String := ""
  requestTimeout : ℕ := 0

structure Server where
  listenAddress : String := ""
  metricsPath : String := ""
  healthPath : String := ""

structure Scrape where
  interval : ℕ := 0
  timeout : ℕ := 0
  maxCallsPerBatch : ℕ := 0

structure Config where
  chain : Chain := {}
  server : Server := {}
  scrape : Scrape := {}
  labels : Labels := ∅
  contracts : List Contract := []

/-- The name an error message gives a metric. -/
def metricDescriptor (m : Metric) : String :=
  if ¬ m.name.isEmpty then m.name
  else if ¬ m.function.isEmpty then m.function
  else if ¬ m.calls.isEmpty then "calls[...]"
  else "<unnamed>"

end EvmExporter
