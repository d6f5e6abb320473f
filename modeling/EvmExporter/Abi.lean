import EvmExporter.Lib.Hex
import EvmExporter.Lib.SortedMap
import Mathlib.Data.List.Forall2
import Mathlib.Data.Nat.Notation

/-! The ABI vocabulary the exporter borrows from the alloy crates: bytes and
addresses, function signatures of a JSON ABI, resolved types and decoded values. -/

namespace EvmExporter

open Lib

abbrev Bytes := List UInt8

/-- A 256-bit unsigned word. -/
abbrev U256 := BitVec 256

/-- A 256-bit two's complement word. -/
abbrev I256 := BitVec 256

/-- A 20-byte account address. -/
structure Address where
  bytes : Bytes
  length_eq : bytes.length = 20
  deriving DecidableEq

/-- `format!("{addr:#x}")`. -/
def Address.format (a : Address) : String := "0x" ++ hexEncode a.bytes

theorem Address.format_injective : Function.Injective Address.format := by
  intro a b h
  have hl := congrArg String.toList h
  simp only [Address.format, String.toList_append, List.append_cancel_left_eq] at hl
  have hb := hexEncode_injective (String.toList_injective hl)
  cases a; cases b; simpa using hb

/-! ### Signatures -/

inductive StateMutability where
  | pure | view | nonPayable | payable
  deriving DecidableEq

/-- A parameter or return value of a function: its type as written, its name, and the
components when the type is a tuple or an array of tuples. -/
structure AbiParam where
  ty : String
  name : String
  components : List AbiParam

structure AbiFunction where
  name : String
  inputs : List AbiParam
  outputs : List AbiParam
  stateMutability : StateMutability

/-- The functions of a contract, the overloads of one name together. -/
structure JsonAbi where
  functions : SortedMap String (List AbiFunction)

def JsonAbi.function (abi : JsonAbi) (name : String) : Option (List AbiFunction) :=
  abi.functions.get? name

/-! ### Types and values -/

inductive DynSolType where
  | bool
  | int (bits : ℕ)
  | uint (bits : ℕ)
  | fixedBytes (n : ℕ)
  | address
  | function
  | bytes
  | string
  | array (elem : DynSolType)
  | fixedArray (elem : DynSolType) (n : ℕ)
  | tuple (elems : List DynSolType)

inductive DynSolValue where
  | bool (b : Bool)
  | int (v : I256) (bits : ℕ)
  | uint (v : U256) (bits : ℕ)
  | fixedBytes (word : Bytes) (n : ℕ)
  | address (a : Address)
  | function (pointer : Bytes)
  | bytes (b : Bytes)
  | string (s : String)
  | array (elems : List DynSolValue)
  | fixedArray (elems : List DynSolValue)
  | tuple (elems : List DynSolValue)

/-- The variant and the sizes of the value are those of the type. -/
inductive DynSolType.Matches : DynSolType → DynSolValue → Prop where
  | bool (b : Bool) : Matches .bool (.bool b)
  | int (v : I256) (bits : ℕ) : Matches (.int bits) (.int v bits)
  | uint (v : U256) (bits : ℕ) : Matches (.uint bits) (.uint v bits)
  | fixedBytes (word : Bytes) (n : ℕ) : Matches (.fixedBytes n) (.fixedBytes word n)
  | address (a : Address) : Matches .address (.address a)
  | function (pointer : Bytes) : Matches .function (.function pointer)
  | bytes (b : Bytes) : Matches .bytes (.bytes b)
  | string (s : String) : Matches .string (.string s)
  | array {t : DynSolType} {vs : List DynSolValue} (h : ∀ v ∈ vs, Matches t v) :
      Matches (.array t) (.array vs)
  | fixedArray {t : DynSolType} {n : ℕ} {vs : List DynSolValue} (hn : vs.length = n)
      (h : ∀ v ∈ vs, Matches t v) : Matches (.fixedArray t n) (.fixedArray vs)
  | tuple {ts : List DynSolType} {vs : List DynSolValue} (h : List.Forall₂ Matches ts vs) :
      Matches (.tuple ts) (.tuple vs)

/-- Every integer of the value lies in the range of its width. -/
inductive DynSolValue.InRange : DynSolValue → Prop where
  | bool (b : Bool) : InRange (.bool b)
  | int {v : I256} {bits : ℕ} (hlo : -2 ^ (bits - 1) ≤ v.toInt) (hhi : v.toInt < 2 ^ (bits - 1)) :
      InRange (.int v bits)
  | uint {v : U256} {bits : ℕ} (h : v.toNat < 2 ^ bits) : InRange (.uint v bits)
  | fixedBytes (word : Bytes) (n : ℕ) : InRange (.fixedBytes word n)
  | address (a : Address) : InRange (.address a)
  | function (pointer : Bytes) : InRange (.function pointer)
  | bytes (b : Bytes) : InRange (.bytes b)
  | string (s : String) : InRange (.string s)
  | array {vs : List DynSolValue} (h : ∀ v ∈ vs, InRange v) : InRange (.array vs)
  | fixedArray {vs : List DynSolValue} (h : ∀ v ∈ vs, InRange v) : InRange (.fixedArray vs)
  | tuple {vs : List DynSolValue} (h : ∀ v ∈ vs, InRange v) : InRange (.tuple vs)

/-- A value of the type. -/
def DynSolType.WellTyped (t : DynSolType) (v : DynSolValue) : Prop := t.Matches v ∧ v.InRange

end EvmExporter
