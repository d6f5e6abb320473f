import EvmExporter.Error

/-! What the exporter calls and does not define: Unicode tables, the file system, the
alloy ABI and number parsers, `rust_decimal`, hash iteration order and the Prometheus
library. Every definition of the model takes them as the parameter `d : Deps`, so a
result holds for any libraries; what a result needs of one is a hypothesis that names
its documented behaviour. Laws of the standard library are fields. -/

namespace EvmExporter

/-- The case tables of `char`, fixed on ASCII. -/
structure UnicodeTables where
  isUppercase : Char → Bool
  isLowercase : Char → Bool
  toLowercase : Char → List Char
  isUppercase_ascii : ∀ c, c.toNat < 128 → isUppercase c = c.isUpper
  isLowercase_ascii : ∀ c, c.toNat < 128 → isLowercase c = c.isLower
  toLowercase_ascii : ∀ c, c.toNat < 128 → toLowercase c = [c.toLower]

/-- The JSON ABI parser, the type resolver and the ABI coder of alloy. -/
structure AbiLibrary where
  parseAbi : String → Except String JsonAbi
  resolve : AbiParam → Except String DynSolType
  parseAddress : String → Except String Address
  abiEncodeInput : AbiFunction → List DynSolValue → Except String Bytes
  abiEncodeOutput : AbiFunction → List DynSolValue → Except String Bytes
  abiDecodeOutput : AbiFunction → Bytes → Except String (List DynSolValue)

/-- The scalar parsers and printers behind argument conversion. -/
structure NumberLibrary where
  u256FromStrRadix : String → ℕ → Except String U256
  i256FromStr : String → Except String I256
  hexDecode : String → Except String Bytes
  numberToString : Number → String

/-- A `rust_decimal` number: a signed 96-bit mantissa and at most 28 decimal places. -/
structure Decimal where
  mantissa : ℤ
  scale : ℕ
  mantissa_lt : mantissa.natAbs < 2 ^ 96
  scale_le : scale ≤ 28

/-- The number a decimal denotes; decimals are compared by it. -/
def Decimal.value (x : Decimal) : ℚ := x.mantissa / 10 ^ x.scale

/-- `rust_decimal` and the `f64` operations of the decoder. -/
structure FloatLibrary where
  decimalFromStr : String → Option Decimal
  decimalFromF64 : F64 → Option Decimal
  checkedDiv : Decimal → Decimal → Option Decimal
  decimalToF64 : Decimal → Option F64
  f64FromStr : String → Option F64
  f64Div : F64 → F64 → F64

/-- The descriptor of a collector. -/
structure Desc where
  name : String
  help : String
  constLabels : Labels
  variableLabels : List String

/-- What a Prometheus registry holds. -/
abbrev Registry := List Desc

/-- The checks of the Prometheus library: of a descriptor when its collector is made,
and of a collector against the registry it is added to. -/
structure PrometheusLibrary where
  newDesc : Desc → Except String Unit
  register : Registry → Desc → Except String Unit

/-- The libraries and the environment of the exporter. -/
structure Deps extends UnicodeTables, AbiLibrary, NumberLibrary, FloatLibrary,
    PrometheusLibrary, DebugText where
  readToString : String → Except String String
  /-- The order in which a `HashMap` with these keys is iterated. -/
  hashOrder : List String → List String
  hashOrder_perm : ∀ keys, (hashOrder keys).Perm keys

/-- Leading and trailing `White_Space` characters are dropped by `str::trim`. -/
def isWhitespace (c : Char) : Bool :=
  (9 ≤ c.toNat && c.toNat ≤ 13) || c.toNat == 0x20 || c.toNat == 0x85 || c.toNat == 0xA0 ||
    c.toNat == 0x1680 || (0x2000 ≤ c.toNat && c.toNat ≤ 0x200A) || c.toNat == 0x2028 ||
    c.toNat == 0x2029 || c.toNat == 0x202F || c.toNat == 0x205F || c.toNat == 0x3000

/-- `str::trim`. -/
def trim (s : String) : String :=
  String.ofList (((s.toList.dropWhile isWhitespace).reverse.dropWhile isWhitespace).reverse)

end EvmExporter
