import EvmExporter.Laws
import EvmExporter.Planner

/-! Concrete libraries: ASCII text, the static words of the ABI, integer decimals and the
checks of the Prometheus client, and a token contract to read. They satisfy the laws of
the libraries, so what the results assume is consistent, and the model runs on them. -/

namespace EvmExporter.Reference

open Lib

/-! ### Words -/

/-- The last `k` base-256 digits of a number, most significant first. -/
def toBytes : ℕ → ℕ → Bytes
  | 0, _ => []
  | k + 1, n => toBytes k (n / 256) ++ [UInt8.ofNat (n % 256)]

def ofBytes (bs : Bytes) : ℕ := bs.foldl (fun n b => n * 256 + b.toNat) 0

@[simp] theorem toBytes_length (k n : ℕ) : (toBytes k n).length = k := by
  induction k generalizing n with
  | zero => rfl
  | succ k ih => simp [toBytes, ih]

theorem ofBytes_toBytes (k n : ℕ) : ofBytes (toBytes k n) = n % 256 ^ k := by
  induction k generalizing n with
  | zero => simp [toBytes, ofBytes, Nat.mod_one]
  | succ k ih =>
    have hbyte : (UInt8.ofNat (n % 256)).toNat = n % 256 := by simp
    have hi := ih (n / 256)
    simp only [ofBytes] at hi
    rw [ofBytes, toBytes, List.foldl_append, hi, List.foldl_cons, List.foldl_nil, hbyte, pow_succ',
      Nat.mod_mul, Nat.add_comm, Nat.mul_comm]

theorem ofBytes_word (v : U256) : ofBytes (toBytes 32 v.toNat) = v.toNat := by
  rw [ofBytes_toBytes]
  exact Nat.mod_eq_of_lt (v.isLt.trans_eq (by norm_num))

/-- The word of a value, for the static types it knows. -/
def encodeWord : DynSolValue → Option Bytes
  | .bool b => some (toBytes 32 (if b then 1 else 0))
  | .uint v _ => some (toBytes 32 v.toNat)
  | .int v _ => some (toBytes 32 v.toNat)
  | .address a => some (List.replicate 12 0 ++ a.bytes)
  | _ => none

def decodeWord (ty : DynSolType) (word : Bytes) : Option DynSolValue :=
  match ty with
  | .bool => some (.bool (ofBytes word = 1))
  | .uint bits => some (.uint (BitVec.ofNat 256 (ofBytes word)) bits)
  | .int bits => some (.int (BitVec.ofNat 256 (ofBytes word)) bits)
  | .address => if h : (word.drop 12).length = 20 then some (.address ⟨word.drop 12, h⟩) else none
  | _ => none

theorem encodeWord_length {v : DynSolValue} {word : Bytes} (h : encodeWord v = some word) :
    word.length = 32 := by
  cases v <;> simp only [encodeWord, Option.some.injEq, reduceCtorEq] at h
  case address a => simp [← h, a.length_eq]
  all_goals simp [← h]

theorem decodeWord_encodeWord {ty : DynSolType} {v : DynSolValue} {word : Bytes}
    (hv : ty.Matches v) (h : encodeWord v = some word) : decodeWord ty word = some v := by
  cases hv <;> simp only [encodeWord, Option.some.injEq, reduceCtorEq] at h <;> subst h
  case bool b => cases b <;> simp [decodeWord, ofBytes_toBytes]
  case uint v bits => simp [decodeWord, ofBytes_word]
  case int v bits => simp [decodeWord, ofBytes_word]
  case address a => simp [decodeWord, a.length_eq]

def encodeWords (vals : List DynSolValue) : Option Bytes :=
  (vals.mapM encodeWord).map List.flatten

def decodeWords : List DynSolType → Bytes → Option (List DynSolValue)
  | [], _ => some []
  | ty :: tys, data => do
    let v ← decodeWord ty (data.take 32)
    let vs ← decodeWords tys (data.drop 32)
    return v :: vs

/-- The words are read from the front of the data; what follows them is ignored. -/
theorem decodeWords_encodeWords {tys : List DynSolType} {vals : List DynSolValue} {data : Bytes}
    (hv : List.Forall₂ DynSolType.Matches tys vals) (h : encodeWords vals = some data)
    (rest : Bytes) : decodeWords tys (data ++ rest) = some vals := by
  induction hv generalizing data with
  | nil => rfl
  | @cons ty v tys vals hv _ ih =>
    rw [encodeWords, List.mapM_cons] at h
    cases hw : encodeWord v with
    | none => simp [hw] at h
    | some word =>
      cases hws : vals.mapM encodeWord with
      | none => simp [hw, hws] at h
      | some words =>
        obtain rfl : word ++ words.flatten = data := by simpa [hw, hws] using h
        have hlen := encodeWord_length hw
        have hrest : decodeWords tys (words.flatten ++ rest) = some vals :=
          ih (by simp [encodeWords, hws])
        simp [decodeWords, hlen, hrest, decodeWord_encodeWord hv hw]

/-! ### The ABI -/

/-- The types the words cover, and the other ones they are told apart from. -/
def resolve (p : AbiParam) : Except String DynSolType :=
  match p.ty with
  | "bool" => .ok .bool
  | "address" => .ok .address
  | "uint8" => .ok (.uint 8)
  | "uint256" => .ok (.uint 256)
  | "int256" => .ok (.int 256)
  | "string" => .ok .string
  | "bytes" => .ok .bytes
  | ty => .error s!"unknown type {ty}"

/-- The first four bytes of the Keccak hash of a signature. -/
def selector (func : AbiFunction) : Bytes :=
  match func.name with
  | "balanceOf" => [0x70, 0xa0, 0x82, 0x31]
  | "decimals" => [0x31, 0x3c, 0xe5, 0x67]
  | "owner" => [0x8d, 0xa5, 0xcb, 0x5b]
  | "totalSupply" => [0x18, 0x16, 0x0d, 0xdd]
  | _ => [0, 0, 0, 0]

/-- Calldata; a value that is not a static word adds nothing to it. -/
def abiEncodeInput (func : AbiFunction) (vals : List DynSolValue) : Except String Bytes :=
  if vals.length ≠ func.inputs.length then .error "encode length mismatch"
  else .ok (selector func ++ (vals.filterMap encodeWord).flatten)

def abiEncodeOutput (_ : AbiFunction) (vals : List DynSolValue) : Except String Bytes :=
  match encodeWords vals with
  | some data => .ok data
  | none => .error "not a static value"

def abiDecodeOutput (func : AbiFunction) (data : Bytes) : Except String (List DynSolValue) := do
  let tys ← func.outputs.mapM resolve
  match decodeWords tys data with
  | some vals => .ok vals
  | none => .error "type check failed"

def hexDigit (c : Char) : Option ℕ :=
  if c.isDigit then some (c.toNat - '0'.toNat)
  else if 'a' ≤ c ∧ c ≤ 'f' then some (c.toNat - 'a'.toNat + 10)
  else if 'A' ≤ c ∧ c ≤ 'F' then some (c.toNat - 'A'.toNat + 10)
  else none

/-- The bytes of a text of hexadecimal digits, two for each byte. -/
def hexBytes : List Char → Option Bytes
  | [] => some []
  | [_] => none
  | c :: c' :: cs => do
    let hi ← hexDigit c
    let lo ← hexDigit c'
    let bs ← hexBytes cs
    return UInt8.ofNat (16 * hi + lo) :: bs

def parseAddress (s : String) : Except String Address :=
  match hexBytes (strip0x s).toList with
  | some bs => if h : bs.length = 20 then .ok ⟨bs, h⟩ else .error "invalid string length"
  | none => .error "invalid character"

/-- The number a text denotes in a radix; underscores are skipped. -/
def natOfText (radix : ℕ) : ℕ → List Char → Option ℕ
  | n, [] => some n
  | n, c :: cs =>
    if c = '_' then natOfText radix n cs
    else
      match hexDigit c with
      | some v => if v < radix then natOfText radix (n * radix + v) cs else none
      | none => none

def u256FromStrRadix (s : String) (radix : ℕ) : Except String U256 :=
  match natOfText radix 0 s.toList with
  | some n => if n < 2 ^ 256 then .ok (BitVec.ofNat 256 n) else .error "number too large"
  | none => .error "invalid digit"

def i256FromStr (s : String) : Except String I256 :=
  match s.toList with
  | '-' :: cs =>
    match natOfText 10 0 cs with
    | some n => if n ≤ 2 ^ 255 then .ok (BitVec.ofInt 256 (-n)) else .error "number too large"
    | none => .error "invalid digit"
  | cs =>
    match natOfText 10 0 cs with
    | some n => if n < 2 ^ 255 then .ok (BitVec.ofNat 256 n) else .error "number too large"
    | none => .error "invalid digit"

/-! ### Decimals -/

def decimalOfInt (i : ℤ) : Option Decimal :=
  if h : i.natAbs < 2 ^ 96 then some ⟨i, 0, h, by omega⟩ else none

def decimalFromStr (s : String) : Option Decimal :=
  match s.toList with
  | '-' :: cs => (natOfText 10 0 cs).bind fun n => decimalOfInt (-n)
  | cs => (natOfText 10 0 cs).bind fun n => decimalOfInt n

def decimalFromF64 : F64 → Option Decimal
  | .finite q => if q.den = 1 then decimalOfInt q.num else none
  | _ => none

def checkedDiv (x y : Decimal) : Option Decimal :=
  if y.mantissa = 0 ∨ x.mantissa % y.mantissa ≠ 0 then none
  else decimalOfInt (x.mantissa / y.mantissa)

def f64FromStr (s : String) : Option F64 :=
  (natOfText 10 0 s.toList).map F64.ofNat

def f64Div : F64 → F64 → F64
  | .finite x, .finite y => if y = 0 then .nan else .finite (x / y)
  | _, _ => .nan

/-! ### The Prometheus client -/

/-- The names of the constant labels and those of the variable ones are checked apart. -/
def newDesc (desc : Desc) : Except String Unit :=
  if desc.help = "" then .error "empty help string"
  else if ¬ isValidPromName desc.name then .error s!"'{desc.name}' is not a valid metric name"
  else if (desc.constLabels.keys ++ desc.variableLabels).any fun k => ¬ isValidLabelName k then
    .error "not a valid label name"
  else if ¬ desc.variableLabels.Nodup then .error "duplicate variable label name"
  else .ok ()

def register (registry : Registry) (desc : Desc) : Except String Unit :=
  if registry.any fun other => other.name = desc.name then
    .error "Duplicate metrics collector registration attempted"
  else .ok ()

/-! ### A token contract -/

def uint256 (name : String) : AbiParam := ⟨"uint256", name, []⟩

def balanceOf : AbiFunction := ⟨"balanceOf", [⟨"address", "account", []⟩], [uint256 ""], .view⟩

def decimals : AbiFunction := ⟨"decimals", [], [⟨"uint8", "", []⟩], .view⟩

def owner : AbiFunction := ⟨"owner", [], [⟨"address", "", []⟩], .view⟩

def totalSupply : AbiFunction := ⟨"totalSupply", [], [uint256 ""], .view⟩

def tokenAbi : JsonAbi :=
  ⟨⟨[("balanceOf", [balanceOf]), ("decimals", [decimals]), ("owner", [owner]),
    ("totalSupply", [totalSupply])], by decide⟩⟩

/-- The JSON text of one function of the token. -/
def functionJson (f : AbiFunction) : String :=
  let param (p : AbiParam) := s!"\x7b\"name\":\"{p.name}\",\"type\":\"{p.ty}\"\x7d"
  let params (ps : List AbiParam) := ",".intercalate (ps.map param)
  s!"\x7b\"type\":\"function\",\"name\":\"{f.name}\",\"inputs\":[{params f.inputs}]," ++
    s!"\"outputs\":[{params f.outputs}],\"stateMutability\":\"view\"\x7d"

def tokenJson : String :=
  "[" ++ ",".intercalate ([balanceOf, decimals, owner, totalSupply].map functionJson) ++ "]"

def parseAbi (s : String) : Except String JsonAbi :=
  if s = tokenJson then .ok tokenAbi else .error "expected value"

end EvmExporter.Reference

namespace EvmExporter

open Lib

open Reference in
/-- The libraries together. -/
def reference : Deps where
  isUppercase := Char.isUpper
  isLowercase := Char.isLower
  toLowercase c := [c.toLower]
  isUppercase_ascii _ _ := rfl
  isLowercase_ascii _ _ := rfl
  toLowercase_ascii _ _ := rfl
  parseAbi := parseAbi
  resolve := Reference.resolve
  parseAddress := Reference.parseAddress
  abiEncodeInput := abiEncodeInput
  abiEncodeOutput := abiEncodeOutput
  abiDecodeOutput := abiDecodeOutput
  u256FromStrRadix := u256FromStrRadix
  i256FromStr := i256FromStr
  hexDecode s := match hexBytes s.toList with
    | some bs => .ok bs
    | none => .error "invalid character"
  numberToString
    | .posInt n => toString n
    | .negInt i => toString i
    | .float (.finite q) => toString q
    | .float (.inf negative) => if negative then "-.inf" else ".inf"
    | .float .nan => ".nan"
  decimalFromStr := decimalFromStr
  decimalFromF64 := decimalFromF64
  checkedDiv := checkedDiv
  decimalToF64 x := some (.finite x.value)
  f64FromStr := f64FromStr
  f64Div := f64Div
  newDesc := newDesc
  register := register
  str s := s.quote
  value _ := "Value"
  ty _ := "DynSolType"
  dyn _ := "DynSolValue"
  blockTag
    | .latest => "latest"
    | .finalized => "finalized"
    | .safe => "safe"
  readToString _ := .error "No such file or directory (os error 2)"
  hashOrder keys := keys
  hashOrder_perm _ := .refl _

namespace Reference

theorem encodesMatching : reference.EncodesMatching := by
  intro func vals h
  exact ⟨_, if_neg (by simpa using h.length_eq.symm)⟩

theorem prometheus_lawful : reference.toPrometheusLibrary.Lawful := by
  refine ⟨fun desc cause h => ?_, fun registry desc h => if_neg (by simpa using h)⟩
  change newDesc desc = .error cause at h
  by_contra hno
  simp only [not_or, not_not, not_exists, not_and] at hno
  obtain ⟨hhelp, hnodup, hname, hlabels⟩ := hno
  have hany : ((desc.constLabels.keys ++ desc.variableLabels).any
      fun k => ¬ isValidLabelName k) = false := by
    rw [List.any_eq_false]
    exact fun k hk => by simp [hlabels k hk]
  simp only [newDesc, hhelp, hname, hany, (List.nodup_append.mp hnodup).2.1] at h
  cases h

theorem refusesNames : reference.toPrometheusLibrary.RefusesNames := by
  intro desc h
  change newDesc desc = .ok () at h
  by_contra hname
  unfold newDesc at h
  split_ifs at h

/-! ### Plans for the token -/

def tokenAddress : String := "0x00000000000000000000000000000000000000aa"

/-- A configuration that reads one token. -/
def tokenConfig (metrics : List Metric) : Config where
  chain := { rpcUrl := "http://localhost:8545", chainId := 1, blockTag := "finalized" }
  scrape := { maxCallsPerBatch := 500 }
  contracts := [{
    name := "token"
    abiInline := tokenJson
    instances := [{ address := tokenAddress }]
    metrics }]

/-- One metric with one output. -/
def supplyConfig : Config := tokenConfig [{ function := "totalSupply" }]

/-- Validate a configuration and plan it on a fresh registry. -/
def plan (raw : Config) : Except Error (Config × Plan × Registry) := do
  let cfg ← validate reference "." raw
  let planned ← build reference cfg []
  return (cfg, planned)

/-- The configuration is accepted and planned, and its plan passes the test. -/
def check (raw : Config) (test : Config → Plan → Bool) : Bool :=
  match plan raw with
  | .ok (cfg, plan, _) => test cfg plan
  | .error _ => false

theorem of_check (raw : Config) (test : Config → Plan → Bool) (h : check raw test = true) :
    ∃ cfg plan registry, validate reference "." raw = .ok cfg ∧
      build reference cfg [] = .ok (plan, registry) ∧ test cfg plan = true := by
  unfold check at h
  split at h
  next cfg plan registry hplan =>
    obtain ⟨cfg', hv, hplan⟩ := bind_eq_ok.mp hplan
    obtain ⟨planned, hb, hplan⟩ := bind_eq_ok.mp hplan
    obtain ⟨rfl, rfl⟩ := Prod.mk.inj (pure_eq_ok.mp hplan)
    exact ⟨_, _, _, hv, hb, h⟩
  next => cases h

/-- The supply of one token makes one entry. -/
theorem supply_planned : ∃ cfg plan registry, validate reference "." supplyConfig = .ok cfg ∧
    build reference cfg [] = .ok (plan, registry) ∧ cfg.chain.blockTag = "finalized" ∧
    plan.entries.length = 1 := by
  obtain ⟨cfg, plan, registry, hv, hb, h⟩ := of_check supplyConfig
    (fun cfg plan => cfg.chain.blockTag = "finalized" ∧ plan.entries.length = 1)
    (by decide +kernel)
  obtain ⟨htag, hone⟩ := of_decide_eq_true h
  exact ⟨cfg, plan, registry, hv, hb, htag, hone⟩

/-- The configuration is accepted but not planned. -/
def refused (raw : Config) : Bool :=
  match validate reference "." raw with
  | .ok cfg => ! (build reference cfg []).isOk
  | .error _ => false

theorem of_refused (raw : Config) (h : refused raw = true) :
    ∃ cfg, validate reference "." raw = .ok cfg ∧ ∃ e, build reference cfg [] = .error e := by
  unfold refused at h
  split at h
  next cfg hv =>
    refine ⟨cfg, hv, ?_⟩
    cases hb : build reference cfg [] with
    | ok planned => simp [hb, Except.isOk, Except.toBool] at h
    | error e => exact ⟨e, rfl⟩
  next => cases h

end Reference

end EvmExporter
