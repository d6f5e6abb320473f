import EvmExporter.Config.Abi

/-! Conversion of configured arguments to ABI values: `config/args.rs`. A converted
value has the variant and the sizes of its parameter's type; a conversion that fails
names the argument it failed on. -/

namespace EvmExporter

open Lib

variable (d : Deps)

/-- Drop a leading `0x` or `0X`. -/
def strip0x (s : String) : String :=
  if s.startsWith "0x" ∨ s.startsWith "0X" then String.ofList (s.toList.drop 2) else s

def asBool : Value → Except Error Bool
  | .bool b => .ok b
  | other => .error (.expectedScalar "bool" other)

def asString : Value → Except Error String
  | .string s => .ok s
  | .number n => .ok (d.numberToString n)
  | .bool b => .ok (if b then "true" else "false")
  | other => .error (.expectedScalar "string scalar" other)

def parseAddress (v : Value) : Except Error Address := do
  let s ← asString d v
  (d.toAbiLibrary.parseAddress s).mapError (.invalidAddress s)

def asU256 : Value → Except Error U256
  | .number n =>
    (d.u256FromStrRadix (d.numberToString n) 10).mapError (.invalidUint (d.numberToString n))
  | .string s =>
    let t := trim s
    if t.startsWith "0x" ∨ t.startsWith "0X" then
      (d.u256FromStrRadix (strip0x t) 16).mapError (.invalidHexUint s)
    else
      (d.u256FromStrRadix t 10).mapError (.invalidUint (d.str s))
  | other => .error (.expectedScalar "uint scalar" other)

def asI256 (v : Value) : Except Error I256 := do
  let s ← match v with
    | .number n => .ok (d.numberToString n)
    | .string s => .ok (trim s)
    | other => .error (.expectedScalar "int scalar" other)
  (d.i256FromStr s).mapError (.invalidInt s)

def asBytes (v : Value) : Except Error Bytes := do
  let s ← asString d v
  (d.hexDecode (strip0x (trim s))).mapError (.invalidHexBytes s)

/-- Convert one argument to a value of the type. -/
def convertOne (ty : DynSolType) (v : Value) : Except Error DynSolValue :=
  match ty with
  | .address => do return .address (← parseAddress d v)
  | .bool => do return .bool (← asBool v)
  | .uint bits => do return .uint (← asU256 d v) bits
  | .int bits => do return .int (← asI256 d v) bits
  | .string => do return .string (← asString d v)
  | .bytes => do return .bytes (← asBytes d v)
  | .fixedBytes n => do
    let b ← asBytes d v
    bailIf (b.length ≠ n) (.fixedBytesLength n b.length)
    return .fixedBytes (b ++ List.replicate (32 - n) 0) n
  | other => .error (.unsupportedArg other)

/-- Convert the `i`-th argument for its parameter. -/
def convertArg (a : (AbiParam × Value) × ℕ) : Except Error DynSolValue := do
  let ((param, v), i) := a
  let ty ← (d.resolve param).mapError (.resolveArg i param.ty)
  (convertOne d ty v).mapError (.context (.arg i param.ty))

/-- Convert the arguments of a call to values for the function's inputs. -/
def convertArgs (func : AbiFunction) (args : List Value) : Except Error (List DynSolValue) := do
  bailIf (args.length ≠ func.inputs.length) (.arity func.name func.inputs.length args.length)
  (func.inputs.zip args).zipIdx.mapM (convertArg d)

variable {d}

theorem convertOne_matches {ty : DynSolType} {v : Value} {x : DynSolValue}
    (h : convertOne d ty v = .ok x) : ty.Matches x := by
  cases ty <;> simp only [convertOne, ↓check_bind_eq_ok, bind_eq_ok, pure_eq_ok, reduceCtorEq] at h
  case fixedBytes n =>
    obtain ⟨b, -, -, rfl⟩ := h
    exact .fixedBytes _ n
  all_goals
    obtain ⟨a, -, rfl⟩ := h
    constructor

/-- The variants and sizes of the converted arguments are those of the inputs. -/
theorem convertArgs_matches {func : AbiFunction} {args : List Value} {vals : List DynSolValue}
    (h : convertArgs d func args = .ok vals) :
    List.Forall₂ (fun p v => ∃ ty, d.resolve p = .ok ty ∧ DynSolType.Matches ty v)
      func.inputs vals := by
  simp only [convertArgs, check_bind_eq_ok, bailIf_eq_ok, not_not] at h
  obtain ⟨hlen, h⟩ := h
  have hinputs : func.inputs = (func.inputs.zip args).zipIdx.map (fun a => a.1.1) := by
    rw [← Function.comp_def Prod.fst Prod.fst, ← List.map_map, List.zipIdx_map_fst,
      List.map_fst_zip hlen.ge]
  rw [hinputs, List.forall₂_map_left_iff]
  apply (mapM_eq_ok.mp h).imp
  intro a v ha
  simp only [convertArg, bind_eq_ok, mapError_eq_ok] at ha
  obtain ⟨ty, hty, hv⟩ := ha
  exact ⟨ty, hty, convertOne_matches hv⟩

/-- What may go wrong with one argument: the type of its parameter does not resolve, or
its value does not convert to that type. -/
inductive ArgFailure (d : Deps) (func : AbiFunction) (args : List Value) : Error → Prop where
  | resolve {i : ℕ} {param : AbiParam} {cause : String} (hi : i < args.length)
      (hparam : func.inputs[i]? = some param) (h : d.resolve param = .error cause) :
      ArgFailure d func args (.resolveArg i param.ty cause)
  | convert {i : ℕ} {param : AbiParam} {v : Value} {ty : DynSolType} {cause : Error}
      (hparam : func.inputs[i]? = some param) (hv : args[i]? = some v)
      (hty : d.resolve param = .ok ty) (h : convertOne d ty v = .error cause) :
      ArgFailure d func args (.context (.arg i param.ty) cause)

theorem convertArg_error {func : AbiFunction} {args : List Value} {param : AbiParam} {v : Value}
    {i : ℕ} (hparam : func.inputs[i]? = some param) (hv : args[i]? = some v) :
    Ensures (fun _ => True) (ArgFailure d func args) (convertArg d ((param, v), i)) := by
  have hi : i < args.length := (List.getElem?_eq_some_iff.mp hv).1
  unfold convertArg
  apply Ensures.bind (P := fun _ => True)
  · cases hty : d.resolve param with
    | ok ty => trivial
    | error cause => exact ArgFailure.resolve hi hparam hty
  · intro ty hty _
    cases hconv : convertOne d ty v with
    | ok x => trivial
    | error cause => exact ArgFailure.convert hparam hv (mapError_eq_ok.mp hty) hconv

/-- With as many arguments as inputs, conversion fails only on one of them. -/
theorem convertArgs_error {func : AbiFunction} {args : List Value}
    (hlen : args.length = func.inputs.length) :
    Ensures (fun _ => True) (ArgFailure d func args) (convertArgs d func args) := by
  have harity : bailIf (args.length ≠ func.inputs.length)
      (Error.arity func.name func.inputs.length args.length) = .ok () := by simp [hlen]
  have hone : ∀ a ∈ (func.inputs.zip args).zipIdx,
      Ensures (fun _ => True) (ArgFailure d func args) (convertArg d a) := by
    rintro ⟨⟨param, v⟩, i⟩ ha
    have ⟨hparam, hv⟩ := List.getElem?_zip_eq_some.mp (List.mem_zipIdx_iff_getElem?.mp ha)
    exact convertArg_error hparam hv
  rw [convertArgs, harity]
  exact (ensures_mapM hone).mono (fun _ _ => trivial) (fun _ h => h)

end EvmExporter
