import EvmExporter.Config.Validate

/-! Documented behaviour of the libraries, for the results that rely on it. -/

namespace EvmExporter

open Lib

/-- Encoding a call fails only on a wrong number of arguments or on a value whose variant or
size is not that of its declared type. -/
def AbiLibrary.EncodesMatching (lib : AbiLibrary) : Prop :=
  ∀ func vals, List.Forall₂ (fun p v => ∃ ty, lib.resolve p = .ok ty ∧ ty.Matches v)
    func.inputs vals → ∃ data, lib.abiEncodeInput func vals = .ok data

/-- The values are return values of the function. -/
def AbiLibrary.ReturnValues (lib : AbiLibrary) (func : AbiFunction) (vals : List DynSolValue) :
    Prop :=
  List.Forall₂ (fun p v => ∃ ty, lib.resolve p = .ok ty ∧ ty.WellTyped v) func.outputs vals

/-- Decoding inverts encoding on well-typed values. -/
def AbiLibrary.DecodeInvertsEncode (lib : AbiLibrary) : Prop :=
  ∀ func vals data, lib.ReturnValues func vals → lib.abiEncodeOutput func vals = .ok data →
    lib.abiDecodeOutput func data = .ok vals

/-- The type text ends with an array suffix, `[]` or `[n]`. -/
def AbiParam.hasArraySuffix (param : AbiParam) : Bool := param.ty.toList.getLast? = some ']'

/-- A parameter with components resolves to the tuple of their types, inside one array for each
array suffix of its type text. -/
def AbiLibrary.ResolvesComponents (lib : AbiLibrary) : Prop :=
  ∀ (param : AbiParam) ty, param.components ≠ [] → lib.resolve param = .ok ty →
    if param.hasArraySuffix then (∃ elem, ty = .array elem) ∨ ∃ elem n, ty = .fixedArray elem n
    else ∃ tys, ty = .tuple tys ∧
      List.Forall₂ (fun c ty => lib.resolve c = .ok ty) param.components tys

/-- If the return types of the function resolve, it has return values that can be encoded. -/
def AbiLibrary.EncodesReturn (lib : AbiLibrary) (func : AbiFunction) : Prop :=
  (∀ p ∈ func.outputs, ∃ ty, lib.resolve p = .ok ty) →
    ∃ vals data, lib.ReturnValues func vals ∧ lib.abiEncodeOutput func vals = .ok data

/-- The name matches `^[a-zA-Z_][a-zA-Z0-9_]*$`. -/
def isValidLabelName (name : String) : Bool :=
  match name.toList with
  | [] => false
  | c :: cs => (c = '_' || c.isAlpha) && cs.all fun c => c = '_' || c.isAlphanum

/-- A descriptor is refused for an empty help text, a repeated label name, or a metric or
label name outside the grammar; a collector is refused only by one of the same name. -/
structure PrometheusLibrary.Lawful (lib : PrometheusLibrary) : Prop where
  newDesc_error : ∀ desc cause, lib.newDesc desc = .error cause →
    desc.help = "" ∨ ¬ (desc.constLabels.keys ++ desc.variableLabels).Nodup ∨
      ¬ isValidPromName desc.name ∨
      ∃ k ∈ desc.constLabels.keys ++ desc.variableLabels, ¬ isValidLabelName k
  register_ok : ∀ (registry : Registry) desc, (∀ other ∈ registry, other.name ≠ desc.name) →
    lib.register registry desc = .ok ()

/-- A descriptor is refused if the name of its metric is outside the grammar. -/
def PrometheusLibrary.RefusesNames (lib : PrometheusLibrary) : Prop :=
  ∀ desc, lib.newDesc desc = .ok () → isValidPromName desc.name

/-- Collectors of other names have no part in whether a registry accepts one. -/
def PrometheusLibrary.IgnoresOtherNames (lib : PrometheusLibrary) : Prop :=
  ∀ (registry : Registry) desc (other : Desc), other.name ≠ desc.name →
    (lib.register (other :: registry) desc = .ok () ↔ lib.register registry desc = .ok ())

end EvmExporter
