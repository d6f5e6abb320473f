import EvmExporter.Config.Abi

/-! From a return blob to a gauge value: `decoder.rs`. -/

namespace EvmExporter

open Lib

variable (d : Deps)

/-- Everything the decoder needs to extract one gauge value from a return blob. -/
structure DecodeTarget where
  function : AbiFunction
  outputIndex : ℕ
  fieldIndex : Option ℕ
  scale : F64

/-- The quotient of an integer by the scale, when the decimal format holds both of
them and the scale is not zero there. -/
def decimalQuotient (intStr : String) (scale : F64) : Option Decimal := do
  let v ← d.decimalFromStr intStr
  let s ← d.decimalFromF64 scale
  if s.mantissa = 0 then none else d.checkedDiv v s

/-- Scale an integer; the flag tells that the `f64` may have lost precision. -/
def scaleDecimal (intStr : String) (scale : F64) : F64 × Bool :=
  match decimalQuotient d intStr scale with
  | some q =>
    let f := (d.decimalToF64 q).getD .nan
    (f, (d.decimalFromF64 f).all fun back => back.value ≠ q.value)
  | none => (d.f64Div ((d.f64FromStr intStr).getD .nan) scale, true)

def convertToF64 (v : DynSolValue) (scale : F64) : Except Error (F64 × Bool) :=
  match v with
  | .uint u _ => .ok (scaleDecimal d (toString u.toNat) scale)
  | .int i _ => .ok (scaleDecimal d (toString i.toInt) scale)
  | .bool b => .ok (if b then .one else .zero, false)
  | other => .error (.unsupportedType other)

/-- The output a target selects among the unpacked values. -/
def selectOutput (target : DecodeTarget) (decoded : List DynSolValue) :
    Except Error DynSolValue :=
  match decoded[target.outputIndex]? with
  | some value => .ok value
  | none => .error (.unpackedTooFew decoded.length target.outputIndex)

/-- The output itself, or the field of a tuple output that a target selects. -/
def selectField (target : DecodeTarget) (value : DynSolValue) : Except Error DynSolValue :=
  match target.fieldIndex with
  | none => .ok value
  | some fi =>
    match value with
    | .tuple fields =>
      match fields[fi]? with
      | some field => .ok field
      | none => .error (.tupleFieldRange fi target.function.name)
    | other => .error (.decodedNotTuple target.outputIndex target.function.name other)

/-- The gauge value of a return blob, and whether it may have lost precision. -/
def decode (returnData : Bytes) (target : DecodeTarget) : Except Error (F64 × Bool) := do
  let func := target.function
  bailIf func.outputs.isEmpty (.noOutputs func.name)
  bailIf (func.outputs.length ≤ target.outputIndex)
    (.decodeIndexRange target.outputIndex func.name func.outputs.length)
  let decoded ← (d.abiDecodeOutput func returnData).mapError (.unpack func.name)
  let output ← selectOutput target decoded
  let value ← selectField target output
  convertToF64 d value (if target.scale = .zero then .one else target.scale)

variable {d}

/-- On a blob that unpacks, decoding goes on with the value of the selected output. -/
theorem decode_unpacked {data : Bytes} {target : DecodeTarget} {vals : List DynSolValue}
    {output : DynSolValue} (hdec : d.abiDecodeOutput target.function data = .ok vals)
    (hidx : target.outputIndex < target.function.outputs.length)
    (houtput : vals[target.outputIndex]? = some output) :
    decode d data target = selectField target output >>= fun value =>
      convertToF64 d value (if target.scale = .zero then .one else target.scale) := by
  have hne : target.function.outputs ≠ [] := by
    rintro hnil
    simp [hnil] at hidx
  have hselect : selectOutput target vals = .ok output := by simp [selectOutput, houtput]
  simp [decode, bailIf, hne, not_le.mpr hidx, hdec, hselect, Except.mapError, bind, Except.bind]

/-- On a blob that unpacks, decoding converts the selected value. -/
theorem decode_of_unpacked {data : Bytes} {target : DecodeTarget} {vals : List DynSolValue}
    {output value : DynSolValue} (hdec : d.abiDecodeOutput target.function data = .ok vals)
    (hidx : target.outputIndex < target.function.outputs.length)
    (houtput : vals[target.outputIndex]? = some output)
    (hvalue : selectField target output = .ok value) :
    decode d data target =
      convertToF64 d value (if target.scale = .zero then .one else target.scale) := by
  rw [decode_unpacked hdec hidx houtput, hvalue]
  rfl

/-- Numbers and booleans convert. -/
theorem convertToF64_of_numeric {ty : DynSolType} {v : DynSolValue} (hty : outputScalarIsNumeric ty)
    (hv : ty.Matches v) (scale : F64) : ∃ r, convertToF64 d v scale = .ok r := by
  cases hv <;> first | exact ⟨_, rfl⟩ | simp [outputScalarIsNumeric] at hty

end EvmExporter
