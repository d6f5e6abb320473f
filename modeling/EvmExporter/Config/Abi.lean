import EvmExporter.Deps
import EvmExporter.Lib.Outcome

/-! Look-ups in a contract's ABI: `config/abi.rs`. -/

namespace EvmExporter

open Lib

/-- The first overload of a view or pure function. -/
def resolveFunction (abi : JsonAbi) (name : String) : Except Error AbiFunction :=
  match abi.function name with
  | none => .error (.functionNotFound name)
  | some overloads =>
    match overloads.head? with
    | none => .error (.functionNotFound name)
    | some func =>
      match func.stateMutability with
      | .view | .pure => .ok func
      | other => .error (.notView name other)

/-- The position and the name of a tuple component of an output. -/
def resolveTupleField (func : AbiFunction) (outputIndex : ℕ) (field : String) :
    Except Error (ℕ × String) :=
  match func.outputs[outputIndex]? with
  | none => .error (.outputIndexRange outputIndex)
  | some param =>
    if ¬ param.ty.startsWith "tuple" ∨ param.components.isEmpty then
      .error (.notTuple field outputIndex func.name param.ty)
    else
      match param.components.zipIdx.find? (fun c => c.1.name = field) with
      | some (c, i) => .ok (i, c.name)
      | none =>
        .error (.fieldNotFound field outputIndex func.name (param.components.map AbiParam.name))

/-- The type is exported as a number. -/
def outputScalarIsNumeric : DynSolType → Bool
  | .uint _ | .int _ | .bool => true
  | _ => false

theorem resolveFunction_eq_ok {abi : JsonAbi} {name : String} {func : AbiFunction}
    (h : resolveFunction abi name = .ok func) :
    ∃ overloads, abi.function name = some overloads ∧ overloads.head? = some func := by
  unfold resolveFunction at h
  split at h
  · cases h
  next overloads ho =>
    split at h
    · cases h
    next f hf =>
      split at h <;> cases h
      all_goals exact ⟨overloads, ho, hf⟩

/-- A resolved field is a component of that name, at the returned position. -/
theorem resolveTupleField_eq_ok {func : AbiFunction} {outputIndex i : ℕ} {field name : String}
    (h : resolveTupleField func outputIndex field = .ok (i, name)) :
    name = field ∧ ∃ param component, func.outputs[outputIndex]? = some param ∧
      param.components[i]? = some component ∧ component.name = field := by
  unfold resolveTupleField at h
  split at h
  · cases h
  next param hp =>
    split_ifs at h
    split at h
    next c j hj =>
      obtain ⟨rfl, rfl⟩ := Prod.mk.inj (Except.ok.inj h)
      have hname : c.name = field := by simpa using List.find?_some hj
      have hmem := List.mem_zipIdx_iff_getElem?.mp (List.mem_of_find?_eq_some hj)
      exact ⟨hname, param, c, hp, hmem, hname⟩
    · cases h

end EvmExporter
