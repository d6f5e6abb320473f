import EvmExporter.Config.Acceptable
import EvmExporter.Planner.Schema
import EvmExporter.Reference

/-! Which outputs can be exported. An output without a field selector decodes for all
return values when its declared type is a number or a boolean, and for none when it is
anything else; validation checks the type of selected fields only, so it accepts the output
with any type. -/

namespace EvmExporter

open Lib

variable {d : Deps}

/-- The declared type of an output. -/
def OutputType (d : Deps) (func : AbiFunction) (i : ℕ) (ty : DynSolType) : Prop :=
  ∃ param, func.outputs[i]? = some param ∧ d.resolve param = .ok ty

/-- The function with another declared type for its `i`-th output. -/
def AbiFunction.retype (func : AbiFunction) (i : ℕ) (ty : String) (components : List AbiParam) :
    AbiFunction :=
  { func with outputs := func.outputs.modify i fun p => { p with ty, components } }

section Retype

variable {func : AbiFunction} {i : ℕ} {ty : String} {components : List AbiParam} {o : Output}

@[simp] theorem retype_outputs_length :
    (func.retype i ty components).outputs.length = func.outputs.length :=
  List.length_modify _ _ _

theorem retype_getElem?_ne {j : ℕ} (h : i ≠ j) :
    (func.retype i ty components).outputs[j]? = func.outputs[j]? :=
  List.getElem?_modify_ne _ _ h

/-- A field of another output resolves as before. -/
theorem retype_resolveTupleField (h : i ≠ o.index) (field : String) :
    resolveTupleField (func.retype i ty components) o.index field =
      resolveTupleField func o.index field := by
  unfold resolveTupleField
  rw [retype_getElem?_ne h]
  rfl

theorem Output.Valid.retype (ho : o.Valid d func) (h : o.field ≠ "" → o.index ≠ i) :
    o.Valid d (func.retype i ty components) := by
  refine ⟨ho.index_lt.trans_eq retype_outputs_length.symm, fun hfield => ?_⟩
  obtain ⟨fi, name, component, ty', hfi, hcomponent, hty, hnum⟩ := ho.field_numeric hfield
  have hne : i ≠ o.index := (h hfield).symm
  refine ⟨fi, name, component, ty', ?_, ?_, hty, hnum⟩
  · rw [retype_resolveTupleField hne, hfi]
  · rw [tupleComponent, retype_getElem?_ne hne]
    exact hcomponent

end Retype

end EvmExporter
