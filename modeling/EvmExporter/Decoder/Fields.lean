import EvmExporter.Decoder.Exportable
import EvmExporter.Reference.Tuples

/-! Fields of tuple outputs. The resolver accepts a field of every output whose type text
starts with `tuple`, an array of tuples among them; the decoder wants the value of the
output to be a tuple. They agree exactly when the type text has no array suffix. -/

namespace EvmExporter

open Lib

variable {d : Deps}

/-- What the decoder is told about the `fi`-th component of the `i`-th output. -/
def fieldTarget (func : AbiFunction) (i fi : ℕ) (scale : F64) : DecodeTarget :=
  ⟨func, i, some fi, scale⟩

/-- Every encoding of return values decodes for the component, to its converted value. -/
def FieldDecodes (d : Deps) (func : AbiFunction) (i fi : ℕ) (scale : F64) : Prop :=
  ∀ vals data, d.ReturnValues func vals → d.abiEncodeOutput func vals = .ok data →
    ∃ (fields : List DynSolValue) (v : DynSolValue) (r : F64 × Bool),
      vals[i]? = some (.tuple fields) ∧ fields[fi]? = some v ∧
      convertToF64 d v (if scale = .zero then .one else scale) = .ok r ∧
      decode d data (fieldTarget func i fi scale) = .ok r

/-- The value of an output with components is a tuple with a value for each of them. -/
theorem tuple_of_components (hresolve : d.ResolvesComponents) {param component : AbiParam}
    {ty : DynSolType} {v : DynSolValue} {fi : ℕ} (hsuffix : ¬ param.hasArraySuffix)
    (hcomponent : param.components[fi]? = some component) (hty : d.resolve param = .ok ty)
    (hv : ty.Matches v) : ∃ fields field fty, v = .tuple fields ∧ fields[fi]? = some field ∧
      d.resolve component = .ok fty ∧ fty.Matches field := by
  have hne : param.components ≠ [] := by
    rintro hnil
    simp [hnil] at hcomponent
  have hres := hresolve param ty hne hty
  rw [if_neg hsuffix] at hres
  obtain ⟨tys, rfl, htys⟩ := hres
  cases hv with
  | tuple hfields =>
    obtain ⟨fty, hget, hfty⟩ := forall₂_getElem? htys hcomponent
    obtain ⟨field, hfield, hmatches⟩ := forall₂_getElem? hfields hget
    exact ⟨_, field, fty, rfl, hfield, hfty, hmatches⟩

/-- The value of an output with an array suffix is no tuple. -/
theorem not_tuple_of_suffix (hresolve : d.ResolvesComponents) {param : AbiParam} {ty : DynSolType}
    {v : DynSolValue} (hne : param.components ≠ []) (hsuffix : param.hasArraySuffix)
    (hty : d.resolve param = .ok ty) (hv : ty.Matches v) : ∀ fields, v ≠ .tuple fields := by
  have hres := hresolve param ty hne hty
  rw [if_pos hsuffix] at hres
  rcases hres with ⟨elem, rfl⟩ | ⟨elem, n, rfl⟩ <;> cases hv <;> simp

/-- The component a field selector names: its output, its position and its numeric type. -/
structure SelectsComponent (d : Deps) (func : AbiFunction) (o : Output) (fi : ℕ)
    (param component : AbiParam) (ty : DynSolType) : Prop where
  found : resolveTupleField func o.index o.field = .ok (fi, o.field)
  param_eq : func.outputs[o.index]? = some param
  component_eq : param.components[fi]? = some component
  name_eq : component.name = o.field
  resolves : d.resolve component = .ok ty
  numeric : outputScalarIsNumeric ty

theorem Output.Valid.selectsComponent {func : AbiFunction} {o : Output} (ho : o.Valid d func)
    (hfield : o.field ≠ "") : ∃ fi param component ty,
      SelectsComponent d func o fi param component ty := by
  obtain ⟨fi, name, component, ty, hfi, hcomponent, hty, hnum⟩ := ho.field_numeric hfield
  obtain ⟨rfl, param, component', hparam, hget, hname⟩ := resolveTupleField_eq_ok hfi
  obtain rfl : component' = component := by
    simpa [tupleComponent, hparam, hget] using hcomponent
  exact ⟨fi, param, component', ty, hfi, hparam, hget, hname, hty, hnum⟩

section Component

variable {func : AbiFunction} {o : Output} {fi : ℕ} {param component : AbiParam} {ty : DynSolType}

theorem SelectsComponent.index_lt (h : SelectsComponent d func o fi param component ty) :
    o.index < func.outputs.length :=
  (List.getElem?_eq_some_iff.mp h.param_eq).1

/-- A component of a plain tuple decodes. -/
theorem fieldDecodes_of_tuple (hcodec : d.DecodeInvertsEncode) (hresolve : d.ResolvesComponents)
    (h : SelectsComponent d func o fi param component ty) (hsuffix : ¬ param.hasArraySuffix)
    (scale : F64) : FieldDecodes d func o.index fi scale := by
  intro vals data hvals henc
  obtain ⟨v, hv, pty, hpty, hwt⟩ := forall₂_getElem? hvals h.param_eq
  have hdec := hcodec func vals data hvals henc
  obtain ⟨fields, field, fty, rfl, hfield, hfty, hmatches⟩ :=
    tuple_of_components hresolve hsuffix h.component_eq hpty hwt.1
  obtain rfl := Except.ok.inj (h.resolves.symm.trans hfty)
  obtain ⟨r, hr⟩ := convertToF64_of_numeric (d := d) h.numeric hmatches
    (if scale = .zero then .one else scale)
  have hselect : selectField (fieldTarget func o.index fi scale) (.tuple fields) = .ok field := by
    simp [selectField, fieldTarget, hfield]
  have hrun : decode d data (fieldTarget func o.index fi scale) =
      convertToF64 d field (if scale = .zero then .one else scale) :=
    decode_of_unpacked hdec h.index_lt hv hselect
  exact ⟨fields, field, r, hv, hfield, hr, hrun.trans hr⟩

/-- A component behind an array suffix never decodes. -/
theorem not_decoded_of_suffix (hcodec : d.DecodeInvertsEncode) (hresolve : d.ResolvesComponents)
    (h : SelectsComponent d func o fi param component ty) (hsuffix : param.hasArraySuffix)
    (scale : F64) {vals : List DynSolValue} {data : Bytes} (hvals : d.ReturnValues func vals)
    (henc : d.abiEncodeOutput func vals = .ok data) :
    ∃ v, decode d data (fieldTarget func o.index fi scale) =
      .error (.decodedNotTuple o.index func.name v) := by
  obtain ⟨v, hv, pty, hpty, hwt⟩ := forall₂_getElem? hvals h.param_eq
  have hdec := hcodec func vals data hvals henc
  have hne : param.components ≠ [] := by
    rintro hnil
    simpa [hnil] using h.component_eq
  have hshape := not_tuple_of_suffix hresolve hne hsuffix hpty hwt.1
  have hselect : selectField (fieldTarget func o.index fi scale) v =
      .error (.decodedNotTuple o.index func.name v) := by
    cases v <;> first | rfl | exact absurd rfl (hshape _)
  have hrun : decode d data (fieldTarget func o.index fi scale) =
      selectField (fieldTarget func o.index fi scale) v >>= fun v =>
        convertToF64 d v (if scale = .zero then .one else scale) :=
    decode_unpacked hdec h.index_lt hv
  use v
  rw [hrun, hselect]
  rfl

end Component

/-- A field that validation accepts, with the component it resolves to, decodes for all return
values exactly when the type text of its output has no array suffix or some return type
does not resolve; behind an array suffix no return values decode. -/
theorem field_decoding_iff (hcodec : d.DecodeInvertsEncode) (hresolve : d.ResolvesComponents)
    {func : AbiFunction} (hencodes : d.EncodesReturn func) {outputs : List Output} {o : Output}
    (hvalid : validateOutputs d func outputs = .ok ()) (ho : o ∈ outputs) (hfield : o.field ≠ "") :
    ∃ fi param component ty, SelectsComponent d func o fi param component ty ∧
      (∀ scale, FieldDecodes d func o.index fi scale ↔
        ¬ param.hasArraySuffix ∨ ∃ p ∈ func.outputs, ∃ cause, d.resolve p = .error cause) ∧
      (param.hasArraySuffix → ∀ scale vals data, d.ReturnValues func vals →
        d.abiEncodeOutput func vals = .ok data → ∃ v, decode d data
          (fieldTarget func o.index fi scale) = .error (.decodedNotTuple o.index func.name v)) := by
  obtain ⟨fi, param, component, ty, hsel⟩ :=
    ((validateOutputs_eq_ok hvalid).1 o ho).selectsComponent hfield
  refine ⟨fi, param, component, ty, hsel, ?_, fun hsuffix scale vals data =>
    not_decoded_of_suffix hcodec hresolve hsel hsuffix scale⟩
  intro scale
  constructor
  · intro hall
    by_contra hno
    obtain ⟨hsuffix, hres⟩ : param.hasArraySuffix ∧
        ∀ p ∈ func.outputs, ∃ ty, d.resolve p = .ok ty := by
      simp only [not_or, not_not, not_exists, not_and] at hno
      refine ⟨hno.1, fun p hp => ?_⟩
      cases hp' : d.resolve p with
      | ok pty => exact ⟨pty, rfl⟩
      | error cause => exact absurd hp' (hno.2 p hp cause)
    obtain ⟨vals, data, hvals, henc⟩ := hencodes hres
    obtain ⟨-, -, r, -, -, -, hok⟩ := hall vals data hvals henc
    obtain ⟨v, herror⟩ := not_decoded_of_suffix hcodec hresolve hsel hsuffix scale hvals henc
    rw [hok] at herror
    cases herror
  · rintro (hsuffix | ⟨p, hp, cause, hcause⟩)
    · exact fieldDecodes_of_tuple hcodec hresolve hsel hsuffix scale
    · -- a function with an unresolved return type has no well-typed return values
      intro vals data hvals
      obtain ⟨i, hi⟩ := List.mem_iff_getElem?.mp hp
      obtain ⟨v, -, ty', hty', -⟩ := forall₂_getElem? hvals hi
      rw [hcause] at hty'
      cases hty'

/-! ### One position, and a list of them -/

/-- A getter that returns amounts, packed as the given type of tuples. -/
def amountsGetter (ty : String) : AbiFunction :=
  ⟨"positions", [], [⟨ty, "", [Reference.uint256 "amount"]⟩], .view⟩

/-- The amount of the first return value. -/
def amountField : Output := { index := 0, field := "amount" }

/-- One position of amount five. -/
def position : DynSolValue := .tuple [.uint 5 256]

theorem position_wellTyped : (DynSolType.tuple [.uint 256]).WellTyped position :=
  ⟨.tuple (.cons (.uint 5 256) .nil), .tuple (by simpa using .uint (by decide))⟩

/-- The amount of a returned position decodes. -/
theorem position_amount_decodes :
    ∃ fi, resolveTupleField (amountsGetter "tuple") 0 "amount" = .ok (fi, "amount") ∧
      ∀ scale, FieldDecodes Reference.tupleReference (amountsGetter "tuple") 0 fi scale := by
  have hencodes : Reference.tupleReference.EncodesReturn (amountsGetter "tuple") := by
    intro _
    exact ⟨[position], _, .cons ⟨_, rfl, position_wellTyped⟩ .nil, rfl⟩
  have hvalid : validateOutputs Reference.tupleReference (amountsGetter "tuple") [amountField] =
      .ok () := toOption_eq_some.mp (by decide +kernel)
  obtain ⟨fi, param, component, ty, hsel, hiff, -⟩ :=
    field_decoding_iff Reference.tuple_decodeInvertsEncode Reference.tuple_resolvesComponents
      hencodes hvalid List.mem_cons_self (by decide)
  obtain rfl : AbiParam.mk "tuple" "" [Reference.uint256 "amount"] = param :=
    Option.some.inj hsel.param_eq
  exact ⟨fi, hsel.found, fun scale => (hiff scale).mpr (.inl (by decide))⟩

/-- The amount of a returned list of positions is accepted, and never decodes. -/
theorem positions_amount_undecoded :
    ∃ vals data,
      validateOutputs Reference.tupleReference (amountsGetter "tuple[]") [amountField] = .ok () ∧
      resolveTupleField (amountsGetter "tuple[]") 0 "amount" = .ok (0, "amount") ∧
      Reference.tupleReference.ReturnValues (amountsGetter "tuple[]") vals ∧
      Reference.tupleReference.abiEncodeOutput (amountsGetter "tuple[]") vals = .ok data ∧
      ∀ r, decode Reference.tupleReference data (fieldTarget (amountsGetter "tuple[]") 0 0 .one) ≠
        .ok r := by
  have hvalues : Reference.tupleReference.ReturnValues (amountsGetter "tuple[]")
      [.array [position]] := by
    have hwt : (DynSolType.array (.tuple [.uint 256])).WellTyped (.array [position]) :=
      ⟨.array (by simpa using position_wellTyped.1), .array (by simpa using position_wellTyped.2)⟩
    exact .cons ⟨_, rfl, hwt⟩ .nil
  refine ⟨_, _, toOption_eq_some.mp (by decide +kernel), toOption_eq_some.mp (by decide +kernel),
    hvalues, rfl, ?_⟩
  intro r hr
  have hrun : (decode Reference.tupleReference _
      (fieldTarget (amountsGetter "tuple[]") 0 0 .one)).isOk = true := congrArg Except.isOk hr
  exact absurd hrun (by decide +kernel)

end EvmExporter
