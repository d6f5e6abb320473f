import EvmExporter.Reference

/-! When the outputs of one metric get distinct names. A name is the base of the metric and
a suffix that depends on the output alone: the field or the name of the output, in snake
case. A field is not told apart by the output it is selected of, and snake case is lossy, so
selected outputs clash in three ways. -/

namespace EvmExporter

open Lib

variable {d : Deps}

/-- The suffix of a selected output without a name of its own; none for the whole of a single
return value. -/
def outputSuffix (d : Deps) (func : AbiFunction) (o : Output) : Option String :=
  if o.field ≠ "" then some (camelToSnake d o.field)
  else if func.outputs.length = 1 then none
  else (func.outputs[o.index]?).map fun out =>
    if out.name ≠ "" then camelToSnake d out.name else toString o.index

/-- A base with its suffix. -/
def suffixed (base : String) : Option String → String
  | none => base
  | some suffix => s!"{base}_{suffix}"

theorem suffixed_injective (base : String) : Function.Injective (suffixed base) := by
  intro s s' h
  have hl := congrArg String.toList h
  cases s <;> cases s' <;> simp [suffixed, toString] at hl
  · rfl
  · exact congrArg some (String.toList_injective hl)

/-- The name of a valid output that sets none of its own. -/
theorem outputMetricName_eq {base : String} {func : AbiFunction} {o : Output} (ho : o.Valid d func)
    (hname : o.name = "") :
    outputMetricName d base func o = .ok (suffixed base (outputSuffix d func o)) := by
  obtain ⟨out, hout⟩ : ∃ out, func.outputs[o.index]? = some out :=
    ⟨_, List.getElem?_eq_getElem ho.index_lt⟩
  unfold outputMetricName outputSuffix
  rw [hout]
  by_cases hfield : o.field = ""
  · by_cases hone : func.outputs.length = 1
    · simp [hfield, hname, hone, suffixed]
    · by_cases hn : out.name = ""
      · simp [hfield, hname, hone, hn, suffixed, toString]
      · simp [hfield, hname, hone, hn, suffixed]
  · obtain ⟨fi, fname, -, -, hfi, -⟩ := ho.field_numeric hfield
    obtain ⟨rfl, -⟩ := resolveTupleField_eq_ok hfi
    simp [hfield, hname, hfi, suffixed, bind, Except.bind, pure, Except.pure]

/-- The names of a metric are its base with the suffixes of its outputs. -/
theorem inferMetricNames_eq {m : Metric} {func : AbiFunction}
    (hvalid : ∀ o ∈ selectedOutputs m.outputs func, o.Valid d func)
    (hname : ∀ o ∈ selectedOutputs m.outputs func, o.name = "") :
    inferMetricNames d m func = .ok (((selectedOutputs m.outputs func).map
      (outputSuffix d func)).map (suffixed (metricBase d m func))) := by
  unfold inferMetricNames
  split_ifs with h
  · have hsel : selectedOutputs m.outputs func = [{ index := 0 }] := by
      simp [selectedOutputs, h.1, h.2]
    simp [hsel, outputSuffix, h.2, suffixed]
  · rw [List.map_map]
    exact mapM_eq_ok_map fun o ho => outputMetricName_eq (hvalid o ho) (hname o ho)

/-! ### Clashes -/

/-- The ways in which two selected outputs meet on one name: their fields agree in snake case;
or, where the function has several outputs, their own names do, or the field of one and the
name of the other. -/
inductive Clash (d : Deps) (func : AbiFunction) (o o' : Output) : Prop where
  | fields (hfield : o.field ≠ "") (hfield' : o'.field ≠ "")
      (h : camelToSnake d o.field = camelToSnake d o'.field) : Clash d func o o'
  | wholes {out out' : AbiParam} (hmany : func.outputs.length ≠ 1) (hfield : o.field = "")
      (hfield' : o'.field = "") (hout : func.outputs[o.index]? = some out)
      (hout' : func.outputs[o'.index]? = some out') (hne : out.name ≠ out'.name)
      (h : camelToSnake d out.name = camelToSnake d out'.name) : Clash d func o o'
  | fieldWhole {out' : AbiParam} (hmany : func.outputs.length ≠ 1) (hfield : o.field ≠ "")
      (hfield' : o'.field = "") (hout' : func.outputs[o'.index]? = some out')
      (h : camelToSnake d o.field = camelToSnake d out'.name) : Clash d func o o'

/-- The outputs of the function have names, and no two the same. -/
structure AbiFunction.NamesOutputs (func : AbiFunction) : Prop where
  name_ne : ∀ out ∈ func.outputs, out.name ≠ ""
  names_nodup : (func.outputs.map AbiParam.name).Nodup

theorem outputSuffix_field {func : AbiFunction} {o : Output} (h : o.field ≠ "") :
    outputSuffix d func o = some (camelToSnake d o.field) := if_pos h

/-- The whole of one of several outputs is told by its name. -/
theorem outputSuffix_whole {func : AbiFunction} (hfunc : func.NamesOutputs) {o : Output}
    (h : o.field = "") (hmany : func.outputs.length ≠ 1) {out : AbiParam}
    (hout : func.outputs[o.index]? = some out) :
    outputSuffix d func o = some (camelToSnake d out.name) := by
  simp [outputSuffix, h, hmany, hout, hfunc.name_ne out (List.mem_of_getElem? hout)]

theorem outputSuffix_single {func : AbiFunction} {o : Output} (h : o.field = "")
    (hone : func.outputs.length = 1) : outputSuffix d func o = none := by
  simp [outputSuffix, h, hone]

/-- Different return values have different names. -/
theorem AbiFunction.NamesOutputs.index_eq {func : AbiFunction} (hfunc : func.NamesOutputs)
    {i j : ℕ} {out out' : AbiParam} (hi : func.outputs[i]? = some out)
    (hj : func.outputs[j]? = some out') (h : out.name = out'.name) : i = j := by
  have hlt := (List.getElem?_eq_some_iff.mp hi).1
  refine (List.getElem?_inj (by simpa using hlt) hfunc.names_nodup).mp ?_
  rw [List.getElem?_map, List.getElem?_map, hi, hj, Option.map_some, Option.map_some, h]

/-- Different selections get one suffix exactly when they clash. -/
theorem outputSuffix_eq_iff {func : AbiFunction} (hfunc : func.NamesOutputs) {o o' : Output}
    (ho : o.index < func.outputs.length) (ho' : o'.index < func.outputs.length)
    (hne : (o.index, o.field) ≠ (o'.index, o'.field)) :
    outputSuffix d func o = outputSuffix d func o' ↔ Clash d func o o' ∨ Clash d func o' o := by
  have hout := List.getElem?_eq_getElem ho
  have hout' := List.getElem?_eq_getElem ho'
  constructor
  · intro h
    by_cases hfield : o.field = "" <;> by_cases hfield' : o'.field = ""
    · by_cases hmany : func.outputs.length = 1
      · -- the only return value is selected once
        have hindex : o.index = o'.index := by omega
        exact absurd (by rw [hindex, hfield, hfield']) hne
      · rw [outputSuffix_whole hfunc hfield hmany hout,
          outputSuffix_whole hfunc hfield' hmany hout', Option.some.injEq] at h
        refine .inl (.wholes hmany hfield hfield' hout hout' (fun hname => hne ?_) h)
        rw [hfunc.index_eq hout hout' hname, hfield, hfield']
    · rw [outputSuffix_field hfield'] at h
      by_cases hmany : func.outputs.length = 1
      · rw [outputSuffix_single hfield hmany] at h
        cases h
      · rw [outputSuffix_whole hfunc hfield hmany hout, Option.some.injEq] at h
        exact .inr (.fieldWhole hmany hfield' hfield hout h.symm)
    · rw [outputSuffix_field hfield] at h
      by_cases hmany : func.outputs.length = 1
      · rw [outputSuffix_single hfield' hmany] at h
        cases h
      · rw [outputSuffix_whole hfunc hfield' hmany hout', Option.some.injEq] at h
        exact .inl (.fieldWhole hmany hfield hfield' hout' h)
    · rw [outputSuffix_field hfield, outputSuffix_field hfield', Option.some.injEq] at h
      exact .inl (.fields hfield hfield' h)
  · have hclash : ∀ {o o' : Output}, Clash d func o o' →
        outputSuffix d func o = outputSuffix d func o' := by
      intro o o' h
      cases h with
      | fields hfield hfield' h => rw [outputSuffix_field hfield, outputSuffix_field hfield', h]
      | wholes hmany hfield hfield' hout hout' hne h =>
        rw [outputSuffix_whole hfunc hfield hmany hout,
          outputSuffix_whole hfunc hfield' hmany hout', h]
      | fieldWhole hmany hfield hfield' hout' h =>
        rw [outputSuffix_field hfield, outputSuffix_whole hfunc hfield' hmany hout', h]
    rintro (h | h)
    · exact hclash h
    · exact (hclash h).symm

/-- The outputs a metric selects are in range, and no selection is made twice. -/
theorem selectedOutputs_distinct {func : AbiFunction} {outputs : List Output}
    (h : validateOutputs d func outputs = .ok ()) :
    (∀ o ∈ selectedOutputs outputs func, o.Valid d func) ∧
      ((selectedOutputs outputs func).map fun o => (o.index, o.field)).Nodup := by
  obtain ⟨hvalid, hnodup⟩ := validateOutputs_eq_ok h
  constructor
  · intro o ho
    rcases mem_selectedOutputs ho with ho | ⟨i, hi, rfl⟩
    · exact hvalid o ho
    · exact ⟨hi, fun hfield => absurd rfl hfield⟩
  · unfold selectedOutputs
    split_ifs
    · rw [List.map_map]
      exact List.nodup_range.map fun i j hij => (Prod.mk.inj hij).1
    · exact hnodup

/-- For a function with distinct output names, outputs that validation accepts and that have no
names of their own get pairwise distinct metric names exactly when no two of them clash. -/
theorem names_nodup_iff {m : Metric} {func : AbiFunction} (hfunc : func.NamesOutputs)
    (hvalid : validateOutputs d func m.outputs = .ok ()) (hname : ∀ o ∈ m.outputs, o.name = "") :
    ∃ names, inferMetricNames d m func = .ok names ∧
      (names.Nodup ↔ ∀ o ∈ selectedOutputs m.outputs func, ∀ o' ∈ selectedOutputs m.outputs func,
        (o.index, o.field) ≠ (o'.index, o'.field) → ¬ Clash d func o o') := by
  obtain ⟨hsel, hnodup⟩ := selectedOutputs_distinct hvalid
  have hunnamed : ∀ o ∈ selectedOutputs m.outputs func, o.name = "" := by
    intro o ho
    rcases mem_selectedOutputs ho with ho | ⟨i, hi, rfl⟩
    · exact hname o ho
    · rfl
  refine ⟨_, inferMetricNames_eq hsel hunnamed, ?_⟩
  rw [List.nodup_map_iff (suffixed_injective _), List.nodup_map_iff_inj_on hnodup.of_map]
  constructor
  · intro h o ho o' ho' hne hclash
    have hsuffix := (outputSuffix_eq_iff hfunc (hsel o ho).index_lt (hsel o' ho').index_lt hne).mpr
      (.inl hclash)
    exact hne (by rw [h o ho o' ho' hsuffix])
  · intro h o ho o' ho' hsuffix
    apply List.inj_on_of_nodup_map hnodup ho ho'
    by_contra hne
    rcases (outputSuffix_eq_iff hfunc (hsel o ho).index_lt (hsel o' ho').index_lt hne).mp hsuffix
      with hclash | hclash
    · exact h o ho o' ho' hne hclash
    · exact h o' ho' o ho (Ne.symm hne) hclash

/-- Two positions, each a tuple with an amount. -/
def positions : AbiFunction :=
  let position (name : String) : AbiParam := ⟨"tuple", name, [Reference.uint256 "amount"]⟩
  ⟨"positions", [], [position "long", position "short"], .view⟩

/-- The amounts of both positions. -/
def amounts : Metric where
  function := "positions"
  outputs := [{ index := 0, field := "amount" }, { index := 1, field := "amount" }]

/-- The amounts are distinct outputs of distinct names, and land on one metric name. -/
theorem amounts_share_name :
    (∀ p ∈ positions.outputs, p.name ≠ "" ∧ (p.components.map AbiParam.name).Nodup) ∧
      (positions.outputs.map AbiParam.name).Nodup ∧
      validateOutputs reference positions amounts.outputs = .ok () ∧
      (∀ o ∈ amounts.outputs, o.name = "") ∧
      ∃ names, inferMetricNames reference amounts positions = .ok names ∧ ¬ names.Nodup := by
  have hvalid : (validateOutputs reference positions amounts.outputs).toOption = some () := by
    decide +kernel
  have hnames : (inferMetricNames reference amounts positions).toOption =
      some ["positions_amount", "positions_amount"] := by decide +kernel
  exact ⟨by decide, by decide, toOption_eq_some.mp hvalid, by decide, _,
    toOption_eq_some.mp hnames, by decide⟩

/-- The amount of the first position and the second one as a whole. -/
def amountAndShort : Metric where
  function := "positions"
  outputs := [{ index := 0, field := "amount" }, { index := 1 }]

theorem amount_and_short_distinct :
    positions.NamesOutputs ∧ ∃ names,
      inferMetricNames reference amountAndShort positions = .ok names ∧ names.Nodup := by
  have hfunc : positions.NamesOutputs := ⟨by decide, by decide⟩
  have hvalid : (validateOutputs reference positions amountAndShort.outputs).toOption = some () := by
    decide +kernel
  obtain ⟨names, hnames, hiff⟩ := names_nodup_iff (m := amountAndShort) hfunc
    (toOption_eq_some.mp hvalid) (by decide)
  refine ⟨hfunc, names, hnames, hiff.mpr ?_⟩
  have hsel : selectedOutputs amountAndShort.outputs positions =
      [{ index := 0, field := "amount" }, { index := 1 }] := rfl
  rw [hsel]
  intro o ho o' ho' hne hclash
  simp only [List.mem_cons, List.not_mem_nil, or_false] at ho ho'
  rcases ho with rfl | rfl <;> rcases ho' with rfl | rfl
  · exact hne rfl
  · cases hclash with
    | fields hfield hfield' h => exact hfield' rfl
    | wholes hmany hfield hfield' hout hout' hname h => exact absurd hfield (by decide)
    | fieldWhole hmany hfield hfield' hout' h =>
      obtain rfl := Option.some.inj hout'
      exact absurd h (by decide +kernel)
  · cases hclash with
    | fields hfield hfield' h => exact hfield rfl
    | wholes hmany hfield hfield' hout hout' hname h => exact absurd hfield' (by decide)
    | fieldWhole hmany hfield hfield' hout' h => exact hfield rfl
  · exact hne rfl

end EvmExporter
