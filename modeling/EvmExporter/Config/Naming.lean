import EvmExporter.Config.Abi

/-! Inference of metric names from function and output names: `config/naming.rs`. -/

namespace EvmExporter

open Lib

variable (d : Deps)

/-- A word boundary in front of `r`: after a lower-case letter or a digit, or where an
acronym ends and a capitalised word starts. -/
def wordBoundary (prev : Option Char) (r : Char) (next : Option Char) : Bool :=
  match prev with
  | none => false
  | some p =>
    d.isUppercase r && ((d.isLowercase p || p.isDigit) ||
      (d.isUppercase p && next.any d.isLowercase))

/-- The snake-case text of the characters that follow `prev`. -/
def snakeFrom (prev : Option Char) : List Char → List Char
  | [] => []
  | r :: rest =>
    (if wordBoundary d prev r rest.head? then ['_'] else []) ++ d.toLowercase r ++
      snakeFrom (some r) rest

def camelToSnake (s : String) : String := String.ofList (snakeFrom d none s.toList)

/-- The outputs a metric selects: those listed, or all outputs of the function. -/
def selectedOutputs (outputs : List Output) (func : AbiFunction) : List Output :=
  if outputs.isEmpty then (List.range func.outputs.length).map (fun i => { index := i })
  else outputs

/-- The name of one selected output. -/
def outputMetricName (base : String) (func : AbiFunction) (o : Output) : Except Error String :=
  match func.outputs[o.index]? with
  | none => .error (.outputIndexRange o.index)
  | some out =>
    if ¬ o.field.isEmpty then do
      let suffix ← if ¬ o.name.isEmpty then pure o.name else do
        let (_, fname) ← resolveTupleField func o.index o.field
        pure (if fname.isEmpty then o.field else fname)
      return s!"{base}_{camelToSnake d suffix}"
    else if ¬ o.name.isEmpty then
      if func.outputs.length = 1 then .ok (camelToSnake d o.name)
      else .ok s!"{base}_{camelToSnake d o.name}"
    else if func.outputs.length = 1 then .ok base
    else if ¬ out.name.isEmpty then .ok s!"{base}_{camelToSnake d out.name}"
    else .ok s!"{base}_{o.index}"

/-- The name all outputs of a metric start with. -/
def metricBase (m : Metric) (func : AbiFunction) : String :=
  if m.name.isEmpty then camelToSnake d func.name else m.name

/-- The metric names a metric resolves to, one for each selected output. -/
def inferMetricNames (m : Metric) (func : AbiFunction) : Except Error (List String) :=
  if m.outputs.isEmpty ∧ func.outputs.length = 1 then .ok [metricBase d m func]
  else (selectedOutputs m.outputs func).mapM (outputMetricName d (metricBase d m func) func)

variable {d}

/-- A selected output is a listed one, or stands for a return value by its position alone. -/
theorem mem_selectedOutputs {outputs : List Output} {func : AbiFunction} {o : Output}
    (h : o ∈ selectedOutputs outputs func) :
    o ∈ outputs ∨ ∃ i < func.outputs.length, o = { index := i } := by
  unfold selectedOutputs at h
  split_ifs at h
  · obtain ⟨i, hi, rfl⟩ := List.mem_map.mp h
    exact .inr ⟨i, List.mem_range.mp hi, rfl⟩
  · exact .inl h

/-- One name is inferred for each selected output. -/
theorem inferMetricNames_length {m : Metric} {func : AbiFunction} {names : List String}
    (h : inferMetricNames d m func = .ok names) :
    names.length = (selectedOutputs m.outputs func).length := by
  unfold inferMetricNames at h
  split_ifs at h with hc
  · obtain rfl := Except.ok.inj h
    simp [selectedOutputs, hc.1, hc.2]
  · exact (mapM_eq_ok.mp h).length_eq.symm

/-- Inference reads the name and the outputs of a metric only. -/
theorem inferMetricNames_congr {m m' : Metric} (hname : m.name = m'.name)
    (houtputs : m.outputs = m'.outputs) (func : AbiFunction) :
    inferMetricNames d m func = inferMetricNames d m' func := by
  simp only [inferMetricNames, metricBase, hname, houtputs]

end EvmExporter
