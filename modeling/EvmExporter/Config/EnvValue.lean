import EvmExporter.Config.Env
import EvmExporter.Config.Types

/-! Environment variables in a YAML tree: `expand_env_value` of `config.rs`. It descends into
sequences and into the values of mappings, and takes a tagged value for a scalar. So it
reaches every string that is not below a tag, and no other. -/

namespace EvmExporter

open Lib

mutual

/-- Expand the string leaves of a tree. -/
def expandEnvValue (env : Environment) : Value → Option Value
  | .string s => (expandEnv env s).map .string
  | .sequence elems => (expandEnvElems env elems).map .sequence
  | .mapping entries => (expandEnvEntries env entries).map .mapping
  | v => some v

def expandEnvElems (env : Environment) : List Value → Option (List Value)
  | [] => some []
  | v :: vs => do return (← expandEnvValue env v) :: (← expandEnvElems env vs)

def expandEnvEntries (env : Environment) : List (Value × Value) → Option (List (Value × Value))
  | [] => some []
  | (k, v) :: es => do return (k, ← expandEnvValue env v) :: (← expandEnvEntries env es)

end

/-! ### Leaves -/

namespace Value

mutual

/-- Replace every string leaf, at any depth, and keep the keys, the tags and the rest. -/
def mapStrings (f : String → String) : Value → Value
  | .null => .null
  | .bool b => .bool b
  | .number n => .number n
  | .string s => .string (f s)
  | .sequence elems => .sequence (mapElems f elems)
  | .mapping entries => .mapping (mapEntries f entries)
  | .tagged tag v => .tagged tag (mapStrings f v)

def mapElems (f : String → String) : List Value → List Value
  | [] => []
  | v :: vs => mapStrings f v :: mapElems f vs

def mapEntries (f : String → String) : List (Value × Value) → List (Value × Value)
  | [] => []
  | (k, v) :: es => (k, mapStrings f v) :: mapEntries f es

end

mutual

/-- The string leaves of a tree. -/
def strings : Value → List String
  | .string s => [s]
  | .sequence elems => elemStrings elems
  | .mapping entries => entryStrings entries
  | .tagged _ v => strings v
  | _ => []

def elemStrings : List Value → List String
  | [] => []
  | v :: vs => strings v ++ elemStrings vs

def entryStrings : List (Value × Value) → List String
  | [] => []
  | (_, v) :: es => strings v ++ entryStrings es

end

mutual

/-- The string leaves below a tag. -/
def taggedStrings : Value → List String
  | .sequence elems => elemTaggedStrings elems
  | .mapping entries => entryTaggedStrings entries
  | .tagged _ v => strings v
  | _ => []

def elemTaggedStrings : List Value → List String
  | [] => []
  | v :: vs => taggedStrings v ++ elemTaggedStrings vs

def entryTaggedStrings : List (Value × Value) → List String
  | [] => []
  | (_, v) :: es => taggedStrings v ++ entryTaggedStrings es

end

mutual

/-- A replacement leaves a tree as it is exactly when it leaves every string leaf as it is. -/
theorem mapStrings_eq_self_iff (f : String → String) :
    ∀ v : Value, v.mapStrings f = v ↔ ∀ s ∈ v.strings, f s = s
  | .null => by simp [mapStrings, strings]
  | .bool b => by simp [mapStrings, strings]
  | .number n => by simp [mapStrings, strings]
  | .string s => by simp [mapStrings, strings]
  | .sequence elems => by simp [mapStrings, strings, mapElems_eq_self_iff f elems]
  | .mapping entries => by simp [mapStrings, strings, mapEntries_eq_self_iff f entries]
  | .tagged tag v => by simp [mapStrings, strings, mapStrings_eq_self_iff f v]

theorem mapElems_eq_self_iff (f : String → String) :
    ∀ vs : List Value, mapElems f vs = vs ↔ ∀ s ∈ elemStrings vs, f s = s
  | [] => by simp [mapElems, elemStrings]
  | v :: vs => by
    simp [mapElems, elemStrings, mapStrings_eq_self_iff f v, mapElems_eq_self_iff f vs, or_imp,
      forall_and]

theorem mapEntries_eq_self_iff (f : String → String) :
    ∀ es : List (Value × Value), mapEntries f es = es ↔ ∀ s ∈ entryStrings es, f s = s
  | [] => by simp [mapEntries, entryStrings]
  | (k, v) :: es => by
    simp [mapEntries, entryStrings, mapStrings_eq_self_iff f v, mapEntries_eq_self_iff f es, or_imp,
      forall_and]

end

end Value

/-! ### What the traversal reaches -/

/-- The expansion of a string, which there always is. -/
def expanded (env : Environment) (s : String) : String := (expandEnv env s).getD ""

theorem expandEnv_eq_expanded (env : Environment) (s : String) :
    expandEnv env s = some (expanded env s) := by
  obtain ⟨t, ht⟩ := exists_expandEnv env s
  rw [expanded, ht, Option.getD_some]

mutual

theorem expandEnvValue_eq (env : Environment) : ∀ v : Value, ∃ w, expandEnvValue env v = some w ∧
    (w = v.mapStrings (expanded env) ↔ ∀ s ∈ v.taggedStrings, expanded env s = s)
  | .null => ⟨_, rfl, by simp [Value.mapStrings, Value.taggedStrings]⟩
  | .bool b => ⟨_, rfl, by simp [Value.mapStrings, Value.taggedStrings]⟩
  | .number n => ⟨_, rfl, by simp [Value.mapStrings, Value.taggedStrings]⟩
  | .string s => by
    refine ⟨.string (expanded env s), ?_, by simp [Value.mapStrings, Value.taggedStrings]⟩
    rw [expandEnvValue, expandEnv_eq_expanded, Option.map_some]
  | .sequence elems => by
    obtain ⟨ws, hws, hiff⟩ := expandEnvElems_eq env elems
    refine ⟨.sequence ws, by rw [expandEnvValue, hws, Option.map_some], ?_⟩
    rw [Value.mapStrings, Value.sequence.injEq, hiff, Value.taggedStrings]
  | .mapping entries => by
    obtain ⟨ws, hws, hiff⟩ := expandEnvEntries_eq env entries
    refine ⟨.mapping ws, by rw [expandEnvValue, hws, Option.map_some], ?_⟩
    rw [Value.mapStrings, Value.mapping.injEq, hiff, Value.taggedStrings]
  -- a tagged value is left as it is
  | .tagged tag v => by
    refine ⟨.tagged tag v, rfl, ?_⟩
    rw [Value.mapStrings, Value.tagged.injEq, Value.taggedStrings, eq_comm (a := v)]
    simp [Value.mapStrings_eq_self_iff]

theorem expandEnvElems_eq (env : Environment) : ∀ vs : List Value, ∃ ws,
    expandEnvElems env vs = some ws ∧ (ws = Value.mapElems (expanded env) vs ↔
      ∀ s ∈ Value.elemTaggedStrings vs, expanded env s = s)
  | [] => ⟨[], rfl, by simp [Value.mapElems, Value.elemTaggedStrings]⟩
  | v :: vs => by
    obtain ⟨w, hw, hiff⟩ := expandEnvValue_eq env v
    obtain ⟨ws, hws, hiffs⟩ := expandEnvElems_eq env vs
    refine ⟨w :: ws, by simp [expandEnvElems, hw, hws], ?_⟩
    simp [Value.mapElems, Value.elemTaggedStrings, hiff, hiffs, or_imp, forall_and]

theorem expandEnvEntries_eq (env : Environment) : ∀ es : List (Value × Value), ∃ ws,
    expandEnvEntries env es = some ws ∧ (ws = Value.mapEntries (expanded env) es ↔
      ∀ s ∈ Value.entryTaggedStrings es, expanded env s = s)
  | [] => ⟨[], rfl, by simp [Value.mapEntries, Value.entryTaggedStrings]⟩
  | (k, v) :: es => by
    obtain ⟨w, hw, hiff⟩ := expandEnvValue_eq env v
    obtain ⟨ws, hws, hiffs⟩ := expandEnvEntries_eq env es
    refine ⟨(k, w) :: ws, by simp [expandEnvEntries, hw, hws], ?_⟩
    simp [Value.mapEntries, Value.entryTaggedStrings, hiff, hiffs, or_imp, forall_and]

end

/-- A string with a reference changes where no variable is set. -/
theorem expanded_ne_of_hasReference {s : String} (h : HasReference s) :
    expanded (fun _ => .error .notPresent) s ≠ s := by
  intro heq
  have hexp := expandEnv_eq_some.mp (expandEnv_eq_expanded (fun _ => .error .notPresent) s)
  rw [heq] at hexp
  have hnone : Environment.expansion (fun _ => .error .notPresent) = fun _ => [] := by
    funext n
    rfl
  rw [hnone] at hexp
  exact lt_irrefl _ (hexp.length_lt (hasReference_iff.mp h))

/-- The traversal replaces every string leaf by its expansion, and nothing else, exactly when
expansion leaves the strings below tags as they are; so it does in every environment exactly
when no string below a tag contains a reference. -/
theorem expandEnvValue_iff (v : Value) :
    (∀ env, ∃ w, expandEnvValue env v = some w ∧ (w = v.mapStrings (expanded env) ↔
      ∀ s ∈ v.taggedStrings, expandEnv env s = some s)) ∧
    ((∀ env, expandEnvValue env v = some (v.mapStrings (expanded env))) ↔
      ∀ s ∈ v.taggedStrings, ¬ HasReference s) := by
  constructor
  · intro env
    simpa only [expandEnv_eq_expanded, Option.some.injEq] using expandEnvValue_eq env v
  · constructor
    · intro h s hs href
      obtain ⟨w, hw, hiff⟩ := expandEnvValue_eq (fun _ => .error .notPresent) v
      rw [h, Option.some.injEq, eq_comm] at hw
      exact expanded_ne_of_hasReference href (hiff.mp hw s hs)
    · intro h env
      obtain ⟨w, hw, hiff⟩ := expandEnvValue_eq env v
      rw [hw, hiff.mpr fun s hs => ?_]
      rw [expanded, expandEnv_of_not_hasReference (h s hs), Option.getD_some]

/-- A connection whose address is a tagged reference. -/
def taggedUrl : Value := .mapping [(.string "rpc_url", .tagged "env" (.string "$\x7bHOME\x7d"))]

/-- The tagged reference is not expanded. -/
theorem tagged_url_kept :
    expandEnvValue homeEnv taggedUrl = some taggedUrl ∧
      taggedUrl.mapStrings (expanded homeEnv) =
        .mapping [(.string "rpc_url", .tagged "env" (.string "/root"))] ∧
      taggedUrl.mapStrings (expanded homeEnv) ≠ taggedUrl := by
  have hroot : expanded homeEnv "$\x7bHOME\x7d" = "/root" := by decide +kernel
  have hmap : taggedUrl.mapStrings (expanded homeEnv) =
      .mapping [(.string "rpc_url", .tagged "env" (.string "/root"))] := by
    simp [taggedUrl, Value.mapStrings, Value.mapEntries, hroot]
  refine ⟨rfl, hmap, ?_⟩
  rw [hmap]
  simp [taggedUrl]

end EvmExporter
