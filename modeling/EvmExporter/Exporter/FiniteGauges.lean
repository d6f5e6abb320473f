import EvmExporter.Config.BytesArgs
import EvmExporter.Exporter.ContractValues
import Mathlib.Algebra.Order.Field.Basic
import Mathlib.Tactic.Positivity

/-! What a gauge can show besides finite numbers. Validation takes any scale, and the decoder
divides by it. By the rules of IEEE 754 only a NaN for a scale makes NaN of an integer of 256
bits, and only a scale below 2^-767 an infinity; a gauge holds what an output of its series
was converted to, so it shows no worse in any run. -/

namespace EvmExporter

open Lib

variable {d : Deps}

/-! ### Arithmetic -/

/-- A NaN is no decimal, and every decimal is finite in `f64`. An integer of 256 bits reads as a
finite number. A finite number divided by another but zero is a number, and finite unless the
quotient is out of range; divided by an infinity it is zero, and anything divided by NaN is NaN. -/
structure FloatLibrary.Ieee (lib : FloatLibrary) : Prop where
  decimalFromF64_nan : lib.decimalFromF64 .nan = none
  decimalToF64_finite : ∀ x, ∃ p, lib.decimalToF64 x = some (.finite p)
  f64FromStr_finite : ∀ v : ℤ, v.natAbs < 2 ^ 256 →
    ∃ p, lib.f64FromStr (toString v) = some (.finite p) ∧ |p| ≤ 2 ^ 256
  div_nan : ∀ x, lib.f64Div x .nan = .nan
  div_inf : ∀ p negative, lib.f64Div (.finite p) (.inf negative) = .zero
  div_ne_nan : ∀ p q, q ≠ 0 → lib.f64Div (.finite p) (.finite q) ≠ .nan
  div_finite : ∀ p q, q ≠ 0 → |p / q| ≤ 2 ^ 1023 →
    ∃ r, lib.f64Div (.finite p) (.finite q) = .finite r

/-- What a value tells of the scale it was converted with. -/
structure F64.Scaled (value scale : F64) : Prop where
  of_nan : value = .nan → scale = .nan
  of_inf : ∀ negative, value = .inf negative →
    ∃ q, scale = .finite q ∧ q ≠ 0 ∧ |q| < 1 / 2 ^ 767
  scale_nan : scale = .nan → value = .nan ∨ value = .zero ∨ value = .one

/-- A finite value tells only that the scale is a number. -/
theorem F64.Scaled.of_finite {p : ℚ} {scale : F64} (h : scale ≠ .nan) : (finite p).Scaled scale :=
  ⟨nofun, nofun, fun hnan => absurd hnan h⟩

/-- The quotient of a 256-bit integer by a scale that is not tiny is in range. -/
theorem quotient_le {p q : ℚ} (hp : |p| ≤ 2 ^ 256) (hq : 1 / 2 ^ 767 ≤ |q|) :
    |p / q| ≤ 2 ^ 1023 := by
  have hpos : (0 : ℚ) < |q| := (by positivity : (0 : ℚ) < 1 / 2 ^ 767).trans_le hq
  rw [abs_div, div_le_iff₀ hpos]
  have hpow : (2 : ℚ) ^ 256 = 2 ^ 1023 * (1 / 2 ^ 767) := by
    rw [mul_one_div, eq_div_iff (by positivity), ← pow_add]
  calc |p| ≤ 2 ^ 1023 * (1 / 2 ^ 767) := hp.trans_eq hpow
    _ ≤ 2 ^ 1023 * |q| := mul_le_mul_of_nonneg_left hq (by positivity)

/-! ### The decoder -/

theorem scaleDecimal_scaled (hfloat : d.toFloatLibrary.Ieee) {v : ℤ} (hv : v.natAbs < 2 ^ 256)
    {scale : F64} (hscale : scale ≠ .zero) :
    (scaleDecimal d (toString v) scale).1.Scaled scale := by
  unfold scaleDecimal
  cases hquotient : decimalQuotient d (toString v) scale with
  | some q =>
    obtain ⟨p, hp⟩ := hfloat.decimalToF64_finite q
    have hnumber : scale ≠ .nan := by
      rintro rfl
      simp [decimalQuotient, hfloat.decimalFromF64_nan] at hquotient
    simp only [hp, Option.getD_some]
    exact .of_finite hnumber
  | none =>
    obtain ⟨p, hp, hle⟩ := hfloat.f64FromStr_finite v hv
    simp only [hp, Option.getD_some]
    cases scale with
    | nan =>
      rw [hfloat.div_nan]
      exact ⟨fun _ => rfl, nofun, fun _ => .inl rfl⟩
    | inf negative =>
      rw [hfloat.div_inf]
      exact .of_finite nofun
    | finite q =>
      have hq : q ≠ 0 := by
        rintro rfl
        exact hscale rfl
      by_cases htiny : |q| < 1 / 2 ^ 767
      · exact ⟨fun hnan => absurd hnan (hfloat.div_ne_nan p q hq),
          fun _ _ => ⟨q, rfl, hq, htiny⟩, nofun⟩
      · obtain ⟨r, hr⟩ := hfloat.div_finite p q hq (quotient_le hle (not_lt.mp htiny))
        rw [hr]
        exact .of_finite nofun

theorem convertToF64_scaled (hfloat : d.toFloatLibrary.Ieee) {v : DynSolValue} {scale : F64}
    (hscale : scale ≠ .zero) {r : F64 × Bool} (h : convertToF64 d v scale = .ok r) :
    r.1.Scaled scale := by
  cases v with
  | uint u bits =>
    obtain rfl := Except.ok.inj h
    exact scaleDecimal_scaled hfloat (v := (u.toNat : ℤ)) u.isLt hscale
  | int i bits =>
    obtain rfl := Except.ok.inj h
    refine scaleDecimal_scaled hfloat ?_ hscale
    have hlo := i.le_toInt
    have hhi := i.toInt_lt
    omega
  | bool b =>
    obtain rfl := Except.ok.inj h
    cases b with
    | false => exact ⟨nofun, nofun, fun _ => .inr (.inl rfl)⟩
    | true => exact ⟨nofun, nofun, fun _ => .inr (.inr rfl)⟩
  | _ => cases h

/-- What is decoded has been converted with the scale of the target, or 1 for zero. -/
theorem decode_converts {data : Bytes} {target : DecodeTarget} {r : F64 × Bool}
    (h : decode d data target = .ok r) : ∃ v,
      convertToF64 d v (if target.scale = .zero then .one else target.scale) = .ok r := by
  simp only [decode, bind_eq_ok] at h
  obtain ⟨-, -, -, -, vals, -, output, -, v, -, hconvert⟩ := h
  exact ⟨v, hconvert⟩

theorem Output.effectiveScale_ne_zero (o : Output) : o.effectiveScale ≠ .zero := by
  unfold Output.effectiveScale
  split_ifs with h
  · decide
  · exact h

theorem Row.decode_scaled (hfloat : d.toFloatLibrary.Ieee) {r : Row} {data : Bytes}
    {p : F64 × Bool} (h : EvmExporter.decode d data r.decode = .ok p) :
    p.1.Scaled r.emit.output.effectiveScale := by
  obtain ⟨v, hv⟩ := decode_converts h
  have hne : r.decode.scale ≠ .zero := r.emit.output.effectiveScale_ne_zero
  rw [if_neg hne] at hv
  exact convertToF64_scaled hfloat hne hv

/-! ### Runs -/

/-- What a gauge shows after a run has been read by an entry of its series. -/
theorem run_gauge_read {x : Exporter} (hwf : x.plan.WellFormed) (hnames : x.plan.NamesGauges)
    {attempts : List Attempt} {series : Series} {value : F64}
    (h : (run d x attempts .initial).gauges series = some value) :
    ∃ e ∈ x.plan.entries, (e.metricName, e.labelValues) = series ∧
      ∃ data loss, decode d data e.decode = .ok (value, loss) := by
  rw [run_gauges hwf hnames] at h
  have hfound : attempts.reverse.findSome? (Attempt.lastGood d x series) = some value :=
    Option.or_none.symm.trans h
  obtain ⟨a, -, hgood⟩ := List.exists_of_findSome?_eq_some hfound
  obtain ⟨⟨n, results⟩, -, hlast⟩ := Option.bind_eq_some_iff.mp hgood
  obtain ⟨e, he, hvalue⟩ := List.mem_filterMap.mp (List.mem_of_getLast? hlast)
  split_ifs at hvalue with hseries
  obtain ⟨⟨_, loss⟩, hsample, rfl⟩ := Option.map_eq_some_iff.mp hvalue
  obtain ⟨r, -, hr⟩ := Option.bind_eq_some_iff.mp hsample
  split_ifs at hr
  exact ⟨e, he, hseries, r.returnData, loss, toOption_eq_some.mp hr⟩

/-- In every interleaving, whatever the node answers, an output of its series accounts for what a
gauge shows: for NaN one whose scale is NaN, for an infinity one whose scale is not zero but
below 2^-767 in absolute value. Where all outputs have a NaN for a scale, a gauge shows
nothing but NaN and booleans. -/
theorem gauges_scaled {cfg : Config} {plan : Plan} {registry registry' : Registry}
    (hb : build d cfg registry = .ok (plan, registry')) (hfloat : d.toFloatLibrary.Ieee)
    {acts : List RunAct} {s : RunState}
    (h : execute (RunState.step d ⟨cfg, plan⟩) .initial acts = some s) :
    ∃ sites, sitesOf d cfg = .ok sites ∧ sites.map Site.toPlace = places cfg ∧
      ∀ series value, s.metrics.gauges series = some value →
        ∃ r ∈ rows sites, r.series cfg (rows sites) = series ∧
          value.Scaled r.emit.output.effectiveScale := by
  obtain ⟨sites, hsites, rfl⟩ := build_eq_planOf hb
  refine ⟨sites, hsites, sitesOf_places hsites, fun series value hvalue => ?_⟩
  rw [execute_metrics h] at hvalue
  obtain ⟨e, he, rfl, data, loss, hdecode⟩ :=
    run_gauge_read (x := ⟨cfg, planOf cfg sites⟩) (build_wellFormed hb) (build_namesGauges hb) hvalue
  obtain ⟨r, hr, rfl⟩ := List.mem_map.mp he
  exact ⟨r, hr, rfl, Row.decode_scaled hfloat hdecode⟩

/-! ### Tokens without a scale -/

namespace Reference

def negate : F64 → F64
  | .finite q => .finite (-q)
  | .inf negative => .inf (!negative)
  | .nan => .nan

def signedFromStr (s : String) : Option F64 :=
  match s.toList with
  | '-' :: cs => (natOfText 10 0 cs).map fun n => negate (F64.ofNat n)
  | cs => (natOfText 10 0 cs).map F64.ofNat

/-- Division without rounding. -/
def ieeeDiv : F64 → F64 → F64
  | .finite x, .finite y =>
    if y = 0 then if x = 0 then .nan else .inf (x < 0)
    else if |x / y| < 2 ^ 1024 then .finite (x / y)
    else .inf (x / y < 0)
  | .finite _, .inf _ => .zero
  | .inf negative, .finite y => .inf (negative ^^ decide (y < 0))
  | _, _ => .nan

def ieee : Deps := { reference with f64FromStr := signedFromStr, f64Div := ieeeDiv }

/-- An integer of 256 bits is rounded to 2^256 at most. -/
theorem ofNat_le {n : ℕ} (h : n < 2 ^ 256) : ∃ q, F64.ofNat n = .finite q ∧ |q| ≤ 2 ^ 256 := by
  refine ⟨_, rfl, ?_⟩
  rw [Nat.abs_cast]
  set k := n.log2 - 52
  have hk : k ≤ 256 := by
    by_contra hlarge
    have hlog : 2 ^ n.log2 ≤ n := Nat.log2_self_le (by rintro rfl; simp [k] at hlarge)
    have hpow : 2 ^ 256 ≤ 2 ^ n.log2 := Nat.pow_le_pow_right (by norm_num) (by omega)
    omega
  have hdown : n / 2 ^ k + 1 ≤ 2 ^ (256 - k) := by
    refine Nat.div_lt_of_lt_mul (h.trans_eq ?_)
    rw [← pow_add, Nat.add_sub_cancel' hk]
  have hup : (n / 2 ^ k + 1) * 2 ^ k ≤ 2 ^ 256 := by
    calc (n / 2 ^ k + 1) * 2 ^ k ≤ 2 ^ (256 - k) * 2 ^ k := Nat.mul_le_mul_right _ hdown
      _ = 2 ^ 256 := by rw [← pow_add, Nat.sub_add_cancel hk]
  have hround : ∀ up ≤ n / 2 ^ k + 1, ((up * 2 ^ k : ℕ) : ℚ) ≤ 2 ^ 256 := by
    intro up hle
    exact_mod_cast (Nat.mul_le_mul_right _ hle).trans hup
  split_ifs
  · exact hround _ le_rfl
  · exact hround _ (Nat.le_succ _)

theorem signedFromStr_finite (v : ℤ) (hv : v.natAbs < 2 ^ 256) :
    ∃ p, signedFromStr (toString v) = some (.finite p) ∧ |p| ≤ 2 ^ 256 := by
  unfold signedFromStr
  cases v with
  | ofNat n =>
    obtain ⟨q, hq, hle⟩ := ofNat_le (n := n) hv
    rw [Int.ofNat_eq_natCast, toString_natCast_toList]
    split
    next cs h => exact absurd h (toDigits_ne_sign n cs)
    next => exact ⟨q, by rw [natOfText_toDigits, Option.map_some, hq], hle⟩
  | negSucc n =>
    obtain ⟨q, hq, hle⟩ := ofNat_le (n := n + 1) hv
    rw [toString_negSucc_toList]
    refine ⟨-q, ?_, (abs_neg q).trans_le hle⟩
    simp only [natOfText_toDigits, Option.map_some, hq, negate]

theorem lawful_ieee : ieee.toFloatLibrary.Ieee := by
  constructor
  · rfl
  · exact fun x => ⟨x.value, rfl⟩
  · exact signedFromStr_finite
  · intro x
    cases x <;> rfl
  · exact fun p negative => rfl
  · intro p q hq
    change ieeeDiv (.finite p) (.finite q) ≠ .nan
    rw [ieeeDiv, if_neg hq]
    split_ifs <;> exact nofun
  · intro p q hq hle
    change ∃ r, ieeeDiv (.finite p) (.finite q) = .finite r
    have hlt : |p / q| < 2 ^ 1024 := hle.trans_lt (pow_lt_pow_right₀ (by norm_num) (by norm_num))
    exact ⟨p / q, by rw [ieeeDiv, if_neg hq, if_pos hlt]⟩

/-- The supply, divided by NaN. -/
def nanConfig : Config := tokenConfig [{ function := "totalSupply", outputs := [{ scale := .nan }] }]

end Reference

/-- The configuration is accepted, and the supply shows as NaN. -/
theorem nan_shown :
    ∃ cfg sites plan registry s, validate Reference.ieee "." Reference.nanConfig = .ok cfg ∧
      sitesOf Reference.ieee cfg = .ok sites ∧
      build Reference.ieee cfg [] = .ok (plan, registry) ∧
      execute (RunState.step Reference.ieee ⟨cfg, plan⟩) .initial
        [.scrapeReturned ((servedAttempt sevenChain 100).attempt multicall3)] = some s ∧
      s.metrics.gauges ("token_total_supply", [Reference.tokenAddress, "1"]) = some .nan ∧
      ∃ r ∈ rows sites, r.emit.output.effectiveScale = .nan := by
  have hplan : (planSites Reference.ieee Reference.nanConfig).toOption.any
      (fun (cfg, _, plan, _) =>
        (execute (RunState.step Reference.ieee ⟨cfg, plan⟩) .initial
          [.scrapeReturned ((servedAttempt sevenChain 100).attempt multicall3)]).any fun s =>
            s.metrics.gauges ("token_total_supply", [Reference.tokenAddress, "1"]) = some .nan) =
      true := by
    decide +kernel
  obtain ⟨⟨cfg, sites, plan, registry⟩, hok, h⟩ := (Option.any_eq_true _ _).mp hplan
  obtain ⟨hv, hsites, hb⟩ := planSites_eq_ok (toOption_eq_some.mp hok)
  obtain ⟨s, hs, hshown⟩ := (Option.any_eq_true _ _).mp h
  have hnan := of_decide_eq_true hshown
  obtain ⟨sites', hsites', -, hscaled⟩ := gauges_scaled hb Reference.lawful_ieee hs
  obtain rfl := Except.ok.inj (hsites.symm.trans hsites')
  obtain ⟨r, hr, -, hvalue⟩ := hscaled _ _ hnan
  exact ⟨cfg, sites, plan, registry, s, hv, hsites, hb, hs, hnan, r, hr, hvalue.of_nan rfl⟩

end EvmExporter
