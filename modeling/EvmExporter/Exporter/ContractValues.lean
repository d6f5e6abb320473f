import EvmExporter.Decoder.Fields
import EvmExporter.Exporter.DirectReads
import EvmExporter.Reference.Tuples

/-! From the contracts to the gauges. A chain runs contracts that return typed values; its calls
carry the encodings of arguments and return values. What the direct reader reads of such a
chain is the number its output selects of the values the contract has returned, so a gauge
holds that number for the last block at which the call did not revert, and the call errors
count the reverts, as far as the outputs are numbers. Only the planned calls matter, and only
at the blocks that were read. -/

namespace EvmExporter

open Lib

variable (d : Deps)

/-! ### Contracts -/

/-- What the functions at an address return to their arguments at a block; nothing when they
revert. -/
abbrev Contracts := ℕ → Address → AbiFunction → List DynSolValue → Option (List DynSolValue)

/-- A call that reverts fails, and any other succeeds with the encoded return values. -/
def CallResult.Encodes (func : AbiFunction) (r : CallResult) : Option (List DynSolValue) → Prop
  | none => r.success = false
  | some vals => r.success = true ∧ d.ReturnValues func vals ∧
      d.abiEncodeOutput func vals = .ok r.returnData

/-! ### The number of a row -/

/-- The arguments a row calls its function with. -/
def Row.args (r : Row) : List DynSolValue :=
  ((convertArgs d r.site.func r.site.subcall.args).toOption).getD []

/-- The value of the output a row selects, or of a field of it. -/
def Row.select (r : Row) (vals : List DynSolValue) : Option DynSolValue :=
  match vals[r.emit.output.index]?, r.emit.fieldIndex with
  | some v, none => some v
  | some (.tuple fields), some fi => fields[fi]?
  | _, _ => none

/-- The selected value as a number in the scale of the output, and whether it may have lost
precision. -/
def Row.number (r : Row) (vals : List DynSolValue) : Option (F64 × Bool) :=
  (r.select vals).bind fun v => (convertToF64 d v
    (if r.emit.output.effectiveScale = .zero then .one else r.emit.output.effectiveScale)).toOption

/-- What the contract of a row returns to its call at a block. -/
def Row.returned (contracts : Contracts) (n : ℕ) (r : Row) : Option (List DynSolValue) :=
  contracts n r.site.address r.site.func (r.args d)

def Row.value (contracts : Contracts) (n : ℕ) (r : Row) : Option (F64 × Bool) :=
  (r.returned d contracts n).bind (r.number d)

/-- At the blocks the chain answers the planned calls of the sites with what the contracts
return to them. -/
def Multicall.Chain.Runs (chain : Multicall.Chain) (sites : List Site) (blocks : List ℕ)
    (contracts : Contracts) : Prop :=
  ∀ r ∈ rows sites, ∀ n ∈ blocks,
    (chain n r.site.request).Encodes d r.site.func (r.returned d contracts n)

/-- The output is a number or a boolean, or a field of a tuple and not of an array of tuples. -/
structure Row.Exportable (r : Row) : Prop where
  fieldless : r.emit.output.field = "" → ∃ ty, OutputType d r.site.func r.emit.output.index ty ∧
    outputScalarIsNumeric ty
  field : r.emit.output.field ≠ "" → ∀ param, r.site.func.outputs[r.emit.output.index]? = some param →
    ¬ param.hasArraySuffix

variable {d} {cfg raw : Config} {baseDir : String} {plan : Plan} {registry registry' : Registry}
  {chain : Multicall.Chain} {contracts : Contracts} {drv : Multicall.Driver} {sites : List Site}
  {blocks : List ℕ} {r : Row} {n : ℕ} {o : Readings}

/-- A row selects what the decoder selects. -/
theorem selectField_eq_select {v : DynSolValue} {vals : List DynSolValue}
    (hv : vals[r.emit.output.index]? = some v) :
    (selectField r.decode v).toOption = r.select vals := by
  have hfield : r.decode.fieldIndex = r.emit.fieldIndex := rfl
  rw [Row.select, hv, selectField, hfield]
  cases r.emit.fieldIndex with
  | none => rfl
  | some fi =>
    cases v with
    | tuple fields =>
      simp only
      cases fields[fi]? <;> rfl
    | _ => rfl

/-- Decoding encoded return values gives the number of the row. -/
theorem decode_eq_number (hcodec : d.DecodeInvertsEncode) {vals : List DynSolValue} {data : Bytes}
    (hvals : d.ReturnValues r.site.func vals) (henc : d.abiEncodeOutput r.site.func vals = .ok data) :
    (decode d data r.decode).toOption = r.number d vals := by
  have hlen : r.site.func.outputs.length = vals.length := hvals.length_eq
  have hdec : d.abiDecodeOutput r.decode.function data = .ok vals := hcodec _ _ _ hvals henc
  cases hv : vals[r.emit.output.index]? with
  | none =>
    have hout : r.decode.function.outputs.length ≤ r.decode.outputIndex :=
      hlen ▸ List.getElem?_eq_none_iff.mp hv
    have hnumber : r.number d vals = none := by simp [Row.number, Row.select, hv]
    rw [hnumber, decode, bailIf, bailIf, if_pos hout]
    split_ifs <;> rfl
  | some v =>
    have hlt : r.decode.outputIndex < r.decode.function.outputs.length :=
      hlen ▸ (List.getElem?_eq_some_iff.mp hv).1
    rw [decode_unpacked hdec hlt hv, Row.number, ← selectField_eq_select hv]
    cases selectField r.decode v <;> rfl

/-! ### What is read of the contracts -/

/-- The request of a row carries its function and its arguments. -/
theorem row_encodes (h : sitesOf d cfg = .ok sites) (hr : r ∈ rows sites) :
    d.abiEncodeInput r.site.func (r.args d) = .ok r.site.request.callData := by
  obtain ⟨-, hres⟩ := mem_sites h (mem_rows.mp hr).1
  obtain ⟨vals, hvals, hdata⟩ := encodeCall_eq_ok hres.callData_eq
  have hargs : r.args d = vals := by
    have hvals' : convertArgs d r.site.func r.site.subcall.args = .ok vals := hvals
    rw [Row.args, hvals']
    rfl
  exact hargs ▸ hdata

theorem sample_eq_value (hcodec : d.DecodeInvertsEncode) (hruns : chain.Runs d sites blocks contracts)
    (hr : r ∈ rows sites) (hn : n ∈ blocks) : r.sample d chain n = r.value d contracts n := by
  have henc := hruns r hr n hn
  rw [Row.sample, Row.value]
  cases hret : r.returned d contracts n with
  | none =>
    rw [hret] at henc
    have hfailed : (chain n r.site.request).success = false := henc
    simp [hfailed]
  | some vals =>
    rw [hret] at henc
    obtain ⟨hsuccess, hvals, hbytes⟩ := henc
    rw [if_pos hsuccess]
    exact decode_eq_number hcodec hvals hbytes

/-- An exportable row makes a number of all return values of its function. -/
theorem Row.Exportable.number_isSome (hexp : r.Exportable d) (hresolve : d.ResolvesComponents)
    (hv : cfg.Valid d) (h : sitesOf d cfg = .ok sites) (hr : r ∈ rows sites)
    {vals : List DynSolValue} (hvals : d.ReturnValues r.site.func vals) :
    (r.number d vals).isSome := by
  obtain ⟨hsite, hemit⟩ := mem_rows.mp hr
  obtain ⟨-, -, -, -, houtputs, hindex⟩ := site_emits hv h hsite
  have hindex := hindex _ hemit
  suffices ∃ v ty, r.select vals = some v ∧ outputScalarIsNumeric ty ∧ ty.Matches v by
    obtain ⟨v, ty, hselect, hnum, hmatches⟩ := this
    obtain ⟨p, hp⟩ := convertToF64_of_numeric (d := d) hnum hmatches
      (if r.emit.output.effectiveScale = .zero then .one else r.emit.output.effectiveScale)
    rw [Row.number, hselect, Option.bind_some, hp]
    rfl
  by_cases hfield : r.emit.output.field = ""
  · obtain ⟨ty, ⟨param, hparam, hty⟩, hnum⟩ := hexp.fieldless hfield
    obtain ⟨v, hget, ty', hty', hwt⟩ := forall₂_getElem? hvals hparam
    obtain rfl := Except.ok.inj (hty.symm.trans hty')
    have hnone : r.emit.fieldIndex = none := by
      have hno : fieldIndex r.site.func r.emit.output = .ok none := by simp [fieldIndex, hfield]
      exact (Except.ok.inj (hno.symm.trans hindex)).symm
    exact ⟨v, ty, by rw [Row.select, hget, hnone], hnum, hwt.1⟩
  · obtain ⟨abi, hval⟩ := site_valid hv h hsite
    have hselected : r.emit.output ∈ selectedOutputs r.site.metric.outputs r.site.func :=
      houtputs ▸ List.mem_map_of_mem hemit
    obtain ⟨fi, param, component, ty, hsel⟩ :=
      (selectedOutputs_valid hval.metric_valid hselected).selectsComponent hfield
    obtain ⟨v, hget, pty, hpty, hwt⟩ := forall₂_getElem? hvals hsel.param_eq
    obtain ⟨fields, field, fty, rfl, hfi, hfty, hmatches⟩ := tuple_of_components hresolve
      (hexp.field hfield param hsel.param_eq) hsel.component_eq hpty hwt.1
    obtain rfl := Except.ok.inj (hsel.resolves.symm.trans hfty)
    have hsome : r.emit.fieldIndex = some fi := by
      have hyes : fieldIndex r.site.func r.emit.output = .ok (some fi) := by
        simp [fieldIndex, hfield, hsel.found, bind, Except.bind, pure, Except.pure]
      exact (Except.ok.inj (hyes.symm.trans hindex)).symm
    exact ⟨field, ty, by rw [Row.select, hget, hsome]; exact hfi, hsel.numeric, hmatches⟩

/-- An exportable row reads nothing only where its call reverts. -/
theorem Row.Exportable.value_eq_none_iff (hexp : r.Exportable d) (hresolve : d.ResolvesComponents)
    (hruns : chain.Runs d sites blocks contracts) (hv : cfg.Valid d) (h : sitesOf d cfg = .ok sites)
    (hr : r ∈ rows sites) (hn : n ∈ blocks) :
    r.value d contracts n = none ↔ r.returned d contracts n = none := by
  have henc := hruns r hr n hn
  rw [Row.value]
  cases hret : r.returned d contracts n with
  | none => simp
  | some vals =>
    rw [hret] at henc
    have hsome := hexp.number_isSome hresolve hv h hr henc.2.1
    rw [Option.bind_some]
    constructor
    · intro hnone
      rw [hnone] at hsome
      cases hsome
    · exact nofun

/-! ### The direct reader over a run -/

theorem read_values (cfg : Config) (rs : List Row) (chain : Multicall.Chain) (n : ℕ) (o : Readings)
    (r : Row) (series : Series) : (o.read d cfg rs chain n r).values series =
      if r.series cfg rs = series then ((r.sample d chain n).map Prod.fst).or (o.values series)
      else o.values series := by
  have hset (value : F64) : (o.set (r.series cfg rs) value).values series =
      if r.series cfg rs = series then some value else o.values series := by
    simp only [Readings.set, Function.update_apply, eq_comm]
  unfold Readings.read
  split
  next value h =>
    have hlose : ((o.set (r.series cfg rs) value).lose r.loss).values =
        (o.set (r.series cfg rs) value).values := by
      unfold Readings.lose
      split_ifs <;> rfl
    rw [hlose, hset, h]
    rfl
  next value h =>
    rw [hset, h]
    rfl
  next h =>
    rw [h]
    simp [Readings.fail]

theorem read_failures (cfg : Config) (rs : List Row) (chain : Multicall.Chain) (n : ℕ)
    (o : Readings) (r : Row) (labels : String × String × String) :
    (o.read d cfg rs chain n r).failures labels =
      o.failures labels + if r.place = labels ∧ r.sample d chain n = none then 1 else 0 := by
  unfold Readings.read
  split
  next value h =>
    unfold Readings.lose
    split_ifs <;> simp [Readings.set, h] at *
  next value h => simp [Readings.set, h]
  next h =>
    simp only [Readings.fail, h, and_true, Function.update_apply, eq_comm (a := labels)]
    split_ifs with heq
    · rw [heq]
    · rfl

/-- Reading some rows sets a series that only one of them has to what that row reads. -/
theorem foldl_read_values {cfg : Config} {rs l : List Row} {r : Row}
    (hone : ∀ r' ∈ l, r'.series cfg rs = r.series cfg rs → r' = r) (o : Readings) :
    (l.foldl (Readings.read d cfg rs chain n) o).values (r.series cfg rs) =
      if ∃ r' ∈ l, r'.series cfg rs = r.series cfg rs then
        ((r.sample d chain n).map Prod.fst).or (o.values (r.series cfg rs))
      else o.values (r.series cfg rs) := by
  induction l generalizing o with
  | nil => simp
  | cons a l ih =>
    rw [List.foldl_cons, ih (fun r' hr' => hone r' (List.mem_cons_of_mem a hr')), read_values]
    by_cases ha : a.series cfg rs = r.series cfg rs
    · obtain rfl := hone a List.mem_cons_self ha
      have hcons : ∃ r' ∈ a :: l, r'.series cfg rs = a.series cfg rs := ⟨a, List.mem_cons_self, rfl⟩
      rw [if_pos rfl, if_pos hcons]
      split_ifs
      · cases (a.sample d chain n).map Prod.fst <;> rfl
      · rfl
    · rw [if_neg ha]
      simp [ha]

theorem foldl_read_failures (cfg : Config) (rs l : List Row) (o : Readings)
    (labels : String × String × String) :
    (l.foldl (Readings.read d cfg rs chain n) o).failures labels = o.failures labels +
      l.countP fun r => r.place = labels ∧ r.sample d chain n = none := by
  induction l generalizing o with
  | nil => rfl
  | cons a l ih =>
    rw [List.foldl_cons, ih, read_failures, List.countP_cons, Nat.add_assoc, Nat.add_comm (ite _ _ _)]
    simp only [decide_eq_true_eq]

theorem readAt_values {cfg : Config} {rs : List Row} {r : Row} (hr : r ∈ rs)
    (hone : ∀ r' ∈ rs, r'.series cfg rs = r.series cfg rs → r' = r) (blocks : List ℕ)
    (o : Readings) : (o.readAt d cfg rs chain blocks).values (r.series cfg rs) =
      (blocks.reverse.findSome? fun n => (r.sample d chain n).map Prod.fst).or
        (o.values (r.series cfg rs)) := by
  induction blocks generalizing o with
  | nil => rfl
  | cons n blocks ih =>
    have hfirst : (rs.foldl (Readings.read d cfg rs chain n) o).values (r.series cfg rs) =
        ((r.sample d chain n).map Prod.fst).or (o.values (r.series cfg rs)) := by
      rw [foldl_read_values hone, if_pos ⟨r, hr, rfl⟩]
    rw [Readings.readAt, List.foldl_cons, ← Readings.readAt, ih, hfirst, List.reverse_cons,
      List.findSome?_append, ← Option.or_assoc]
    congr 2
    cases h : (r.sample d chain n).map Prod.fst <;> simp only [List.findSome?_cons, h, List.findSome?_nil]

theorem readAt_failures (cfg : Config) (rs : List Row) (blocks : List ℕ) (o : Readings)
    (labels : String × String × String) :
    (o.readAt d cfg rs chain blocks).failures labels = o.failures labels +
      (blocks.map fun n => rs.countP fun r => r.place = labels ∧ r.sample d chain n = none).sum := by
  induction blocks generalizing o with
  | nil => rfl
  | cons n blocks ih =>
    rw [Readings.readAt, List.foldl_cons, ← Readings.readAt, ih, foldl_read_failures, List.map_cons,
      List.sum_cons, Nat.add_assoc]

/-! ### The gauges -/

theorem findSome?_congr {α β : Type*} {l : List α} {f g : α → Option β} (h : ∀ a ∈ l, f a = g a) :
    l.findSome? f = l.findSome? g := by
  induction l with
  | nil => rfl
  | cons a l ih =>
    obtain ⟨ha, hl⟩ := List.forall_mem_cons.mp h
    rw [List.findSome?_cons, List.findSome?_cons, ha, ih hl]

/-- In every interleaving against a truthful node of a chain that answers the planned calls at
the completed blocks as the contracts do: requests carry their functions and arguments; a
gauge whose series no other row writes holds the number its row makes of what its contract
returned at the last completed block where there is one; and the call errors count the rows
without one. An exportable row is without one only where its call reverts. -/
theorem gauges_show_contract_values (hv : validate d baseDir raw = .ok cfg)
    (hb : build d cfg registry = .ok (plan, registry')) (hsites : sitesOf d cfg = .ok sites)
    (hcodec : d.DecodeInvertsEncode) (hresolve : d.ResolvesComponents) (drv : Multicall.Driver)
    {acts : List RunAct} {s : RunState}
    (h : execute (RunState.step d ⟨cfg, plan⟩) .initial acts = some s) {lives : List LiveAttempt}
    (hlives : acts.filterMap RunAct.attempt? = lives.map fun l => l.attempt drv)
    (hnode : ∀ l ∈ lives, Multicall.TimedNode.Truthful l.chunk chain)
    (hblocks : (lives.filterMap fun l => l.completedAt drv ⟨cfg, plan⟩) = blocks)
    (hruns : chain.Runs d sites blocks contracts) :
    (∀ r ∈ rows sites, d.abiEncodeInput r.site.func (r.args d) = .ok r.site.request.callData) ∧
    (∀ r ∈ rows sites,
      (∀ r' ∈ rows sites, r'.series cfg (rows sites) = r.series cfg (rows sites) → r' = r) →
        s.metrics.gauges (r.series cfg (rows sites)) =
          blocks.reverse.findSome? fun n => (r.value d contracts n).map Prod.fst) ∧
    (∀ labels, s.metrics.callErrorsTotal labels = (blocks.map fun n =>
      (rows sites).countP fun r => r.place = labels ∧ r.value d contracts n = none).sum) ∧
    ∀ r ∈ rows sites, r.Exportable d → ∀ n ∈ blocks,
      r.value d contracts n = none ↔ r.returned d contracts n = none := by
  obtain ⟨sites', hsites', rfl⟩ := build_eq_planOf hb
  obtain rfl := Except.ok.inj (hsites.symm.trans hsites')
  have hsample : ∀ r ∈ rows sites, ∀ n ∈ blocks, r.sample d chain n = r.value d contracts n :=
    fun r hr n hn => sample_eq_value hcodec hruns hr hn
  have hshows : s.metrics.Shows (Readings.empty.readAt d cfg (rows sites) chain blocks) :=
    hblocks ▸ execution_shows h hlives hnode
  refine ⟨fun r hr => row_encodes hsites hr, ?_, ?_, ?_⟩
  · intro r hr hone
    rw [hshows.gauges, readAt_values hr hone, Readings.empty, Option.or_none]
    refine findSome?_congr fun n hn => ?_
    rw [hsample r hr n (List.mem_reverse.mp hn)]
  · intro labels
    rw [hshows.callErrorsTotal, readAt_failures]
    refine (Nat.zero_add _).trans (congrArg List.sum (List.map_congr_left fun n hn => ?_))
    exact List.countP_congr fun r hr => by rw [hsample r hr n hn]
  · intro r hr hexp n hn
    exact hexp.value_eq_none_iff hresolve hruns (validate_valid hv) hsites hr hn

/-! ### A token that returns seven -/

/-- Every function returns the number seven, and reverts from block 200 on. -/
def sevenContracts : Contracts := fun n _ _ _ => if n < 200 then some [.uint 7 256] else none

/-- The function returns one `uint256`. -/
def returnsUint256 (func : AbiFunction) : Bool :=
  func.outputs.map AbiParam.ty = ["uint256"] && func.outputs.all fun p => p.components.isEmpty

theorem returnsUint256_eq_true {func : AbiFunction} (h : returnsUint256 func = true) :
    ∃ param, func.outputs = [param] ∧ Reference.tupleReference.resolve param = .ok (.uint 256) := by
  rw [returnsUint256, Bool.and_eq_true, decide_eq_true_eq] at h
  obtain ⟨htys, hcomponents⟩ := h
  obtain ⟨param, houtputs, hty⟩ := List.map_eq_singleton_iff.mp htys
  have hempty : param.components.isEmpty := by simpa [houtputs] using hcomponents
  refine ⟨param, houtputs, ?_⟩
  change Reference.resolveTuple param = _
  rw [Reference.resolveTuple, if_pos hempty, Reference.resolve, hty]
  rfl

theorem sevenChain_runs (h : ∀ r ∈ rows sites, returnsUint256 r.site.func = true) :
    sevenChain.Runs Reference.tupleReference sites blocks sevenContracts := by
  intro r hr n hn
  obtain ⟨param, houtputs, hty⟩ := returnsUint256_eq_true (h r hr)
  by_cases hlt : n < 200
  · have hwt : (DynSolType.uint 256).WellTyped (.uint 7 256) := ⟨.uint 7 256, .uint (by decide)⟩
    have hvals : Reference.tupleReference.ReturnValues r.site.func [.uint 7 256] := by
      rw [AbiLibrary.ReturnValues, houtputs]
      exact .cons ⟨_, hty, hwt⟩ .nil
    rw [Row.returned, sevenContracts, if_pos hlt, sevenChain, if_pos hlt]
    exact ⟨rfl, hvals, rfl⟩
  · rw [Row.returned, sevenContracts, if_neg hlt, sevenChain, if_neg hlt]
    rfl

/-- An accepted and planned configuration, with its sites. -/
def planSites (d : Deps) (raw : Config) : Except Error (Config × List Site × Plan × Registry) := do
  let cfg ← validate d "." raw
  let sites ← sitesOf d cfg
  let planned ← build d cfg []
  return (cfg, sites, planned)

theorem planSites_eq_ok {plan : Plan} (h : planSites d raw = .ok (cfg, sites, plan, registry)) :
    validate d "." raw = .ok cfg ∧ sitesOf d cfg = .ok sites ∧
      build d cfg [] = .ok (plan, registry) := by
  simp only [planSites, bind_eq_ok, pure_eq_ok, Prod.mk.injEq] at h
  obtain ⟨_, hv, _, hsites, _, hb, rfl, rfl, rfl⟩ := h
  exact ⟨hv, hsites, hb⟩

def sevenActs : List RunAct :=
  [.scrapeReturned ((servedAttempt sevenChain 100).attempt multicall3), .firstTick,
    .intervalElapsed, .selectTick, .scrapeReturned ((servedAttempt sevenChain 200).attempt multicall3)]

/-- The supply is seven at block 100, and its call reverts at block 200. -/
theorem seven_returned_and_shown :
    ∃ cfg plan registry s, ∃ r : Row, build Reference.tupleReference cfg [] = .ok (plan, registry) ∧
      execute (RunState.step Reference.tupleReference ⟨cfg, plan⟩) .initial sevenActs = some s ∧
      r.returned Reference.tupleReference sevenContracts 100 = some [.uint 7 256] ∧
      r.returned Reference.tupleReference sevenContracts 200 = none ∧
      s.metrics.gauges (r.name, [Reference.tokenAddress, "1"]) = some (.finite 7) ∧
      s.metrics.callErrorsTotal r.place = 1 := by
  have hplan : (planSites Reference.tupleReference halfMinuteConfig).toOption.any
      (fun (cfg, sites, plan, _) => (rows sites).length = 1 &&
        (rows sites).all (fun r => returnsUint256 r.site.func) &&
        (rows sites).all (fun r =>
          r.series cfg (rows sites) = (r.name, [Reference.tokenAddress, "1"]) ∧
          (r.value Reference.tupleReference sevenContracts 100).map Prod.fst = some (.finite 7)) &&
        (execute (RunState.step Reference.tupleReference ⟨cfg, plan⟩) .initial sevenActs).isSome &&
        (servedAttempt sevenChain 100).completedAt multicall3 ⟨cfg, plan⟩ = some 100 &&
        (servedAttempt sevenChain 200).completedAt multicall3 ⟨cfg, plan⟩ = some 200) = true := by
    decide +kernel
  obtain ⟨⟨cfg, sites, plan, registry⟩, hok, h⟩ := (Option.any_eq_true _ _).mp hplan
  obtain ⟨hv, hsites, hb⟩ := planSites_eq_ok (toOption_eq_some.mp hok)
  simp only [Bool.and_eq_true, decide_eq_true_eq, List.all_eq_true] at h
  obtain ⟨⟨⟨⟨⟨hone, hcalls⟩, hrow⟩, hs⟩, h100⟩, h200⟩ := h
  obtain ⟨s, hs⟩ := Option.isSome_iff_exists.mp hs
  obtain ⟨r, hr⟩ := List.length_eq_one_iff.mp hone
  obtain ⟨hseries, hvalue⟩ := hrow r (by simp [hr])
  have hnode : ∀ l ∈ [servedAttempt sevenChain 100, servedAttempt sevenChain 200],
      Multicall.TimedNode.Truthful l.chunk sevenChain := by
    simp [(servedAttempt_served sevenChain _).truthful]
  have hblocks : [servedAttempt sevenChain 100, servedAttempt sevenChain 200].filterMap
      (fun l => l.completedAt multicall3 ⟨cfg, plan⟩) = [100, 200] := by
    simp [h100, h200]
  obtain ⟨-, hgauges, herrors, -⟩ := gauges_show_contract_values hv hb hsites
    Reference.tuple_decodeInvertsEncode Reference.tuple_resolvesComponents multicall3 hs rfl hnode
    hblocks (sevenChain_runs hcalls)
  have hnone : r.value Reference.tupleReference sevenContracts 200 = none := rfl
  have hsome : r.value Reference.tupleReference sevenContracts 100 ≠ none := by
    intro hno
    simp [hno] at hvalue
  refine ⟨cfg, plan, registry, s, r, hb, hs, rfl, rfl, ?_, ?_⟩
  · rw [← hseries, hgauges r (by simp [hr]) (by simp [hr])]
    simp [hnone, hvalue]
  · rw [herrors]
    simp [hr, hnone, hsome]

end EvmExporter
