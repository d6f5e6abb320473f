import EvmExporter.Exporter.Runs
import EvmExporter.Lib.OnceLog

/-! Precision-loss warnings. The exporter keys what it has warned about by the text of the
metric name, a colon and the address; a name may contain colons, but an address has a fixed
length, so the key tells the pairs apart. Over a run each pair is warned about once, if any
completed attempt lost precision on one of its entries. -/

namespace EvmExporter

open Lib

variable {d : Deps} {cfg : Config} {plan : Plan} {registry registry' : Registry}

/-! ### The log -/

/-- The key of a warning. -/
def PrecisionLoss.key (p : PrecisionLoss) : String := s!"{p.metric}:{p.address}"

/-- The warnings and the keys seen, as a log. -/
def Metrics.warningLog (w : Metrics) : OnceLog String PrecisionLoss :=
  ⟨w.precisionLossSeen, w.precisionLossWarnings⟩

/-- The precision loss an event reports. -/
def Event.loss : Event → Option PrecisionLoss
  | .precisionLoss p => some p
  | _ => none

theorem warnPrecisionLossOnce_log (w : Metrics) (p : PrecisionLoss) :
    (w.warnPrecisionLossOnce p).warningLog = w.warningLog.add PrecisionLoss.key p := by
  by_cases h : p.key ∈ w.precisionLossSeen
  · have hseen : p.key ∈ w.warningLog.seen := h
    rw [OnceLog.add, if_pos hseen, Metrics.warnPrecisionLossOnce]
    exact congrArg Metrics.warningLog (if_pos h)
  · have hnew : p.key ∉ w.warningLog.seen := h
    rw [OnceLog.add, if_neg hnew, Metrics.warnPrecisionLossOnce]
    exact congrArg Metrics.warningLog (if_neg h)

theorem apply_warningLog (w : Metrics) (ev : Event) :
    (w.apply ev).warningLog = w.warningLog.addAll PrecisionLoss.key ev.loss.toList := by
  cases ev with
  | setGauge series value => rfl
  | callError contract function address => rfl
  | precisionLoss p => exact warnPrecisionLossOnce_log w p

theorem foldl_apply_warningLog (events : List Event) (w : Metrics) :
    (events.foldl Metrics.apply w).warningLog =
      w.warningLog.addAll PrecisionLoss.key (events.filterMap Event.loss) := by
  induction events generalizing w with
  | nil => rfl
  | cons ev events ih =>
    rw [List.foldl_cons, ih, apply_warningLog, ← OnceLog.addAll_append]
    cases h : ev.loss <;> simp [h]

/-! ### Runs -/

/-- The losses of an attempt, in plan order; none unless it completes. -/
def Attempt.losses (d : Deps) (x : Exporter) (a : Attempt) : List PrecisionLoss :=
  match a.results x with
  | some (_, results) => (x.plan.entries.flatMap (Entry.events d results)).filterMap Event.loss
  | none => []

theorem runScrape_warningLog {x : Exporter} (hwf : x.plan.WellFormed) (a : Attempt) (w : Metrics) :
    (runScrape d x a w).1.warningLog =
      w.warningLog.addAll PrecisionLoss.key (a.losses d x) := by
  rw [runScrape_reading hwf a w Metrics.warningLog (fun _ _ => rfl) rfl, Attempt.losses]
  cases a.results x with
  | none => rfl
  | some r => exact foldl_apply_warningLog _ w

theorem run_warningLog {x : Exporter} (hwf : x.plan.WellFormed) (attempts : List Attempt)
    (w : Metrics) : (run d x attempts w).warningLog =
      w.warningLog.addAll PrecisionLoss.key (attempts.flatMap (Attempt.losses d x)) := by
  induction attempts generalizing w with
  | nil => rfl
  | cons a attempts ih =>
    rw [run_cons hwf, ih, runScrape_warningLog hwf, List.flatMap_cons, OnceLog.addAll_append]

/-! ### Keys -/

theorem Address.format_length (a : Address) : a.format.toList.length = 42 := by
  have hhex : (hexEncode a.bytes).toList.length = 40 := by
    simp [hexEncode, List.length_flatMap, hexByte, a.length_eq]
  rw [Address.format, String.toList_append, List.length_append, hhex]
  rfl

theorem PrecisionLoss.key_toList (p : PrecisionLoss) :
    p.key.toList = p.metric.toList ++ ':' :: p.address.toList := by
  simp [PrecisionLoss.key, toString]

/-- Addresses have one length, so a key determines the metric and the address. -/
theorem PrecisionLoss.key_eq_iff {p p' : PrecisionLoss} {a a' : Address} (hp : p.address = a.format)
    (hp' : p'.address = a'.format) :
    p.key = p'.key ↔ p.metric = p'.metric ∧ p.address = p'.address := by
  constructor
  · intro h
    have hl := congrArg String.toList h
    rw [key_toList, key_toList] at hl
    have hlen : (':' :: p.address.toList).length = (':' :: p'.address.toList).length := by
      rw [List.length_cons, List.length_cons, hp, hp', a.format_length, a'.format_length]
    obtain ⟨hmetric, haddr⟩ := List.append_inj' hl hlen
    exact ⟨String.toList_injective hmetric, String.toList_injective (List.cons.inj haddr).2⟩
  · rintro ⟨hmetric, haddr⟩
    rw [PrecisionLoss.key, hmetric, haddr]
    rfl

/-- Some completed attempt has decoded an entry of the metric and the address with loss of
precision. -/
def PrecisionLost (d : Deps) (x : Exporter) (attempts : List Attempt) (metric : String)
    (addr : Address) : Prop :=
  ∃ a ∈ attempts, ∃ n results, a.results x = some (n, results) ∧
    ∃ e ∈ x.plan.entries, e.metricName = metric ∧ e.address = addr ∧
      ∃ v, e.sample d results = some (v, true)

theorem Entry.mem_losses {results : List CallResult} {e : Entry} {p : PrecisionLoss} :
    p ∈ (e.events d results).filterMap Event.loss ↔
      p = ⟨e.metricName, e.contractName, e.functionName, e.address.format⟩ ∧
        ∃ v, e.sample d results = some (v, true) := by
  unfold Entry.events
  split
  next value loss h => cases loss <;> simp [h, Event.loss, eq_comm]
  next h => simp [h, Event.loss, Entry.callErrorEvent]

/-- The losses of an attempt are those of the entries it has decoded. -/
theorem Attempt.mem_losses {x : Exporter} {a : Attempt} {p : PrecisionLoss} :
    p ∈ a.losses d x ↔ ∃ n results, a.results x = some (n, results) ∧ ∃ e ∈ x.plan.entries,
      p = ⟨e.metricName, e.contractName, e.functionName, e.address.format⟩ ∧
        ∃ v, e.sample d results = some (v, true) := by
  unfold Attempt.losses
  cases h : a.results x with
  | none => simp
  | some r =>
    obtain ⟨n, results⟩ := r
    simp only [List.filterMap_flatMap, List.mem_flatMap, Entry.mem_losses, Option.some.injEq,
      Prod.mk.injEq, exists_and_left, and_assoc, exists_eq_left']

theorem precisionLost_iff {x : Exporter} {attempts : List Attempt} {metric : String}
    {addr : Address} : PrecisionLost d x attempts metric addr ↔
      ∃ p ∈ attempts.flatMap (Attempt.losses d x), p.metric = metric ∧ p.address = addr.format := by
  simp only [PrecisionLost, List.mem_flatMap, Attempt.mem_losses]
  constructor
  · rintro ⟨a, ha, n, results, hres, e, he, rfl, rfl, hloss⟩
    exact ⟨_, ⟨a, ha, n, results, hres, e, he, rfl, hloss⟩, rfl, rfl⟩
  · rintro ⟨p, ⟨a, ha, n, results, hres, e, he, rfl, hloss⟩, hmetric, haddr⟩
    exact ⟨a, ha, n, results, hres, e, he, hmetric, Address.format_injective haddr, hloss⟩

/-- Over a run the warnings about a metric at an address are one, if some completed attempt has
lost precision on one of its entries, and none otherwise. -/
theorem precision_loss_warned_once (hb : build d cfg registry = .ok (plan, registry'))
    (attempts : List Attempt) (metric : String) (addr : Address) :
    (PrecisionLost d ⟨cfg, plan⟩ attempts metric addr →
      (run d ⟨cfg, plan⟩ attempts .initial).precisionLossWarnings.countP
        (fun p => p.metric = metric ∧ p.address = addr.format) = 1) ∧
    (¬ PrecisionLost d ⟨cfg, plan⟩ attempts metric addr →
      (run d ⟨cfg, plan⟩ attempts .initial).precisionLossWarnings.countP
        (fun p => p.metric = metric ∧ p.address = addr.format) = 0) := by
  let x : Exporter := ⟨cfg, plan⟩
  let losses := attempts.flatMap (Attempt.losses d x)
  let pair : PrecisionLoss := ⟨metric, "", "", addr.format⟩
  have hlog : (run d x attempts .initial).warningLog = OnceLog.empty.addAll PrecisionLoss.key losses :=
    run_warningLog (build_wellFormed hb) attempts .initial
  have hkey : ∀ p ∈ losses, (p.key = pair.key ↔ p.metric = metric ∧ p.address = addr.format) := by
    intro p hp
    obtain ⟨a, -, hp⟩ := List.mem_flatMap.mp hp
    obtain ⟨-, -, -, e, -, rfl, -⟩ := Attempt.mem_losses.mp hp
    exact PrecisionLoss.key_eq_iff rfl rfl
  have hcount : (run d x attempts .initial).precisionLossWarnings.countP
      (fun p => p.metric = metric ∧ p.address = addr.format) =
        if pair.key ∈ losses.map PrecisionLoss.key then 1 else 0 := by
    rw [← OnceLog.countP_addAll, ← hlog]
    refine List.countP_congr fun p hp => ?_
    have hin : p ∈ losses := by
      rw [show (run d x attempts .initial).precisionLossWarnings =
        (run d x attempts .initial).warningLog.items from rfl, hlog] at hp
      exact (OnceLog.mem_items_addAll hp).resolve_left (by simp [OnceLog.empty])
    simp only [decide_eq_true_eq, hkey p hin]
  have hmem : pair.key ∈ losses.map PrecisionLoss.key ↔ PrecisionLost d x attempts metric addr := by
    rw [precisionLost_iff, List.mem_map]
    exact exists_congr fun p => and_congr_right fun hp => hkey p hp
  rw [hcount, ← hmem]
  exact ⟨fun h => if_pos h, fun h => if_neg h⟩

/-- An attempt in which the supply is the largest there is. -/
def hugeSupply : Attempt := steadyAttempt ⟨true, List.replicate 32 0xff⟩ .one

/-- Two attempts lose precision on the supply, and one warning tells of it. -/
theorem huge_supply_warned_once :
    ∃ cfg plan registry, build reference cfg [] = .ok (plan, registry) ∧
      ∃ addr : Address, addr.format = Reference.tokenAddress ∧
        (run reference ⟨cfg, plan⟩ [hugeSupply, hugeSupply] .initial).precisionLossWarnings.countP
          (fun p => p.metric = "token_total_supply" ∧ p.address = addr.format) = 1 := by
  let addr : Address := ⟨List.replicate 19 0 ++ [0xaa], rfl⟩
  obtain ⟨cfg, plan, registry, -, hb, h⟩ := Reference.of_check Reference.supplyConfig
    (fun cfg plan => (hugeSupply.results ⟨cfg, plan⟩).any fun r => plan.entries.any fun e =>
      e.metricName = "token_total_supply" ∧ e.address = addr ∧
        (e.sample reference r.2).map Prod.snd = some true) (by decide +kernel)
  have hlost : PrecisionLost reference ⟨cfg, plan⟩ [hugeSupply, hugeSupply] "token_total_supply"
      addr := by
    simp only [Option.any_eq_true, List.any_eq_true, decide_eq_true_eq,
      Option.map_eq_some_iff] at h
    obtain ⟨⟨n, results⟩, hres, e, he, hname, haddr, ⟨v, loss⟩, hsample, rfl⟩ := h
    exact ⟨hugeSupply, by simp, n, results, hres, e, he, hname, haddr, v, hsample⟩
  exact ⟨cfg, plan, registry, hb, addr, by decide,
    (precision_loss_warned_once hb _ _ addr).1 hlost⟩

end EvmExporter
