import EvmExporter.Exporter.Freshness
import EvmExporter.Exporter.SharedCalls
import EvmExporter.Planner.Labels
import Mathlib.Data.Finset.Card

/-! The counter of call errors. It is raised in the loop over the entries, once for each entry
that is not read. So it counts calls only as long as no two failing entries of one contract,
function and address read the same call, as outputs of one function do. -/

namespace EvmExporter

open Lib

variable {d : Deps} {cfg raw : Config} {baseDir : String} {plan : Plan}
  {registry registry' : Registry}

/-- The labels of the counter: contract, function and address. -/
def Entry.errorLabels (e : Entry) : String × String × String :=
  (e.contractName, e.functionName, e.address.format)

def Plan.entriesOf (plan : Plan) (labels : String × String × String) : List Entry :=
  plan.entries.filter fun e => e.errorLabels = labels

/-! ### What is counted -/

/-- The counter an event raises. -/
def Event.errorLabels : Event → Option (String × String × String)
  | .callError contract function address => some (contract, function, address)
  | _ => none

theorem foldl_apply_callErrors (events : List Event) (w : Metrics)
    (labels : String × String × String) :
    (events.foldl Metrics.apply w).callErrorsTotal labels =
      w.callErrorsTotal labels + (events.filterMap Event.errorLabels).count labels := by
  induction events generalizing w with
  | nil => rfl
  | cons ev events ih =>
    rw [List.foldl_cons, ih]
    cases ev with
    | setGauge series value => rfl
    | callError contract function address =>
      simp only [Metrics.apply, List.filterMap_cons, Event.errorLabels, List.count_cons,
        Function.update_apply]
      by_cases h : labels = (contract, function, address)
      · subst h
        simp
        omega
      · simp [h, Ne.symm h]
    | precisionLoss p => simp [Metrics.apply, Event.errorLabels, List.filterMap_cons]

/-- The entries that are not read. -/
def Entry.fails (d : Deps) (results : List CallResult) (e : Entry) : Bool :=
  (e.sample d results).isNone

theorem events_errorLabels (results : List CallResult) (e : Entry) :
    (e.events d results).filterMap Event.errorLabels =
      if e.fails d results then [e.errorLabels] else [] := by
  unfold Entry.events Entry.fails
  split
  next value loss h => cases loss <;> simp [h, Event.errorLabels]
  next h => simp [h, Event.errorLabels, Entry.callErrorEvent, Entry.errorLabels]

/-- The counter is raised once for each failing entry of its labels. -/
theorem count_errorLabels (entries : List Entry) (results : List CallResult)
    (labels : String × String × String) :
    ((entries.flatMap (Entry.events d results)).filterMap Event.errorLabels).count labels =
      ((entries.filter fun e => e.errorLabels = labels).filter (Entry.fails d results)).length := by
  induction entries with
  | nil => rfl
  | cons e entries ih =>
    rw [List.flatMap_cons, List.filterMap_append, List.count_append, ih, events_errorLabels]
    by_cases hlabels : e.errorLabels = labels <;> by_cases hfails : e.fails d results
    all_goals simp [hlabels, hfails, Nat.add_comm]

/-! ### Calls -/

/-- The call has reverted, or an entry that reads it cannot be decoded. -/
def CallFailed (d : Deps) (entries : List Entry) (results : List CallResult) (i : ℕ) : Bool :=
  (results[i]?).any fun r => ! r.success ||
    entries.any fun e => e.callIndex = i && (decode d r.returnData e.decode).toOption.isNone

/-- The calls that the entries read and that have failed for them. -/
def failedCalls (d : Deps) (entries : List Entry) (results : List CallResult) : Finset ℕ :=
  ((entries.map Entry.callIndex).toFinset).filter fun i => CallFailed d entries results i

theorem fails_iff {results : List CallResult} {e : Entry} {r : CallResult}
    (hr : results[e.callIndex]? = some r) : e.fails d results ↔
      r.success = false ∨ (decode d r.returnData e.decode).toOption = none := by
  rw [Entry.fails, Entry.sample, hr, Option.bind_some]
  cases r.success <;> simp

theorem callFailed_iff {entries : List Entry} {results : List CallResult} {i : ℕ} {r : CallResult}
    (hr : results[i]? = some r) : CallFailed d entries results i ↔ r.success = false ∨
      ∃ e ∈ entries, e.callIndex = i ∧ (decode d r.returnData e.decode).toOption = none := by
  simp [CallFailed, hr]

/-- The calls that have failed are those of the failing entries. -/
theorem failedCalls_eq {entries : List Entry} {results : List CallResult}
    (hidx : ∀ e ∈ entries, e.callIndex < results.length) :
    failedCalls d entries results =
      ((entries.filter (Entry.fails d results)).map Entry.callIndex).toFinset := by
  ext i
  simp only [failedCalls, Finset.mem_filter, List.mem_toFinset, List.mem_map, List.mem_filter]
  constructor
  · rintro ⟨⟨e, he, rfl⟩, hfailed⟩
    have hget := List.getElem?_eq_getElem (hidx e he)
    rcases (callFailed_iff hget).mp hfailed with hs | ⟨e', he', hcall, hdecode⟩
    · exact ⟨e, ⟨he, (fails_iff hget).mpr (.inl hs)⟩, rfl⟩
    · have hget' : results[e'.callIndex]? = some _ := (congrArg _ hcall).trans hget
      exact ⟨e', ⟨he', (fails_iff hget').mpr (.inr hdecode)⟩, hcall⟩
  · rintro ⟨e, ⟨he, hfail⟩, rfl⟩
    have hget := List.getElem?_eq_getElem (hidx e he)
    refine ⟨⟨e, he, rfl⟩, (callFailed_iff hget).mpr ?_⟩
    rcases (fails_iff hget).mp hfail with hs | hdecode
    · exact .inl hs
    · exact .inr ⟨e, he, rfl, hdecode⟩

/-- As many as the failing entries, exactly when these read different calls. -/
theorem card_failedCalls_iff {entries : List Entry} {results : List CallResult}
    (hidx : ∀ e ∈ entries, e.callIndex < results.length) :
    (failedCalls d entries results).card = (entries.filter (Entry.fails d results)).length ↔
      ((entries.filter (Entry.fails d results)).map Entry.callIndex).Nodup := by
  rw [failedCalls_eq hidx, ← List.length_map (f := Entry.callIndex)]
  exact Multiset.toFinset_card_eq_card_iff_nodup (m := Multiset.ofList _)

/-! ### Attempts -/

/-- A completed attempt raises the counter by the failing entries of its labels. -/
theorem runScrape_callErrors {x : Exporter} (hwf : x.plan.WellFormed) {a : Attempt} {n : ℕ}
    {results : List CallResult} (hres : a.results x = some (n, results)) (w : Metrics)
    (labels : String × String × String) :
    (runScrape d x a w).1.callErrorsTotal labels = w.callErrorsTotal labels +
      ((x.plan.entriesOf labels).filter (Entry.fails d results)).length := by
  rw [runScrape_reading hwf a w (fun w => w.callErrorsTotal labels) (fun _ _ => rfl) rfl, hres]
  change ((x.plan.entries.flatMap (Entry.events d results)).foldl Metrics.apply w).callErrorsTotal
    labels = _
  rw [foldl_apply_callErrors, count_errorLabels]
  rfl

/-- The attempt raises the counter by the number of calls that have failed for its labels. -/
def CountsCalls (d : Deps) (x : Exporter) (a : Attempt) (results : List CallResult) (w : Metrics)
    (labels : String × String × String) : Prop :=
  (runScrape d x a w).1.callErrorsTotal labels = w.callErrorsTotal labels +
    (failedCalls d (x.plan.entriesOf labels) results).card

theorem countsCalls_iff {x : Exporter} (hwf : x.plan.WellFormed) {a : Attempt} {n : ℕ}
    {results : List CallResult} (hres : a.results x = some (n, results)) (w : Metrics)
    (labels : String × String × String) : CountsCalls d x a results w labels ↔
      (((x.plan.entriesOf labels).filter (Entry.fails d results)).map Entry.callIndex).Nodup := by
  have hidx : ∀ e ∈ x.plan.entriesOf labels, e.callIndex < results.length := by
    intro e he
    rw [Attempt.results_length hres]
    exact hwf.index_lt e (List.mem_of_mem_filter he)
  rw [CountsCalls, runScrape_callErrors hwf hres, Nat.add_left_cancel_iff, eq_comm,
    card_failedCalls_iff hidx]

/-- When every call reverts, every entry fails. -/
theorem steady_revert_fails {x : Exporter} (hwf : x.plan.WellFormed) (now : F64) :
    ∃ n results, (steadyAttempt ⟨false, []⟩ now).results x = some (n, results) ∧
      ∀ e ∈ x.plan.entries, e.fails d results := by
  refine ⟨100, x.plan.calls.map fun _ => ⟨false, []⟩, by simp [Attempt.results, steadyAttempt], ?_⟩
  intro e he
  simp [Entry.fails, Entry.sample, hwf.index_lt e he]

/-- A completed scrape counts the calls that have failed for a contract, a function and an
address exactly when the failing entries of these read different calls. It does so whatever
the calls return exactly when all entries of each contract, function and address do. -/
theorem call_errors_count_iff (hb : build d cfg registry = .ok (plan, registry')) :
    (∀ a n results, a.results ⟨cfg, plan⟩ = some (n, results) → ∀ w labels,
      (CountsCalls d ⟨cfg, plan⟩ a results w labels ↔
        (((plan.entriesOf labels).filter (Entry.fails d results)).map Entry.callIndex).Nodup)) ∧
    ((∀ a n results, a.results ⟨cfg, plan⟩ = some (n, results) → ∀ w labels,
      CountsCalls d ⟨cfg, plan⟩ a results w labels) ↔
        ∀ labels, ((plan.entriesOf labels).map Entry.callIndex).Nodup) := by
  have hwf : (⟨cfg, plan⟩ : Exporter).plan.WellFormed := build_wellFormed hb
  refine ⟨fun a n results hres w labels => countsCalls_iff hwf hres w labels, ?_, ?_⟩
  · intro h labels
    obtain ⟨n, results, hres, hfails⟩ := steady_revert_fails (d := d) hwf .one
    have hall : (plan.entriesOf labels).filter (Entry.fails d results) = plan.entriesOf labels :=
      List.filter_eq_self.mpr fun e he => hfails e (List.mem_of_mem_filter he)
    have hnodup := (countsCalls_iff hwf hres .initial labels).mp (h _ n results hres _ labels)
    change (((plan.entriesOf labels).filter (Entry.fails d results)).map Entry.callIndex).Nodup
      at hnodup
    rwa [hall] at hnodup
  · intro h a n results hres w labels
    refine (countsCalls_iff hwf hres w labels).mpr ((h labels).sublist ?_)
    exact List.filter_sublist.map _

/-- One call reverts, and two entries that read it raise the counter by two. -/
theorem shared_revert_counted_twice :
    ∃ cfg plan registry, validate reference "." supplyTwice = .ok cfg ∧
      build reference cfg [] = .ok (plan, registry) ∧
      ∃ n results, (steadyAttempt ⟨false, []⟩ .one).results ⟨cfg, plan⟩ = some (n, results) ∧
        (failedCalls reference
          (plan.entriesOf ("token", "totalSupply", Reference.tokenAddress)) results).card = 1 ∧
        (runScrape reference ⟨cfg, plan⟩ (steadyAttempt ⟨false, []⟩ .one) .initial).1.callErrorsTotal
          ("token", "totalSupply", Reference.tokenAddress) = 2 := by
  obtain ⟨cfg, plan, registry, hv, hb, h⟩ := Reference.of_check supplyTwice
    (fun cfg plan =>
      ((steadyAttempt ⟨false, []⟩ .one).results ⟨cfg, plan⟩).any fun r =>
        (failedCalls reference
          (plan.entriesOf ("token", "totalSupply", Reference.tokenAddress)) r.2).card = 1 ∧
        (runScrape reference ⟨cfg, plan⟩ (steadyAttempt ⟨false, []⟩ .one) .initial).1.callErrorsTotal
          ("token", "totalSupply", Reference.tokenAddress) = 2) (by decide +kernel)
  obtain ⟨⟨n, results⟩, hres, hboth⟩ := (Option.any_eq_true _ _).mp h
  obtain ⟨hcard, hcount⟩ := of_decide_eq_true hboth
  exact ⟨cfg, plan, registry, hv, hb, n, results, hres, hcard, hcount⟩

/-- Two entries of one contract, function and address that read two calls: both revert, and the
counter is raised by two. -/
theorem two_reverts_counted :
    ∃ cfg plan registry n results, validate reference "." twoHolders = .ok cfg ∧
      build reference cfg [] = .ok (plan, registry) ∧
      (steadyAttempt ⟨false, []⟩ .one).results ⟨cfg, plan⟩ = some (n, results) ∧
      (failedCalls reference
        (plan.entriesOf ("token", "balanceOf", Reference.tokenAddress)) results).card = 2 ∧
      (runScrape reference ⟨cfg, plan⟩ (steadyAttempt ⟨false, []⟩ .one) .initial).1.callErrorsTotal
        ("token", "balanceOf", Reference.tokenAddress) = 2 := by
  obtain ⟨cfg, plan, registry, hv, hb, h⟩ := Reference.of_check twoHolders
    (fun cfg plan => (plan.entries.map Entry.callIndex).Nodup &&
      ((steadyAttempt ⟨false, []⟩ .one).results ⟨cfg, plan⟩).any fun r =>
        (failedCalls reference
          (plan.entriesOf ("token", "balanceOf", Reference.tokenAddress)) r.2).card = 2)
    (by decide +kernel)
  rw [Bool.and_eq_true, Option.any_eq_true] at h
  obtain ⟨hnodup, ⟨n, results⟩, hres, hcard⟩ := h
  have hcard := of_decide_eq_true hcard
  have hlabels : ∀ labels, ((plan.entriesOf labels).map Entry.callIndex).Nodup := fun labels =>
    (of_decide_eq_true hnodup).sublist (List.filter_sublist.map _)
  have hcount := (call_errors_count_iff hb).2.mpr hlabels _ n results hres .initial
    ("token", "balanceOf", Reference.tokenAddress)
  rw [CountsCalls, hcard] at hcount
  exact ⟨cfg, plan, registry, n, results, hv, hb, hres, hcard, hcount⟩

end EvmExporter
