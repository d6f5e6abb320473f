import EvmExporter.Exporter.ContractValues

/-! What is shown after a complete reading does not depend on what was shown before. When every
row reads a value at a block, the gauges after it are those of that block alone: an exporter
that was restarted, or that has missed any number of scrapes, shows the same gauges as one
that has not, from its first complete reading of the same block on. -/

namespace EvmExporter

open Lib

variable {d : Deps} {cfg : Config} {plan : Plan} {registry registry' : Registry} {rs : List Row}
  {o o' : Readings} {chain : Multicall.Chain} {n : ℕ} {series : Series}

/-- A series that a row of the list reads a value for, or that holds the same already, holds the
same after the list is read. -/
theorem foldl_read_same (rs l : List Row)
    (h : (∃ r ∈ l, r.series cfg rs = series ∧ (r.sample d chain n).isSome) ∨
      o.values series = o'.values series) :
    (l.foldl (Readings.read d cfg rs chain n) o).values series =
      (l.foldl (Readings.read d cfg rs chain n) o').values series := by
  induction l generalizing o o' with
  | nil => exact h.resolve_left (by simp)
  | cons a l ih =>
    rw [List.foldl_cons, List.foldl_cons]
    apply ih
    rcases h with ⟨r, hr, hseries, hsome⟩ | hsame
    · rcases List.mem_cons.mp hr with rfl | hr
      · obtain ⟨p, hp⟩ := Option.isSome_iff_exists.mp hsome
        exact .inr (by simp [read_values, hseries, hp])
      · exact .inl ⟨r, hr, hseries, hsome⟩
    · exact .inr (by rw [read_values, read_values, hsame])

theorem readAt_append (cfg : Config) (rs : List Row) (chain : Multicall.Chain) (o : Readings)
    (blocks : List ℕ) (n : ℕ) : o.readAt d cfg rs chain (blocks ++ [n]) =
      rs.foldl (Readings.read d cfg rs chain n) (o.readAt d cfg rs chain blocks) := by
  rw [Readings.readAt, List.foldl_append]
  rfl

/-- A series of no row is never set. -/
theorem readAt_values_of_absent (habsent : ∀ r ∈ rs, r.series cfg rs ≠ series) (blocks : List ℕ) :
    (o.readAt d cfg rs chain blocks).values series = o.values series := by
  have hrows : ∀ (l : List Row) (o : Readings) (n : ℕ), (∀ r ∈ l, r.series cfg rs ≠ series) →
      (l.foldl (Readings.read d cfg rs chain n) o).values series = o.values series := by
    intro l
    induction l with
    | nil => exact fun _ _ _ => rfl
    | cons a l ih =>
      intro o n hl
      obtain ⟨ha, hl⟩ := List.forall_mem_cons.mp hl
      rw [List.foldl_cons, ih _ n hl, read_values, if_neg ha]
  induction blocks generalizing o with
  | nil => rfl
  | cons n blocks ih =>
    rw [Readings.readAt, List.foldl_cons, ← Readings.readAt, ih, hrows rs o n habsent]

/-- Two readers that end with the same complete block hold the same values. -/
theorem readAt_values_same (hall : ∀ r ∈ rs, (r.sample d chain n).isSome) (blocks blocks' : List ℕ) :
    (Readings.empty.readAt d cfg rs chain (blocks ++ [n])).values =
      (Readings.empty.readAt d cfg rs chain (blocks' ++ [n])).values := by
  funext series
  rw [readAt_append, readAt_append]
  apply foldl_read_same
  by_cases hrow : ∃ r ∈ rs, r.series cfg rs = series
  · obtain ⟨r, hr, hseries⟩ := hrow
    exact .inl ⟨r, hr, hseries, hall r hr⟩
  · push Not at hrow
    exact .inr (by rw [readAt_values_of_absent hrow, readAt_values_of_absent hrow])

/-- The gauges forget their history. Take any two runs of one exporter, over any drivers, against
truthful nodes of one chain, whose last completed blocks are the same. If every row reads a
value there, the two show the same gauges, whatever came before in either and however many
scrapes have failed since. -/
theorem gauges_forget_history (hb : build d cfg registry = .ok (plan, registry'))
    (chain : Multicall.Chain) (drv drv' : Multicall.Driver) {acts acts' : List RunAct}
    {s s' : RunState} (h : execute (RunState.step d ⟨cfg, plan⟩) .initial acts = some s)
    (h' : execute (RunState.step d ⟨cfg, plan⟩) .initial acts' = some s')
    {lives lives' : List LiveAttempt}
    (hlives : acts.filterMap RunAct.attempt? = lives.map fun l => l.attempt drv)
    (hlives' : acts'.filterMap RunAct.attempt? = lives'.map fun l => l.attempt drv')
    (hnode : ∀ l ∈ lives, Multicall.TimedNode.Truthful l.chunk chain)
    (hnode' : ∀ l ∈ lives', Multicall.TimedNode.Truthful l.chunk chain) {n : ℕ}
    (hlast : (lives.filterMap fun l => l.completedAt drv ⟨cfg, plan⟩).getLast? = some n)
    (hlast' : (lives'.filterMap fun l => l.completedAt drv' ⟨cfg, plan⟩).getLast? = some n)
    (hall : ∀ sites, sitesOf d cfg = .ok sites → ∀ r ∈ rows sites, (r.sample d chain n).isSome) :
    s.metrics.gauges = s'.metrics.gauges := by
  obtain ⟨sites, hsites, rfl⟩ := build_eq_planOf hb
  obtain ⟨blocks, hblocks⟩ := List.getLast?_eq_some_iff.mp hlast
  obtain ⟨blocks', hblocks'⟩ := List.getLast?_eq_some_iff.mp hlast'
  rw [(execution_shows h hlives hnode).gauges, (execution_shows h' hlives' hnode').gauges, hblocks,
    hblocks']
  exact readAt_values_same (hall sites hsites) blocks blocks'

/-- It has been running since block 50. -/
def longActs : List RunAct :=
  [.scrapeReturned ((servedAttempt sevenChain 50).attempt multicall3), .firstTick,
    .intervalElapsed, .selectTick,
    .scrapeReturned ((servedAttempt sevenChain 100).attempt multicall3)]

/-- It has just been started. -/
def restartedActs : List RunAct :=
  [.scrapeReturned ((servedAttempt sevenChain 100).attempt multicall3)]

theorem restarted_shows_same :
    ∃ cfg plan registry s s', build reference cfg [] = .ok (plan, registry) ∧
      plan.entries.length = 1 ∧
      execute (RunState.step reference ⟨cfg, plan⟩) .initial longActs = some s ∧
      execute (RunState.step reference ⟨cfg, plan⟩) .initial restartedActs = some s' ∧
      s.metrics.gauges = s'.metrics.gauges := by
  have hplan : (planSites reference halfMinuteConfig).toOption.any
      (fun (cfg, sites, plan, _) => plan.entries.length = 1 &&
        (rows sites).all (fun r => (r.sample reference sevenChain 100).isSome) &&
        (execute (RunState.step reference ⟨cfg, plan⟩) .initial longActs).isSome &&
        (execute (RunState.step reference ⟨cfg, plan⟩) .initial restartedActs).isSome &&
        [50, 100].all (fun n => (servedAttempt sevenChain n).completedAt multicall3 ⟨cfg, plan⟩ =
          some n)) = true := by
    decide +kernel
  obtain ⟨⟨cfg, sites, plan, registry⟩, hok, h⟩ := (Option.any_eq_true _ _).mp hplan
  obtain ⟨-, hsites, hb⟩ := planSites_eq_ok (toOption_eq_some.mp hok)
  simp only [Bool.and_eq_true, decide_eq_true_eq, List.all_eq_true] at h
  obtain ⟨⟨⟨⟨hone, hall⟩, hs⟩, hs'⟩, hblocks⟩ := h
  obtain ⟨s, hs⟩ := Option.isSome_iff_exists.mp hs
  obtain ⟨s', hs'⟩ := Option.isSome_iff_exists.mp hs'
  have hnode : ∀ n, Multicall.TimedNode.Truthful (servedAttempt sevenChain n).chunk sevenChain :=
    fun n => (servedAttempt_served sevenChain n).truthful
  have hlong : longActs.filterMap RunAct.attempt? =
      [servedAttempt sevenChain 50, servedAttempt sevenChain 100].map
        fun l => l.attempt multicall3 := rfl
  have hrestarted : restartedActs.filterMap RunAct.attempt? =
      [servedAttempt sevenChain 100].map fun l => l.attempt multicall3 := rfl
  have hsame := gauges_forget_history hb sevenChain multicall3 multicall3 hs hs' hlong hrestarted
    (n := 100) (by simp [hnode]) (by simp [hnode]) (by simp [hblocks]) (by simp [hblocks]) ?_
  · exact ⟨cfg, plan, registry, s, s', hb, hone, hs, hs', hsame⟩
  · intro sites' hsites' r hr
    obtain rfl := Except.ok.inj (hsites.symm.trans hsites')
    exact hall r hr

end EvmExporter
