import EvmExporter.Exporter.Startup
import EvmExporter.Planner.Handed
import EvmExporter.Planner.Reorder

/-! The start does not depend on the order in which hash maps are iterated. The planner
registers its gauges in that order and does nothing else in it; gauges of distinct names do
not get in each other's way, so the same configuration starts in every order or in none, with
the same plan and the same collectors. -/

namespace EvmExporter

open Lib

variable {d : Deps} {order : List String → List String} {hperm : ∀ keys, (order keys).Perm keys}
  {cfg : Config}

/-! ### Outcomes -/

/-- The order in which collectors have been registered has no part in what a registry does. -/
def PrometheusLibrary.IgnoresRegistrationOrder (lib : PrometheusLibrary) : Prop :=
  ∀ (registry registry' : Registry) desc, registry.Perm registry' →
    lib.register registry desc = lib.register registry' desc

/-- The same outcome, up to the order of registration and to which error of a kind is the one
reported. -/
inductive SameOutcome {α : Type} (kind : Error → Prop) :
    Except Error (α × Registry) → Except Error (α × Registry) → Prop where
  | ok (a : α) {registry registry' : Registry} (h : registry.Perm registry') :
      SameOutcome kind (.ok (a, registry)) (.ok (a, registry'))
  | error (e : Error) : SameOutcome kind (.error e) (.error e)
  | errors {e e' : Error} (he : kind e) (he' : kind e') : SameOutcome kind (.error e) (.error e')

namespace SameOutcome

variable {α β : Type} {kind kind' : Error → Prop} {x x' : Except Error (α × Registry)}

theorem bind {f f' : α × Registry → Except Error (β × Registry)} (hx : SameOutcome kind x x')
    (hf : ∀ a registry registry', registry.Perm registry' →
      SameOutcome kind (f (a, registry)) (f' (a, registry'))) :
    SameOutcome kind (x >>= f) (x' >>= f') := by
  cases hx with
  | ok a h => exact hf a _ _ h
  | error e => exact .error e
  | errors he he' => exact .errors he he'

/-- A step that both take alike. -/
theorem same_bind {γ : Type} {y : Except Error γ} {f f' : γ → Except Error (β × Registry)}
    (hf : ∀ c, SameOutcome kind (f c) (f' c)) : SameOutcome kind (y >>= f) (y >>= f') := by
  cases y with
  | ok c => exact hf c
  | error e => exact .error e

theorem mapError {g : Error → Error} (hx : SameOutcome kind x x') (hg : ∀ e, kind e → kind' (g e)) :
    SameOutcome kind' (x.mapError g) (x'.mapError g) := by
  cases hx with
  | ok a h => exact .ok a h
  | error e => exact .error (g e)
  | errors he he' => exact .errors (hg _ he) (hg _ he')

end SameOutcome

/-! ### The planner -/

/-- Prometheus refuses a gauge. -/
inductive RefusedGauge : Error → Prop where
  | create (name cause : String) : RefusedGauge (.createGauge name cause)
  | register (name cause : String) : RefusedGauge (.registerGauge name cause)

theorem registerGauges_error (d : Deps) (acc : Acc) (names : List String)
    (s : Registry × AList fun _ : String => Family) :
    Ensures (fun _ => True) RefusedGauge (names.foldlM (registerGauge d acc) s) := by
  refine ensures_foldlM (I := fun _ => True) trivial fun name _ s _ => ?_
  obtain ⟨registry, families⟩ := s
  unfold registerGauge
  apply Ensures.bind (P := fun _ => True)
  · cases d.newDesc _ with
    | ok u => trivial
    | error cause => exact .create name cause
  · intro _ _ _
    apply Ensures.bind (P := fun _ => True)
    · cases d.register _ _ with
      | ok u => trivial
      | error cause => exact .register name cause
    · exact fun _ _ _ => trivial

/-- Two loops over the same names register all gauges or are both refused one. -/
theorem registerGauges_perm (hprom : d.IgnoresOtherNames) {acc : Acc} {names names' : List String}
    (hnd : names.Nodup) (h : names.Perm names') (registry : Registry) :
    (∃ s s', names.foldlM (registerGauge d acc) (registry, ∅) = .ok s ∧
        names'.foldlM (registerGauge d acc) (registry, ∅) = .ok s' ∧ s.1.Perm s'.1 ∧
        ∀ n ∈ names, s.2.lookup n = some (acc.family n) ∧ s'.2.lookup n = some (acc.family n)) ∨
      ∃ e e', names.foldlM (registerGauge d acc) (registry, ∅) = .error e ∧
        names'.foldlM (registerGauge d acc) (registry, ∅) = .error e' ∧ RefusedGauge e ∧
        RefusedGauge e' := by
  have hsucceeds : (∃ s, names.foldlM (registerGauge d acc) (registry, ∅) = .ok s) ↔
      ∃ s, names'.foldlM (registerGauge d acc) (registry, ∅) = .ok s := by
    rw [registerGauges_succeeds_iff hprom hnd, registerGauges_succeeds_iff hprom (h.nodup_iff.mp hnd)]
    simp only [h.mem_iff]
  have herror := registerGauges_error d acc names (registry, ∅)
  have herror' := registerGauges_error d acc names' (registry, ∅)
  cases hs : names.foldlM (registerGauge d acc) (registry, ∅) with
  | ok s =>
    obtain ⟨s', hs'⟩ := hsucceeds.mp ⟨s, hs⟩
    obtain ⟨hreg, hfam⟩ := registerGauges_eq_ok hs
    obtain ⟨hreg', hfam'⟩ := registerGauges_eq_ok hs'
    refine .inl ⟨s, s', rfl, hs', ?_, fun n hn => ⟨hfam n hn, hfam' n (h.mem_iff.mp hn)⟩⟩
    rw [hreg, hreg']
    exact ((List.reverse_perm _).trans ((h.map _).trans (List.reverse_perm _).symm)).append_right _
  | error e =>
    cases hs' : names'.foldlM (registerGauge d acc) (registry, ∅) with
    | ok s' =>
      obtain ⟨s, hok⟩ := hsucceeds.mpr ⟨s', hs'⟩
      cases hs.symm.trans hok
    | error e' => exact .inr ⟨e, e', rfl, rfl, herror.error hs, herror'.error hs'⟩

theorem build_withHashOrder (hprom : d.IgnoresOtherNames) (registry : Registry) :
    SameOutcome RefusedGauge (build (d.withHashOrder order hperm) cfg registry)
      (build d cfg registry) := by
  unfold build
  rw [buildContract_withHashOrder]
  cases hacc : cfg.contracts.foldlM (buildContract d cfg) .empty with
  | error e => exact .error e
  | ok acc =>
    obtain ⟨sites, -, hr⟩ := reflects_of_contracts hacc
    have hnames : (order acc.keysByMetric.keys).Perm (d.hashOrder acc.keysByMetric.keys) :=
      (hperm _).trans (d.hashOrder_perm _).symm
    have hnd : (order acc.keysByMetric.keys).Nodup := hnames.nodup_iff.mpr (hashOrder_nodup acc)
    have hmem : ∀ n ∈ acc.keysByMetric, n ∈ order acc.keysByMetric.keys := fun n hn =>
      (hperm _).mem_iff.mpr (AList.mem_keys.mp hn)
    change SameOutcome _
      ((order acc.keysByMetric.keys).foldlM (registerGauge d acc) (registry, ∅) >>= _)
      ((d.hashOrder acc.keysByMetric.keys).foldlM (registerGauge d acc) (registry, ∅) >>= _)
    rcases registerGauges_perm hprom hnd hnames registry with
      ⟨s, s', hs, hs', hregs, hfams⟩ | ⟨e, e', he, he', hrefused, hrefused'⟩
    · have hentries := hr.entries_eq fun n hn => (hfams n (hmem n hn)).1
      have hentries' := hr.entries_eq fun n hn => (hfams n (hmem n hn)).2
      rw [hs, hs']
      simp only [bind, Except.bind, hentries, hentries']
      exact .ok _ hregs
    · rw [he, he']
      exact .errors hrefused hrefused'

/-! ### The start -/

theorem SelfMetrics.register_perm (horder : d.IgnoresRegistrationOrder) (descs : List Desc)
    {registry registry' : Registry} (h : registry.Perm registry') :
    (∃ r r', descs.foldlM (SelfMetrics.register d) registry = .ok r ∧
        descs.foldlM (SelfMetrics.register d) registry' = .ok r' ∧ r.Perm r') ∨
      ∃ e, descs.foldlM (SelfMetrics.register d) registry = .error e ∧
        descs.foldlM (SelfMetrics.register d) registry' = .error e := by
  induction descs generalizing registry registry' with
  | nil => exact .inl ⟨_, _, rfl, rfl, h⟩
  | cons desc descs ih =>
    rw [List.foldlM_cons, List.foldlM_cons, SelfMetrics.register, SelfMetrics.register,
      horder registry registry' desc h]
    cases d.register registry' desc with
    | error cause => exact .inr ⟨_, rfl, rfl⟩
    | ok u => exact ih (h.cons desc)

theorem SelfMetrics.new_perm (horder : d.IgnoresRegistrationOrder) (labels : Labels)
    {registry registry' : Registry} (h : registry.Perm registry') :
    (∃ r r', SelfMetrics.new d labels registry = .ok r ∧
        SelfMetrics.new d labels registry' = .ok r' ∧ r.Perm r') ∨
      ∃ e, SelfMetrics.new d labels registry = .error e ∧
        SelfMetrics.new d labels registry' = .error e := by
  unfold SelfMetrics.new
  cases (SelfMetrics.descs labels).forM (SelfMetrics.create d) with
  | error e => exact .inr ⟨e, rfl, rfl⟩
  | ok u => exact SelfMetrics.register_perm horder _ h

/-- The planner is refused a gauge. -/
def PlanRefused (e : Error) : Prop := ∃ cause, RefusedGauge cause ∧ e = .context .plannerBuild cause

/-- An exporter starts with every order of iteration or with none: with the same configuration
and plan and the same collectors, but for the order of their registration; and where it does
not start, the error is the same but for which of the refused gauges it names. -/
theorem start_ignores_hash_order (hnames : d.IgnoresOtherNames) (horder : d.IgnoresRegistrationOrder)
    (order : List String → List String) (hperm : ∀ keys, (order keys).Perm keys) (cfg : Config)
    (chainId block : Except Error ℕ) :
    SameOutcome PlanRefused (newWithDeps (d.withHashOrder order hperm) cfg chainId block)
      (newWithDeps d cfg chainId block) := by
  unfold newWithDeps
  refine .same_bind fun got => .same_bind fun _ => .same_bind fun _ => ?_
  refine SameOutcome.bind (?_ : SameOutcome PlanRefused _ _) ?_
  · exact (build_withHashOrder hnames []).mapError fun e he => ⟨e, he, rfl⟩
  · intro plan registry registry' hregs
    rcases SelfMetrics.new_perm horder cfg.labels hregs with ⟨r, r', hr, hr', hperm⟩ | ⟨e, he, he'⟩
    · change SameOutcome _ ((SelfMetrics.new d cfg.labels registry).mapError _ >>= _)
        ((SelfMetrics.new d cfg.labels registry').mapError _ >>= _)
      rw [hr, hr']
      exact .ok _ hperm
    · change SameOutcome _ ((SelfMetrics.new d cfg.labels registry).mapError _ >>= _)
        ((SelfMetrics.new d cfg.labels registry').mapError _ >>= _)
      rw [he, he']
      exact .error _

theorem Reference.ignoresRegistrationOrder :
    reference.toPrometheusLibrary.IgnoresRegistrationOrder := by
  intro registry registry' desc h
  change Reference.register registry desc = Reference.register registry' desc
  have hany : (registry.any fun other => other.name = desc.name) =
      registry'.any fun other => other.name = desc.name := by
    rw [Bool.eq_iff_iff, List.any_eq_true, List.any_eq_true]
    simp only [h.mem_iff]
  rw [Reference.register, Reference.register, hany]

/-- Two gauges, registered in two orders. -/
theorem two_gauges_started :
    let reversed := reference.withHashOrder List.reverse List.reverse_perm
    ∃ cfg x registry registry', validate reference "." supplyAndDecimals = .ok cfg ∧
      newWithDeps reversed cfg (.ok 1) (.ok 100) = .ok (x, registry) ∧
      newWithDeps reference cfg (.ok 1) (.ok 100) = .ok (x, registry') ∧
      registry.map Desc.name ≠ registry'.map Desc.name ∧ registry.Perm registry' := by
  intro reversed
  obtain ⟨cfg, -, -, hv, -, h⟩ := Reference.of_check supplyAndDecimals
    (fun cfg _ => ((newWithDeps reversed cfg (.ok 1) (.ok 100)).toOption.bind fun p =>
      (newWithDeps reference cfg (.ok 1) (.ok 100)).toOption.map fun p' =>
        decide (p.2.map Desc.name ≠ p'.2.map Desc.name)) = some true) (by decide +kernel)
  simp only [decide_eq_true_eq, Option.bind_eq_some_iff, Option.map_eq_some_iff,
    toOption_eq_some] at h
  obtain ⟨⟨x, registry⟩, hr, ⟨x', registry'⟩, hr', hne⟩ := h
  have hsame := start_ignores_hash_order Reference.ignoresOtherNames
    Reference.ignoresRegistrationOrder List.reverse List.reverse_perm cfg (.ok 1) (.ok 100)
  rw [hr, hr'] at hsame
  cases hsame with
  | ok x hperm => exact ⟨cfg, x, registry, registry', hv, hr, hr', hne, hperm⟩

end EvmExporter
