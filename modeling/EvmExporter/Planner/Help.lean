import EvmExporter.Planner.Success
import EvmExporter.Planner.Totality

/-! Help texts. The planner notes one help text for each metric name and refuses a second one,
in the order in which the loops come to the outputs. What it refuses and what it registers do
not depend on that order: it refuses exactly where two places with an output of one name have
different help texts, and otherwise a name gets the help text of its places. -/

namespace EvmExporter

open Lib

variable {d : Deps} {cfg : Config}

/-! ### Refusal -/

/-- The error names a metric whose help texts conflict, if it reports a conflict. -/
def ReportsConflict (d : Deps) (cfg : Config) (e : Error) : Prop :=
  ∀ name, e = .conflictingHelp name → HelpConflict d cfg name

theorem reports_mapError {ε α : Type*} {x : Except ε α} {g : ε → Error}
    (hg : ∀ e name, g e ≠ .conflictingHelp name) :
    Ensures (fun _ => True) (ReportsConflict d cfg) (x.mapError g) := by
  cases x with
  | ok a => trivial
  | error e => exact fun name h => absurd h (hg e name)

theorem contractAbi_reports (ct : Contract) :
    Ensures (fun _ => True) (ReportsConflict d cfg) (contractAbi ct) := by
  unfold contractAbi
  split
  · trivial
  · rintro name ⟨⟩

theorem lookupFunction_reports (abi : JsonAbi) (p : Place) :
    Ensures (fun _ => True) (ReportsConflict d cfg) (lookupFunction abi p) := by
  unfold lookupFunction
  repeat' split
  · rintro name ⟨⟩
  · trivial
  · rintro name ⟨⟩

theorem encodeCall_reports (func : AbiFunction) (p : Place) :
    Ensures (fun _ => True) (ReportsConflict d cfg) (encodeCall d func p) := by
  unfold encodeCall
  apply (reports_mapError (by nofun)).bind
  intro packed _ _
  exact reports_mapError (by nofun)

/-- The loop over the contracts reports a conflict only where there is one. -/
theorem buildContracts_reports :
    Ensures (Acc.HelpsFrom d cfg) (ReportsConflict d cfg)
      (cfg.contracts.foldlM (buildContract d cfg) .empty) := by
  have hconflict : ∀ name, HelpConflict d cfg name →
      ReportsConflict d cfg (.conflictingHelp name) := by
    rintro name h _ ⟨⟩
    exact h
  refine buildContracts_ensures (fun ct _ => contractAbi_reports ct)
    (fun ct _ inst _ => reports_mapError (by nofun)) fun p hp abi addr acc habi hacc => ?_
  refine buildCall_ensures hconflict hp habi (lookupFunction_reports abi p)
    (fun func _ => encodeCall_reports func p) (fun func _ => ?_) hacc
  refine (reports_mapError (by nofun)).mono (fun r _ o _ => ?_) fun e h => h
  exact reports_mapError (by nofun)

/-- A planner that reports a conflict of help texts names a metric with one. -/
theorem build_reports (registry : Registry) :
    Ensures (fun _ => True) (ReportsConflict d cfg) (build d cfg registry) := by
  unfold build
  apply buildContracts_reports.bind
  intro acc _ _
  have hgauges : Ensures (fun _ => True) (ReportsConflict d cfg)
      ((d.hashOrder acc.keysByMetric.keys).foldlM (registerGauge d acc) (registry, ∅)) := by
    refine ensures_foldlM trivial fun name _ s _ => ?_
    unfold registerGauge
    apply (reports_mapError (by nofun)).bind
    intro _ _ _
    apply (reports_mapError (by nofun)).bind
    intro _ _ _
    trivial
  apply hgauges.bind
  intro s _ _
  have hentries : Ensures (fun _ => True) (ReportsConflict d cfg)
      (acc.drafts.mapM (buildEntry cfg.chain.chainId s.2)) := by
    refine (ensures_mapM (Q := fun _ => True) fun dr _ => ?_).mono (fun _ _ => trivial)
      fun _ h => h
    unfold buildEntry
    split
    · rintro name ⟨⟩
    · trivial
  apply hentries.bind
  intro entries _ _
  trivial

/-! ### Registration -/

/-- Help texts conflict exactly when the rows of the sites disagree. -/
theorem helpsAgree_iff (hv : cfg.Valid d) {sites : List Site} (h : sitesOf d cfg = .ok sites) :
    HelpsAgree (rows sites) ↔ ¬ ∃ name, HelpConflict d cfg name := by
  constructor
  · rintro hagree ⟨name, p, hp, p', hp', hname, hname', hhelp, hhelp', hne⟩
    obtain ⟨r, hr, rfl, rfl⟩ := exists_row_of_emits hv h hp hname
    obtain ⟨r', hr', rfl, heq⟩ := exists_row_of_emits hv h hp' hname'
    exact hne (hagree r hr r' hr' heq.symm hhelp hhelp')
  · intro hno r hr r' hr' heq hhelp hhelp'
    by_contra hne
    obtain ⟨hp, hname⟩ := row_emits hv h hr
    obtain ⟨hp', hname'⟩ := row_emits hv h hr'
    exact hno ⟨r.name, _, hp, _, hp', hname, heq ▸ hname', hhelp, hhelp', hne⟩

/-- The help text a gauge should have: that of any place with an output of its name, or the
default when these have none. -/
structure Desc.HasHelp (d : Deps) (cfg : Config) (gauge : Desc) : Prop where
  given : ∀ p ∈ places cfg, p.Emits d gauge.name → p.metric.help ≠ "" →
    gauge.help = p.metric.help
  default : (∀ p ∈ places cfg, p.Emits d gauge.name → p.metric.help = "") →
    gauge.help = s!"EVM contract metric {gauge.name}"

theorem familyOf_hasHelp (hv : cfg.Valid d) {sites : List Site} (h : sitesOf d cfg = .ok sites)
    (hagree : HelpsAgree (rows sites)) (name : String) :
    (familyOf cfg (rows sites) name).gauge.HasHelp d cfg := by
  constructor
  · intro p hp hname hhelp
    obtain ⟨r, hr, rfl, rfl⟩ := exists_row_of_emits hv h hp hname
    have hne : r.help ≠ "" := hhelp
    change helpText r.name (helpOf (rows sites) r.name) = r.help
    rw [helpOf_of_mem hagree hr hne, helpText, nonEmpty_some, if_neg hne, Option.getD_some]
  · intro hall
    have hnone : helpOf (rows sites) name = none := by
      cases hhelp : helpOf (rows sites) name with
      | none => rfl
      | some help =>
        obtain ⟨hne, r, hr, rfl, rfl⟩ := helpOf_mem hhelp
        obtain ⟨hp, hname⟩ := row_emits hv h hr
        exact absurd (hall _ hp hname) hne
    change helpText name (helpOf (rows sites) name) = _
    rw [hnone]
    rfl

/-- Where nothing else goes wrong, planning fails exactly on a conflict of help texts, and names
a metric with one; otherwise every emitted name has one gauge, with the help text of its
places. -/
theorem build_help {baseDir : String} {raw : Config} (hvalid : validate d baseDir raw = .ok cfg)
    {registry : Registry}
    (hother : ∀ e, build d cfg registry = .error e → ∃ name, e = .conflictingHelp name) :
    ((∃ name, build d cfg registry = .error (.conflictingHelp name)) ↔
      ∃ name, HelpConflict d cfg name) ∧
    (∀ name, build d cfg registry = .error (.conflictingHelp name) → HelpConflict d cfg name) ∧
    ((¬ ∃ name, HelpConflict d cfg name) → ∃ plan gauges,
      build d cfg registry = .ok (plan, gauges ++ registry) ∧ (gauges.map Desc.name).Nodup ∧
      (∀ name, name ∈ gauges.map Desc.name ↔ ∃ p ∈ places cfg, p.Emits d name) ∧
      ∀ gauge ∈ gauges, gauge.HasHelp d cfg) := by
  have hv := validate_valid hvalid
  have hreports : ∀ name, build d cfg registry = .error (.conflictingHelp name) →
      HelpConflict d cfg name :=
    fun name he => (build_reports registry).error he name rfl
  refine ⟨⟨fun ⟨name, he⟩ => ⟨name, hreports name he⟩, ?_⟩, hreports, ?_⟩
  · intro hconflict
    cases hb : build d cfg registry with
    | error e =>
      obtain ⟨name, rfl⟩ := hother e hb
      exact ⟨name, rfl⟩
    | ok planned =>
      obtain ⟨sites, -, hsites, hagree, -⟩ := build_outcome hb
      exact absurd hconflict ((helpsAgree_iff hv hsites).mp hagree)
  · intro hno
    cases hb : build d cfg registry with
    | error e =>
      obtain ⟨name, rfl⟩ := hother e hb
      exact absurd ⟨name, hreports name hb⟩ hno
    | ok planned =>
      obtain ⟨plan, registry'⟩ := planned
      obtain ⟨sites, names, hsites, hagree, -, hnodup, hnames, rfl⟩ := build_outcome hb
      have hmap : ((names.map fun n => (familyOf cfg (rows sites) n).gauge).reverse).map
          Desc.name = names.reverse := by
        rw [List.map_reverse, List.map_map]
        exact congrArg List.reverse (List.map_id names)
      refine ⟨plan, _, rfl, ?_, fun name => ?_, fun gauge hg => ?_⟩
      · rw [hmap]
        exact List.nodup_reverse.mpr hnodup
      · rw [hmap, List.mem_reverse, hnames, mem_rowNames_iff hv hsites]
      · obtain ⟨name, -, rfl⟩ := List.mem_map.mp (List.mem_reverse.mp hg)
        exact familyOf_hasHelp hv hsites hagree name

/-- Two metrics of one name, the first without a help text. -/
def lateHelpConfig : Config :=
  Reference.tokenConfig [{ function := "totalSupply" },
    { name := "total_supply", function := "decimals", help := "Supply" }]

theorem late_help_registered :
    ∃ cfg plan gauges, validate reference "." lateHelpConfig = .ok cfg ∧
      build reference cfg [] = .ok (plan, gauges ++ []) ∧ plan.entries.length = 2 ∧
      ∀ gauge ∈ gauges, gauge.HasHelp reference cfg := by
  obtain ⟨cfg, plan, registry, hv, hb, hlen⟩ :=
    Reference.of_check lateHelpConfig (fun _ plan => plan.entries.length = 2) (by decide +kernel)
  have hother : ∀ e, build reference cfg [] = .error e → ∃ name, e = .conflictingHelp name := by
    rw [hb]
    nofun
  obtain ⟨hiff, -, hregistered⟩ := build_help hv hother
  have hno : ¬ ∃ name, HelpConflict reference cfg name := by
    rw [← hiff, hb]
    rintro ⟨name, ⟨⟩⟩
  obtain ⟨plan', gauges, hb', -, -, hhelp⟩ := hregistered hno
  obtain ⟨rfl, -⟩ := Prod.mk.inj (Except.ok.inj (hb.symm.trans hb'))
  exact ⟨cfg, plan, gauges, hv, hb', of_decide_eq_true hlen, hhelp⟩

end EvmExporter
