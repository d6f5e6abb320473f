import EvmExporter.Exporter.Lifecycle
import EvmExporter.Exporter.Events
import Mathlib.Algebra.BigOperators.Ring.List

/-! The pace and the end of a run. Scrapes are paid for by ticks of the interval timer, so the
loop takes no more steps than these allow; a run over a well-formed plan with a timer that
has a period never panics; and from wherever it is, a run can shut down without starting
another scrape, even when the node never answers again. -/

namespace EvmExporter

open Lib

variable {d : Deps} {x : Exporter} {s s' : RunState} {a : RunAct}

/-! ### One step -/

/-- A scrape on a well-formed plan returns, and the run goes on. -/
theorem RunState.scraped_eq (hwf : x.plan.WellFormed) (s : RunState) (att : Attempt) (next : Phase) :
    s.scraped d x att next =
      { s with phase := next, metrics := (runScrape d x att s.metrics).1 } := by
  have hno := runScrape_not_panicked (d := d) hwf att s.metrics
  unfold RunState.scraped
  cases hrun : runScrape d x att s.metrics with
  | mk w e =>
    cases e with
    | panicked p => exact absurd (congrArg Prod.snd hrun) (hno p)
    | completed => rfl
    | failed e => rfl
    | elapsed => rfl

/-- What the steps of the loop itself do. -/
inductive RunState.LoopStep (d : Deps) (x : Exporter) (s : RunState) : RunAct → RunState → Prop where
  | initialScrape (att : Attempt) (hphase : s.phase = .initialScrape) :
      LoopStep d x s (.scrapeReturned att)
        ({ s with tickDue := true }.scraped d x att x.tickerPhase)
  | scrape (att : Attempt) (hphase : s.phase = .scraping) :
      LoopStep d x s (.scrapeReturned att) (s.scraped d x att .selecting)
  | firstTick (hphase : s.phase = .firstTick) (hdue : s.tickDue = true) :
      LoopStep d x s .firstTick { s with phase := .selecting, tickDue := false }
  | selectCancelled (hphase : s.phase = .selecting) (hcancelled : s.cancelled = true) :
      LoopStep d x s .selectCancelled { s with phase := .joining }
  | selectTick (hphase : s.phase = .selecting) (hdue : s.tickDue = true) :
      LoopStep d x s .selectTick { s with phase := .scraping, tickDue := false }
  | joinServer (r : JoinResult) (hphase : s.phase = .joining) (hserver : s.server = .ended r) :
      LoopStep d x s .joinServer { s with phase := .returned (joinResult r) }

/-- A step is the cancellation, the timer, a step of the server task or one of the loop. -/
theorem RunState.step_cases (h : s.step d x a = some s') :
    (a = .cancel ∧ s' = { s with cancelled := true }) ∨
    (a = .intervalElapsed ∧ s' = { s with tickDue := true }) ∨
    (∃ act t, a = .server act ∧ s.server.step x.cfg.server s.cancelled act = some t ∧
      s' = { s with server := t }) ∨
    s.LoopStep d x a s' := by
  cases a with
  | cancel => exact .inl ⟨rfl, (Option.some.inj h).symm⟩
  | intervalElapsed => exact .inr (.inl ⟨rfl, (Option.some.inj h).symm⟩)
  | server act =>
    obtain ⟨t, ht, rfl⟩ := Option.map_eq_some_iff.mp h
    exact .inr (.inr (.inl ⟨act, t, rfl, ht, rfl⟩))
  | scrapeReturned att =>
    simp only [RunState.step] at h
    split at h
    next hphase => exact Option.some.inj h ▸ .inr (.inr (.inr (.initialScrape att hphase)))
    next hphase => exact Option.some.inj h ▸ .inr (.inr (.inr (.scrape att hphase)))
    next => cases h
  | firstTick =>
    simp only [RunState.step] at h
    split at h
    next hphase hdue => exact Option.some.inj h ▸ .inr (.inr (.inr (.firstTick hphase hdue)))
    next => cases h
  | selectCancelled =>
    simp only [RunState.step] at h
    split at h
    next hphase hc => exact Option.some.inj h ▸ .inr (.inr (.inr (.selectCancelled hphase hc)))
    next => cases h
  | selectTick =>
    simp only [RunState.step] at h
    split at h
    next hphase hdue => exact Option.some.inj h ▸ .inr (.inr (.inr (.selectTick hphase hdue)))
    next => cases h
  | joinServer =>
    obtain ⟨hphase, r, hserver, rfl⟩ := RunState.joinServer_eq_some h
    exact .inr (.inr (.inr (.joinServer r hphase hserver)))

/-! ### The pace -/

/-- What being in a phase, having a tick due and taking a step are worth. -/
structure Pricing where
  phase : Phase → ℕ
  tick : ℕ
  cost : RunAct → ℕ

/-- Every step of the loop is paid for by the phase it leaves, a scrape after a tick also by
the tick. The other parties move for nothing. -/
structure Pricing.Fair (p : Pricing) (x : Exporter) : Prop where
  initialScrape : ∀ att, p.phase x.tickerPhase + p.cost (.scrapeReturned att) ≤
    p.phase .initialScrape
  scrape : ∀ att, p.phase .selecting + p.cost (.scrapeReturned att) ≤ p.phase .scraping
  firstTick : p.phase .selecting + p.cost .firstTick ≤ p.phase .firstTick
  selectCancelled : p.phase .joining + p.cost .selectCancelled ≤ p.phase .selecting
  selectTick : p.phase .scraping + p.cost .selectTick ≤ p.phase .selecting + p.tick
  joinServer : ∀ r, p.phase (.returned r) + p.cost .joinServer ≤ p.phase .joining
  panicked : p.phase .panicked = 0
  cancel : p.cost .cancel = 0
  intervalElapsed : p.cost .intervalElapsed = 0
  server : ∀ act, p.cost (.server act) = 0

/-- The loop keeps a tick that comes while it scrapes or waits. -/
def Phase.keepsTick : Phase → Bool
  | .selecting | .scraping => true
  | _ => false

def Pricing.worth (p : Pricing) (s : RunState) : ℕ :=
  p.phase s.phase + if s.phase.keepsTick && s.tickDue then p.tick else 0

/-- A tick adds its worth to the state. -/
def Pricing.credit (p : Pricing) : RunAct → ℕ
  | .intervalElapsed => p.tick
  | _ => 0

/-- The return of a scrape is paid for, whether the run goes on or panics. -/
theorem Pricing.scraped_worth (p : Pricing) (hpanic : p.phase .panicked = 0) (s : RunState)
    (att : Attempt) (next : Phase) :
    p.worth (s.scraped d x att next) ≤
      p.phase next + if next.keepsTick && s.tickDue then p.tick else 0 := by
  unfold RunState.scraped
  split
  · simp [worth, hpanic, Phase.keepsTick]
  · exact le_rfl

theorem Exporter.tickerPhase_keepsTick (x : Exporter) : x.tickerPhase.keepsTick = false := by
  unfold Exporter.tickerPhase
  split_ifs <;> rfl

theorem Pricing.Fair.step {p : Pricing} (hp : p.Fair x) (h : s.step d x a = some s') :
    p.worth s' + p.cost a ≤ p.worth s + p.credit a := by
  rcases RunState.step_cases h with ⟨rfl, rfl⟩ | ⟨rfl, rfl⟩ | ⟨act, t, rfl, -, rfl⟩ | hloop
  · rw [hp.cancel]
    exact le_rfl
  · simp only [worth, credit, hp.intervalElapsed, Bool.and_true]
    split_ifs <;> omega
  · rw [hp.server]
    exact le_rfl
  · cases hloop with
    | initialScrape att hphase =>
      have hworth := p.scraped_worth (d := d) (x := x) hp.panicked { s with tickDue := true } att
        x.tickerPhase
      have hpaid := hp.initialScrape att
      have hhere : p.worth s = p.phase .initialScrape := by simp [worth, hphase, Phase.keepsTick]
      simp only [x.tickerPhase_keepsTick, Bool.false_and, Bool.false_eq_true, ↓reduceIte] at hworth
      omega
    | scrape att hphase =>
      have hworth := p.scraped_worth (d := d) (x := x) hp.panicked s att .selecting
      have hpaid := hp.scrape att
      have hhere : p.worth s = p.phase .scraping + if s.tickDue then p.tick else 0 := by
        simp [worth, hphase, Phase.keepsTick]
      simp only [Phase.keepsTick, Bool.true_and] at hworth
      omega
    | firstTick hphase hdue =>
      have hpaid := hp.firstTick
      simp only [worth, hphase, credit, Phase.keepsTick, Bool.and_false, Bool.false_and,
        Bool.false_eq_true, ↓reduceIte]
      omega
    | selectCancelled hphase hc =>
      have hpaid := hp.selectCancelled
      simp only [worth, hphase, credit, Phase.keepsTick, Bool.false_and, Bool.false_eq_true,
        ↓reduceIte]
      omega
    | selectTick hphase hdue =>
      have hpaid := hp.selectTick
      simp only [worth, hphase, hdue, credit, Phase.keepsTick, Bool.and_false, Bool.and_true,
        Bool.false_eq_true, ↓reduceIte]
      omega
    | joinServer r hphase hserver =>
      have hpaid := hp.joinServer (joinResult r)
      simp only [worth, hphase, credit, Phase.keepsTick, Bool.false_and, Bool.false_eq_true,
        ↓reduceIte]
      omega

def RunAct.isAttempt (a : RunAct) : Bool := a.attempt?.isSome

def RunAct.isInterval : RunAct → Bool
  | .intervalElapsed => true
  | _ => false

/-- The steps of `run` itself, not those of the parties it waits for. -/
def RunAct.isRun : RunAct → Bool
  | .cancel | .intervalElapsed | .server _ => false
  | _ => true

/-- Count the scrape attempts: one to start with, and one for each tick. -/
def attemptPricing : Pricing where
  phase
    | .initialScrape | .scraping => 1
    | _ => 0
  tick := 1
  cost a := a.isAttempt.toNat

/-- Count all the steps of `run`. -/
def stepPricing : Pricing where
  phase
    | .initialScrape => 4
    | .firstTick | .scraping => 3
    | .selecting => 2
    | .joining => 1
    | _ => 0
  tick := 2
  cost a := a.isRun.toNat

theorem attemptPricing_fair (x : Exporter) : attemptPricing.Fair x := by
  have hticker : attemptPricing.phase x.tickerPhase = 0 := by
    unfold Exporter.tickerPhase
    split_ifs <;> rfl
  constructor
  case initialScrape => exact fun att => by rw [hticker]; exact le_rfl
  all_goals simp [attemptPricing, RunAct.isAttempt, RunAct.attempt?]

theorem stepPricing_fair (x : Exporter) : stepPricing.Fair x := by
  have hticker : stepPricing.phase x.tickerPhase ≤ 3 := by
    unfold Exporter.tickerPhase
    split_ifs <;> decide
  constructor
  case initialScrape => exact fun att => Nat.add_le_add_right hticker 1
  all_goals simp [stepPricing, RunAct.isRun]

theorem sum_toNat_eq_countP {α : Type*} (test : α → Bool) (as : List α) :
    (as.map fun a => (test a).toNat).sum = as.countP test := by
  induction as with
  | nil => rfl
  | cons a as ih =>
    rw [List.map_cons, List.sum_cons, ih, List.countP_cons]
    cases test a <;> simp [Nat.add_comm]

/-- What an interleaving costs is what it starts with and what its ticks bring. -/
theorem Pricing.Fair.execute {p : Pricing} (hp : p.Fair x) {acts : List RunAct}
    (h : execute (RunState.step d x) s acts = some s') :
    (acts.map p.cost).sum ≤ p.worth s + p.tick * acts.countP RunAct.isInterval := by
  have hpaid := execute_potential (I := fun _ => True) p.worth p.cost p.credit trivial
    (fun _ _ _ _ hstep => ⟨trivial, hp.step hstep⟩) h
  have hcredit : (acts.map p.credit).sum = p.tick * acts.countP RunAct.isInterval := by
    rw [← sum_toNat_eq_countP, ← List.sum_map_mul_left]
    congr 1
    refine List.map_congr_left fun a _ => ?_
    cases a <;> simp [Pricing.credit, RunAct.isInterval]
  omega

/-- The loop never spins. In every interleaving there are at most as many scrape attempts as
intervals have elapsed, and the initial one; and `run` takes at most two steps for each
interval and four more, whatever the node, the server and the cancellation do. -/
theorem loop_paced {acts : List RunAct}
    (h : execute (RunState.step d x) .initial acts = some s) :
    acts.countP RunAct.isAttempt ≤ 1 + acts.countP RunAct.isInterval ∧
      acts.countP RunAct.isRun ≤ 4 + 2 * acts.countP RunAct.isInterval := by
  have hattempts := (attemptPricing_fair x).execute h
  have hsteps := (stepPricing_fair x).execute h
  have hone : attemptPricing.tick * acts.countP RunAct.isInterval =
      acts.countP RunAct.isInterval := Nat.one_mul _
  constructor
  · calc acts.countP RunAct.isAttempt
        = (acts.map attemptPricing.cost).sum := (sum_toNat_eq_countP _ _).symm
      _ ≤ 1 + attemptPricing.tick * acts.countP RunAct.isInterval := hattempts
      _ = 1 + acts.countP RunAct.isInterval := by rw [hone]
  · calc acts.countP RunAct.isRun
        = (acts.map stepPricing.cost).sum := (sum_toNat_eq_countP _ _).symm
      _ ≤ 4 + 2 * acts.countP RunAct.isInterval := hsteps

/-- One elapsed interval, and two attempts. -/
def pacedRun : List RunAct :=
  [.scrapeReturned unanswered, .firstTick, .intervalElapsed, .selectTick, .scrapeReturned unanswered]

/-- They are the most there can be. -/
theorem half_minute_paced :
    ∃ cfg plan registry s, build reference cfg [] = .ok (plan, registry) ∧
      execute (RunState.step reference ⟨cfg, plan⟩) .initial pacedRun = some s ∧
      pacedRun.countP RunAct.isAttempt = 2 ∧
      pacedRun.countP RunAct.isAttempt ≤ 1 + pacedRun.countP RunAct.isInterval := by
  obtain ⟨cfg, plan, registry, -, hb, h⟩ := Reference.of_check halfMinuteConfig
    (fun cfg plan => (execute (RunState.step reference ⟨cfg, plan⟩) .initial pacedRun).isSome)
    (by decide +kernel)
  obtain ⟨s, hs⟩ := Option.isSome_iff_exists.mp h
  exact ⟨cfg, plan, registry, s, hb, hs, rfl, (loop_paced hs).1⟩

/-! ### Shutting down -/

/-- The run has not panicked, and the first tick of its timer is due as long as it waits
for it. -/
structure RunState.Sound (s : RunState) : Prop where
  not_panicked : s.phase ≠ .panicked
  ticked : s.phase = .firstTick → s.tickDue = true

theorem RunState.sound_initial : RunState.initial.Sound := ⟨nofun, nofun⟩

theorem Exporter.tickerPhase_eq (hinterval : x.cfg.scrape.interval ≠ 0) :
    x.tickerPhase = .firstTick := if_neg hinterval

theorem RunState.Sound.step (hwf : x.plan.WellFormed) (hinterval : x.cfg.scrape.interval ≠ 0)
    (hs : s.Sound) (h : s.step d x a = some s') : s'.Sound := by
  rcases RunState.step_cases h with ⟨rfl, rfl⟩ | ⟨rfl, rfl⟩ | ⟨act, t, rfl, -, rfl⟩ | hloop
  · exact ⟨hs.not_panicked, hs.ticked⟩
  · exact ⟨hs.not_panicked, fun _ => rfl⟩
  · exact ⟨hs.not_panicked, hs.ticked⟩
  · cases hloop with
    | initialScrape att hphase =>
      rw [RunState.scraped_eq hwf, x.tickerPhase_eq hinterval]
      exact ⟨nofun, fun _ => rfl⟩
    | scrape att hphase =>
      rw [RunState.scraped_eq hwf]
      exact ⟨nofun, nofun⟩
    | firstTick hphase hdue => exact ⟨nofun, nofun⟩
    | selectCancelled hphase hc => exact ⟨nofun, nofun⟩
    | selectTick hphase hdue => exact ⟨nofun, nofun⟩
    | joinServer r hphase hserver => exact ⟨nofun, nofun⟩

theorem execute_sound (hwf : x.plan.WellFormed) (hinterval : x.cfg.scrape.interval ≠ 0)
    {acts : List RunAct} (h : execute (RunState.step d x) .initial acts = some s) : s.Sound :=
  execute_trace (I := fun _ s => RunState.Sound s) RunState.sound_initial
    (fun _ _ _ _ => RunState.Sound.step hwf hinterval) h

/-- A step towards the end: no tick, no new scrape, and no answer to the scrape in progress. -/
def RunAct.ShutsDown : RunAct → Prop
  | .intervalElapsed | .selectTick => False
  | .scrapeReturned a => a = unanswered
  | _ => True

def Phase.distance : Phase → ℕ
  | .initialScrape => 4
  | .firstTick | .scraping => 3
  | .selecting => 2
  | .joining => 1
  | .returned _ | .panicked => 0

def ServerTask.distance : ServerTask → ℕ
  | .binding => 2
  | .serving => 1
  | .ended _ => 0

/-- How far a run is from its end. -/
def RunState.distance (s : RunState) : ℕ :=
  (if s.cancelled then 0 else 1) + s.server.distance + s.phase.distance

/-- The steps a run can take towards its end are there wherever it is: cancel, let the server
shut down, and then let the loop go on. -/
theorem RunState.Sound.shuts_down (hwf : x.plan.WellFormed) (hinterval : x.cfg.scrape.interval ≠ 0)
    (hs : s.Sound) (hnot : ¬ ∃ r, s.phase = .returned r) :
    ∃ a s', RunAct.ShutsDown a ∧ s.step d x a = some s' ∧ s'.Sound ∧ s'.distance < s.distance := by
  have hstep {a : RunAct} {s' : RunState} (ha : a.ShutsDown) (h : s.step d x a = some s')
      (hlt : s'.distance < s.distance) :
      ∃ a s', RunAct.ShutsDown a ∧ s.step d x a = some s' ∧ s'.Sound ∧ s'.distance < s.distance :=
    ⟨a, s', ha, h, hs.step hwf hinterval h, hlt⟩
  obtain ⟨phase, cancelled, due, server, w⟩ := s
  cases cancelled with
  | false => exact hstep (a := .cancel) trivial rfl (by simp [distance])
  | true =>
    cases server with
    | binding => exact hstep (a := .server .bound) trivial rfl (by simp [distance, ServerTask.distance])
    | serving =>
      exact hstep (a := .server .shutDown) trivial rfl (by simp [distance, ServerTask.distance])
    | ended r =>
      cases phase with
      | initialScrape =>
        refine hstep (a := .scrapeReturned unanswered) rfl rfl ?_
        rw [RunState.scraped_eq hwf, x.tickerPhase_eq hinterval]
        simp [distance, Phase.distance]
      | firstTick =>
        obtain rfl : due = true := hs.ticked rfl
        exact hstep (a := .firstTick) trivial rfl (by simp [distance, Phase.distance])
      | selecting =>
        exact hstep (a := .selectCancelled) trivial rfl (by simp [distance, Phase.distance])
      | scraping =>
        refine hstep (a := .scrapeReturned unanswered) rfl rfl ?_
        rw [RunState.scraped_eq hwf]
        simp [distance, Phase.distance]
      | joining => exact hstep (a := .joinServer) trivial rfl (by simp [distance, Phase.distance])
      | returned r => exact absurd ⟨r, rfl⟩ hnot
      | panicked => exact absurd rfl hs.not_panicked

theorem RunState.distance_le (s : RunState) : s.distance ≤ 7 := by
  have hphase : s.phase.distance ≤ 4 := by cases s.phase <;> simp [Phase.distance]
  have hserver : s.server.distance ≤ 2 := by cases s.server <;> simp [ServerTask.distance]
  unfold RunState.distance
  split_ifs <;> omega

variable {cfg : Config} {plan : Plan} {registry registry' : Registry}

/-- Wherever a run over a built plan has come to, it has not panicked and it can return within
seven steps, none of which is a tick, a new scrape or an answer of the node. -/
theorem shutdown_reachable (hb : build d cfg registry = .ok (plan, registry'))
    (hinterval : cfg.scrape.interval ≠ 0) {acts : List RunAct}
    (h : execute (RunState.step d ⟨cfg, plan⟩) .initial acts = some s) :
    s.phase ≠ .panicked ∧ ∃ post s' r, (∀ a ∈ post, RunAct.ShutsDown a) ∧ post.length ≤ 7 ∧
      execute (RunState.step d ⟨cfg, plan⟩) s post = some s' ∧ s'.phase = .returned r := by
  have hwf : (⟨cfg, plan⟩ : Exporter).plan.WellFormed := build_wellFormed hb
  have hs : s.Sound := execute_sound hwf hinterval h
  obtain ⟨post, s', hpost, hlen, hexec, r, hr⟩ :=
    execute_progress (fun s => ∃ r, s.phase = Phase.returned r) RunState.distance
      (fun t ht hnot => RunState.Sound.shuts_down (d := d) hwf hinterval ht hnot) s hs
  exact ⟨hs.not_panicked, post, s', r, hpost, hlen.trans s.distance_le, hexec, hr⟩

/-- The server could not bind, and the second scrape is waiting for the node. -/
def stuckRun : List RunAct :=
  [.server (.bindFailed "address in use"), .scrapeReturned unanswered, .firstTick,
    .intervalElapsed, .selectTick]

theorem stuck_run_returns :
    ∃ cfg plan registry s, build reference cfg [] = .ok (plan, registry) ∧
      execute (RunState.step reference ⟨cfg, plan⟩) .initial stuckRun = some s ∧
      s.phase.distance = 3 ∧ ∃ post s' r, (∀ a ∈ post, RunAct.ShutsDown a) ∧ post.length ≤ 7 ∧
        execute (RunState.step reference ⟨cfg, plan⟩) s post = some s' ∧
        s'.phase = .returned r := by
  obtain ⟨cfg, plan, registry, -, hb, h⟩ := Reference.of_check halfMinuteConfig
    (fun cfg plan => cfg.scrape.interval ≠ 0 &&
      (execute (RunState.step reference ⟨cfg, plan⟩) .initial stuckRun).any fun s =>
        s.phase.distance = 3) (by decide +kernel)
  rw [Bool.and_eq_true, Option.any_eq_true] at h
  obtain ⟨hinterval, s, hs, hphase⟩ := h
  exact ⟨cfg, plan, registry, s, hb, hs, of_decide_eq_true hphase,
    (shutdown_reachable hb (of_decide_eq_true hinterval) hs).2⟩

end EvmExporter
