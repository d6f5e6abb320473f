import EvmExporter.Exporter.Attempts
import EvmExporter.Lib.Machine
import EvmExporter.Reference

/-! `Exporter::run` with the parties it meets: the spawned server task, the interval timer
and the cancellation. The loop selects on the cancellation and the timer alone, so the end
of the server task neither stops nor delays it; only after the cancellation is the server
task joined, and its result returned. -/

namespace EvmExporter

open Lib

/-! ### The server task -/

/-- What joining a spawned task gives: its result, or the message of its panic. -/
abbrev JoinResult := Except String (Except Error Unit)

inductive ServerTask where
  | binding
  | serving
  | ended (result : JoinResult)

inductive ServerAct where
  | bound
  | bindFailed (cause : String)
  | shutDown
  | serveFailed (cause : String)
  | panicked (cause : String)

/-- `Server::run`: bind the listener, then serve until the cancellation. -/
def ServerTask.step (cfg : Server) (cancelled : Bool) : ServerTask → ServerAct → Option ServerTask
  | .binding, .bound => some .serving
  | .binding, .bindFailed cause => some (.ended (.ok (.error (.bind cfg.listenAddress cause))))
  | .binding, .panicked cause => some (.ended (.error cause))
  | .serving, .shutDown => if cancelled then some (.ended (.ok (.ok ()))) else none
  | .serving, .serveFailed cause => some (.ended (.ok (.error (.httpServer cause))))
  | .serving, .panicked cause => some (.ended (.error cause))
  | _, _ => none

/-- The task has ended with an error or a panic. -/
def ServerTask.Failed (t : ServerTask) : Prop :=
  (∃ e, t = .ended (.ok (.error e))) ∨ ∃ cause, t = .ended (.error cause)

/-! ### The loop -/

/-- Where `run` is: what it awaits, or how it ended. -/
inductive Phase where
  | initialScrape
  | firstTick
  | selecting
  | scraping
  | joining
  | returned (result : Except Error Unit)
  | panicked

/-- A run in progress. The timer is one flag: ticks missed while a scrape runs are skipped. -/
structure RunState where
  phase : Phase
  cancelled : Bool
  tickDue : Bool
  server : ServerTask
  metrics : Metrics

def RunState.initial : RunState := ⟨.initialScrape, false, false, .binding, .initial⟩

inductive RunAct where
  | cancel
  | intervalElapsed
  | server (a : ServerAct)
  | scrapeReturned (a : Attempt)
  | firstTick
  | selectCancelled
  | selectTick
  | joinServer

/-- The error of a panicked task, or the result of the task. -/
def joinResult : JoinResult → Except Error Unit
  | .ok res => res
  | .error cause => .error (.serverTaskJoin cause)

variable (d : Deps) (x : Exporter)

/-- `run_scrape` returns and `run` goes on, or its panic unwinds `run`. -/
def RunState.scraped (s : RunState) (a : Attempt) (next : Phase) : RunState :=
  match runScrape d x a s.metrics with
  | (w, .panicked _) => { s with phase := .panicked, metrics := w }
  | (w, _) => { s with phase := next, metrics := w }

/-- The phase after the initial scrape: a timer without a period panics. -/
def Exporter.tickerPhase (x : Exporter) : Phase :=
  if x.cfg.scrape.interval = 0 then .panicked else .firstTick

/-- One step of one of the parties. -/
def RunState.step (s : RunState) : RunAct → Option RunState
  | .cancel => some { s with cancelled := true }
  | .intervalElapsed => some { s with tickDue := true }
  | .server a =>
    (s.server.step x.cfg.server s.cancelled a).map fun t => { s with server := t }
  | .scrapeReturned a =>
    match s.phase with
    -- the first tick of a new timer is due at once
    | .initialScrape => some ({ s with tickDue := true }.scraped d x a x.tickerPhase)
    | .scraping => some (s.scraped d x a .selecting)
    | _ => none
  | .firstTick =>
    match s.phase, s.tickDue with
    | .firstTick, true => some { s with phase := .selecting, tickDue := false }
    | _, _ => none
  | .selectCancelled =>
    match s.phase, s.cancelled with
    | .selecting, true => some { s with phase := .joining }
    | _, _ => none
  | .selectTick =>
    match s.phase, s.tickDue with
    | .selecting, true => some { s with phase := .scraping, tickDue := false }
    | _, _ => none
  | .joinServer =>
    match s.phase, s.server with
    | .joining, .ended r => some { s with phase := .returned (joinResult r) }
    | _, _ => none

/-- The steps of the loop and of the parties it selects on. -/
def RunAct.ofLoop : RunAct → Bool
  | .server _ | .joinServer => false
  | _ => true

/-- The loop has been left by the cancellation. -/
def Phase.Left : Phase → Prop
  | .joining | .returned _ => True
  | _ => False

/-- The state of a run without its server task: leaving the loop is its end. -/
def RunState.loop (s : RunState) : RunState :=
  { s with
    server := .binding
    phase := match s.phase with
      | .returned _ => .joining
      | phase => phase }

variable {d x} {s s' t : RunState} {a : RunAct}

/-! ### The server is not part of the loop -/

/-- Two states look alike to the loop: they differ in the server task, and in the result
that was returned after the loop was left. -/
theorem RunState.loop_eq_iff : s.loop = t.loop ↔
    (s.phase = t.phase ∨ s.phase.Left ∧ t.phase.Left) ∧ s.cancelled = t.cancelled ∧
      s.tickDue = t.tickDue ∧ s.metrics = t.metrics := by
  obtain ⟨p, c, due, server, w⟩ := s
  obtain ⟨q, c', due', server', w'⟩ := t
  cases p <;> cases q <;> simp [RunState.loop, Phase.Left]

theorem RunState.step_hidden (ha : a.ofLoop = false) (h : s.step d x a = some s') :
    s'.loop = s.loop := by
  cases a with
  | server act =>
    obtain ⟨task, -, rfl⟩ := Option.map_eq_some_iff.mp h
    rfl
  | joinServer =>
    simp only [RunState.step] at h
    split at h
    next hphase _ =>
      obtain rfl := Option.some.inj h
      exact RunState.loop_eq_iff.mpr ⟨.inr ⟨trivial, by simp [hphase, Phase.Left]⟩, rfl, rfl, rfl⟩
    next => cases h
  | _ => cases ha

theorem RunState.scraped_loop (a : Attempt) (next : Phase) (hw : s.metrics = t.metrics)
    (hc : s.cancelled = t.cancelled) (hdue : s.tickDue = t.tickDue) :
    (s.scraped d x a next).loop = (t.scraped d x a next).loop := by
  simp only [RunState.scraped, hw]
  split <;> exact RunState.loop_eq_iff.mpr ⟨.inl rfl, hc, hdue, rfl⟩

/-- After the loop only the timer and the cancellation move. -/
theorem RunState.step_left (hleft : s.phase.Left) (ha : a.ofLoop = true) :
    s.step d x a = (match a with
      | .cancel => some { s with cancelled := true }
      | .intervalElapsed => some { s with tickDue := true }
      | _ => none) := by
  obtain ⟨p, c, due, server, w⟩ := s
  cases p <;> first | exact absurd hleft id | (cases a <;> first | rfl | cases ha)

theorem RunState.step_visible (ha : a.ofLoop = true) (hview : s.loop = t.loop) :
    (s.step d x a).map RunState.loop = (t.step d x a).map RunState.loop := by
  obtain ⟨hphase, hc, hdue, hw⟩ := RunState.loop_eq_iff.mp hview
  rcases hphase with hphase | ⟨hs, ht⟩
  · cases a with
    | server act => cases ha
    | joinServer => cases ha
    | cancel => exact congrArg some (RunState.loop_eq_iff.mpr ⟨.inl hphase, rfl, hdue, hw⟩)
    | intervalElapsed => exact congrArg some (RunState.loop_eq_iff.mpr ⟨.inl hphase, hc, rfl, hw⟩)
    | scrapeReturned att =>
      simp only [RunState.step, hphase]
      split
      · exact congrArg some (RunState.scraped_loop att _ hw hc rfl)
      · exact congrArg some (RunState.scraped_loop att _ hw hc hdue)
      · rfl
    | firstTick =>
      simp only [RunState.step, hphase, hdue]
      split
      · exact congrArg some (RunState.loop_eq_iff.mpr ⟨.inl rfl, hc, rfl, hw⟩)
      · rfl
    | selectCancelled =>
      simp only [RunState.step, hphase, hc]
      split
      · exact congrArg some (RunState.loop_eq_iff.mpr ⟨.inl rfl, rfl, hdue, hw⟩)
      · rfl
    | selectTick =>
      simp only [RunState.step, hphase, hdue]
      split
      · exact congrArg some (RunState.loop_eq_iff.mpr ⟨.inl rfl, hc, rfl, hw⟩)
      · rfl
  · rw [RunState.step_left hs ha, RunState.step_left ht ha]
    cases a with
    | cancel => exact congrArg some (RunState.loop_eq_iff.mpr ⟨.inr ⟨hs, ht⟩, rfl, hdue, hw⟩)
    | intervalElapsed =>
      exact congrArg some (RunState.loop_eq_iff.mpr ⟨.inr ⟨hs, ht⟩, hc, rfl, hw⟩)
    | _ => rfl

/-! ### Leaving the loop -/

/-- Once the loop is left it stays left. -/
theorem RunState.left_step (hleft : s.phase.Left) (h : s.step d x a = some s') :
    s'.phase.Left := by
  cases ha : a.ofLoop with
  | true =>
    rw [RunState.step_left hleft ha] at h
    split at h
    · exact Option.some.inj h ▸ hleft
    · exact Option.some.inj h ▸ hleft
    · cases h
  | false =>
    obtain ⟨hphase | ⟨hs, -⟩, -⟩ := RunState.loop_eq_iff.mp (RunState.step_hidden ha h)
    · exact hphase ▸ hleft
    · exact hs

theorem RunState.selectCancelled_eq_some (h : s.step d x .selectCancelled = some s') :
    s.cancelled = true ∧ s' = { s with phase := .joining } := by
  simp only [RunState.step] at h
  split at h
  next hc => exact ⟨hc, (Option.some.inj h).symm⟩
  next => cases h

theorem RunState.joinServer_eq_some (h : s.step d x .joinServer = some s') :
    s.phase = .joining ∧
      ∃ r, s.server = .ended r ∧ s' = { s with phase := .returned (joinResult r) } := by
  simp only [RunState.step] at h
  split at h
  next r hphase hserver => exact ⟨hphase, r, hserver, (Option.some.inj h).symm⟩
  next => cases h

/-- No scrape starts after the loop has been left. -/
theorem no_tick_after_left {acts : List RunAct} (hleft : s.phase.Left)
    (h : execute (RunState.step d x) s acts = some s') : .selectTick ∉ acts :=
  not_mem_of_execute (I := fun t => t.phase.Left) hleft (fun _ _ _ => RunState.left_step)
    (fun _ ht => RunState.step_left ht rfl) h

/-- `run` has left the loop only by the cancellation, and returned only what the server task
ended with. -/
structure RunState.Explained (pre : List RunAct) (s : RunState) : Prop where
  left : s.phase.Left → .selectCancelled ∈ pre
  returned : ∀ r, s.phase = .returned r → ∃ j, s.server = .ended j ∧ r = joinResult j

theorem RunState.explained_of_not_left {pre : List RunAct} (h : ¬ s.phase.Left) :
    s.Explained pre :=
  ⟨fun hleft => absurd hleft h, fun _ hphase => absurd (hphase ▸ trivial) h⟩

/-- A scrape that returns does not leave the loop. -/
theorem RunState.scraped_not_left (a : Attempt) {next : Phase} (hnext : ¬ next.Left) :
    ¬ (s.scraped d x a next).phase.Left := by
  unfold RunState.scraped
  split
  · exact id
  · exact hnext

theorem RunState.explained_step {pre : List RunAct} (hI : s.Explained pre)
    (h : s.step d x a = some s') : s'.Explained (pre ++ [a]) := by
  cases a with
  | cancel =>
    obtain rfl := Option.some.inj h
    exact ⟨fun hleft => List.mem_append_left _ (hI.left hleft), hI.returned⟩
  | intervalElapsed =>
    obtain rfl := Option.some.inj h
    exact ⟨fun hleft => List.mem_append_left _ (hI.left hleft), hI.returned⟩
  | server act =>
    obtain ⟨task, htask, rfl⟩ := Option.map_eq_some_iff.mp h
    refine ⟨fun hleft => List.mem_append_left _ (hI.left hleft), fun r hr => ?_⟩
    -- a joined server task has ended, and takes no more steps
    obtain ⟨j, hj, -⟩ := hI.returned r hr
    rw [hj] at htask
    cases act <;> cases htask
  | scrapeReturned att =>
    apply RunState.explained_of_not_left
    simp only [RunState.step] at h
    split at h
    · obtain rfl := Option.some.inj h
      apply RunState.scraped_not_left
      unfold Exporter.tickerPhase
      split_ifs <;> exact id
    · obtain rfl := Option.some.inj h
      exact RunState.scraped_not_left _ id
    · cases h
  | firstTick =>
    apply RunState.explained_of_not_left
    simp only [RunState.step] at h
    split at h
    · obtain rfl := Option.some.inj h
      exact id
    · cases h
  | selectCancelled =>
    obtain ⟨-, rfl⟩ := RunState.selectCancelled_eq_some h
    exact ⟨fun _ => List.mem_append_right _ List.mem_cons_self, fun r hr => nomatch hr⟩
  | selectTick =>
    apply RunState.explained_of_not_left
    simp only [RunState.step] at h
    split at h
    · obtain rfl := Option.some.inj h
      exact id
    · cases h
  | joinServer =>
    obtain ⟨hphase, j, hj, rfl⟩ := RunState.joinServer_eq_some h
    constructor
    · intro _
      exact List.mem_append_left _ (hI.left (by rw [hphase]; trivial))
    · intro r hr
      exact ⟨j, hj, (Phase.returned.inj hr).symm⟩

/-- Whatever the server task does, the loop is where it would be without it: its steps alone
lead to the same loop, and none of them depends on the state of the task. No scrape starts
after the cancellation was selected; `run` returns after that, with what the task ended with. -/
theorem loop_without_server {acts : List RunAct} {s : RunState}
    (h : execute (RunState.step d x) .initial acts = some s) :
    (∃ t, execute (RunState.step d x) .initial (acts.filter RunAct.ofLoop) = some t ∧
      t.loop = s.loop) ∧
    (∀ a task, a.ofLoop = true → (s.step d x a).map RunState.loop =
      (({ s with server := task } : RunState).step d x a).map RunState.loop) ∧
    (∀ pre post, acts = pre ++ .selectCancelled :: post → .selectTick ∉ post) ∧
    ∀ r, s.phase = .returned r →
      .selectCancelled ∈ acts ∧ ∃ j, s.server = .ended j ∧ r = joinResult j := by
  refine ⟨?_, ?_, ?_, ?_⟩
  · exact execute_visible (fun _ _ _ => RunState.step_hidden) (fun _ _ _ => RunState.step_visible)
      rfl h
  · intro a task ha
    exact RunState.step_visible ha (RunState.loop_eq_iff.mpr ⟨.inl rfl, rfl, rfl, rfl⟩)
  · rintro pre post rfl
    obtain ⟨t, -, hpost⟩ := execute_append_eq_some.mp h
    obtain ⟨u, hu, hpost⟩ := execute_cons_eq_some.mp hpost
    obtain ⟨-, rfl⟩ := RunState.selectCancelled_eq_some hu
    have hleft : ({ t with phase := .joining } : RunState).phase.Left := trivial
    exact no_tick_after_left hleft hpost
  · intro r hr
    have hinit : RunState.initial.Explained [] := RunState.explained_of_not_left id
    have hs : s.Explained acts := execute_trace (I := fun pre s => RunState.Explained pre s) hinit
      (fun _ _ _ _ => RunState.explained_step) h
    exact ⟨hs.left (hr ▸ trivial), hs.returned r hr⟩

/-- Once the server task has ended with an error, the loop starts no scrape. -/
def StopsWithServer (d : Deps) (x : Exporter) : Prop :=
  ∀ pre post s s', execute (RunState.step d x) .initial pre = some s → s.server.Failed →
    execute (RunState.step d x) s post = some s' → .selectTick ∉ post

/-- The supply, every thirty seconds. -/
def halfMinuteConfig : Config :=
  { Reference.supplyConfig with
    scrape := { interval := 30000000000, maxCallsPerBatch := 500 } }

/-- The same, served at an address. -/
def servedConfig : Config :=
  { halfMinuteConfig with server := { listenAddress := "0.0.0.0:9100" } }

/-- The RPC does not answer in time. -/
def unanswered : Attempt := ⟨fun _ _ => none, ⟨.zero, .zero⟩⟩

/-- The address is in use when the server binds it, and the loop scrapes at its next tick. -/
theorem scrape_after_failed_bind :
    ∃ cfg plan registry, validate reference "." servedConfig = .ok cfg ∧
      build reference cfg [] = .ok (plan, registry) ∧ ¬ StopsWithServer reference ⟨cfg, plan⟩ := by
  let failed (cfg : Config) : RunState := { RunState.initial with
    server := .ended (.ok (.error (.bind cfg.server.listenAddress "address in use"))) }
  let scraping : List RunAct := [.scrapeReturned unanswered, .firstTick, .intervalElapsed, .selectTick]
  obtain ⟨cfg, plan, registry, hv, hb, h⟩ := Reference.of_check servedConfig
    (fun cfg plan => (execute (RunState.step reference ⟨cfg, plan⟩) (failed cfg) scraping).isSome)
    (by decide +kernel)
  obtain ⟨s, hs⟩ := Option.isSome_iff_exists.mp h
  refine ⟨cfg, plan, registry, hv, hb, fun hstops => ?_⟩
  exact hstops [.server (.bindFailed "address in use")] scraping (failed cfg) s rfl (.inl ⟨_, rfl⟩) hs
    (by simp [scraping])

/-- The bind fails, and the run is cancelled while it waits for its second scrape. -/
def failedBindRun : List RunAct :=
  [.server (.bindFailed "address in use"), .scrapeReturned unanswered, .firstTick, .cancel,
    .selectCancelled, .joinServer]

/-- The run has returned the error of a bind of the address. -/
def RunState.refused (s : RunState) (address : String) : Bool :=
  match s.phase with
  | .returned (.error (.bind a _)) => a = address
  | _ => false

theorem RunState.refused_iff {address : String} :
    s.refused address = true ↔ ∃ cause, s.phase = .returned (.error (.bind address cause)) := by
  unfold RunState.refused
  split
  next a cause h => simp [h]
  next h =>
    refine ⟨nofun, ?_⟩
    rintro ⟨cause, hphase⟩
    exact absurd hphase (h address cause)

/-- The error of the bind is returned, after the cancellation. -/
theorem failed_bind_returned :
    ∃ cfg plan registry s cause, validate reference "." servedConfig = .ok cfg ∧
      build reference cfg [] = .ok (plan, registry) ∧
      execute (RunState.step reference ⟨cfg, plan⟩) .initial failedBindRun = some s ∧
      s.phase = .returned (.error (.bind "0.0.0.0:9100" cause)) ∧
      .selectCancelled ∈ failedBindRun ∧
      ∃ t, execute (RunState.step reference ⟨cfg, plan⟩) .initial
        (failedBindRun.filter RunAct.ofLoop) = some t ∧ t.loop = s.loop := by
  obtain ⟨cfg, plan, registry, hv, hb, h⟩ := Reference.of_check servedConfig
    (fun cfg plan => (execute (RunState.step reference ⟨cfg, plan⟩) .initial failedBindRun).any
      fun s => s.refused "0.0.0.0:9100") (by decide +kernel)
  obtain ⟨s, hs, hrefused⟩ := (Option.any_eq_true _ _).mp h
  obtain ⟨cause, hphase⟩ := RunState.refused_iff.mp hrefused
  obtain ⟨halone, -, -, hreturned⟩ := loop_without_server hs
  exact ⟨cfg, plan, registry, s, cause, hv, hb, hs, hphase, (hreturned _ hphase).1, halone⟩

/-! ### The metrics of a run -/

/-- The scrape attempts of an interleaving. -/
def RunAct.attempt? : RunAct → Option Attempt
  | .scrapeReturned a => some a
  | _ => none

theorem RunState.step_metrics (ha : a.attempt? = none) (h : s.step d x a = some s') :
    s'.metrics = s.metrics := by
  cases a with
  | scrapeReturned att => cases ha
  | cancel => exact Option.some.inj h ▸ rfl
  | intervalElapsed => exact Option.some.inj h ▸ rfl
  | server act =>
    obtain ⟨task, -, rfl⟩ := Option.map_eq_some_iff.mp h
    rfl
  | _ =>
    simp only [RunState.step] at h
    split at h
    · exact Option.some.inj h ▸ rfl
    · cases h

/-- A run that has panicked takes no more scrapes and keeps its metrics. -/
theorem RunState.step_panicked (hs : s.phase = .panicked) (h : s.step d x a = some s') :
    a.attempt? = none ∧ s'.phase = .panicked ∧ s'.metrics = s.metrics := by
  cases a with
  | cancel => exact Option.some.inj h ▸ ⟨rfl, hs, rfl⟩
  | intervalElapsed => exact Option.some.inj h ▸ ⟨rfl, hs, rfl⟩
  | server act =>
    obtain ⟨task, -, rfl⟩ := Option.map_eq_some_iff.mp h
    exact ⟨rfl, hs, rfl⟩
  | _ => simp [RunState.step, hs] at h

theorem execute_panicked {acts : List RunAct} (hs : s.phase = .panicked)
    (h : execute (RunState.step d x) s acts = some s') :
    acts.filterMap RunAct.attempt? = [] ∧ s'.metrics = s.metrics := by
  induction acts generalizing s with
  | nil => exact Option.some.inj h ▸ ⟨rfl, rfl⟩
  | cons a acts ih =>
    obtain ⟨t, ht, h⟩ := execute_cons_eq_some.mp h
    obtain ⟨ha, hphase, hw⟩ := RunState.step_panicked hs ht
    obtain ⟨hacts, hw'⟩ := ih hphase h
    exact ⟨by rw [List.filterMap_cons_none ha, hacts], hw'.trans hw⟩

/-- The metrics in an interleaving are those of its scrape attempts, run one after the other. -/
theorem execute_metrics {acts : List RunAct} (h : execute (RunState.step d x) s acts = some s') :
    s'.metrics = run d x (acts.filterMap RunAct.attempt?) s.metrics := by
  induction acts generalizing s with
  | nil => exact Option.some.inj h ▸ rfl
  | cons a acts ih =>
    obtain ⟨t, ht, h⟩ := execute_cons_eq_some.mp h
    cases ha : a.attempt? with
    | none => rw [List.filterMap_cons_none ha, ih h, RunState.step_metrics ha ht]
    | some att =>
      obtain rfl : a = .scrapeReturned att := by cases a <;> cases ha; rfl
      obtain ⟨s₀, next, hs₀, rfl⟩ : ∃ (s₀ : RunState) (next : Phase),
          s₀.metrics = s.metrics ∧ s₀.scraped d x att next = t := by
        simp only [RunState.step] at ht
        split at ht
        · exact ⟨{ s with tickDue := true }, _, rfl, Option.some.inj ht⟩
        · exact ⟨s, _, rfl, Option.some.inj ht⟩
        · cases ht
      cases hrun : runScrape d x att s₀.metrics with
      | mk w e =>
        simp only [RunState.scraped, hrun] at h
        rw [List.filterMap_cons_some ha, run, ← hs₀, hrun]
        cases e with
        | panicked p => exact (execute_panicked rfl h).2
        | completed => exact ih h
        | failed e => exact ih h
        | elapsed => exact ih h

end EvmExporter
