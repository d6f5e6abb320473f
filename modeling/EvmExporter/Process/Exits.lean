import EvmExporter.Process
import EvmExporter.Reference

/-! How a process ends. Once its exporter runs it cannot panic: a loaded configuration has an
interval, and a plan is well formed. What the exit status says is traced back to the steps
that led to it. -/

namespace EvmExporter

open Lib

variable {d : ProcessDeps} {cli : Cli} {x : Exporter} {s s' : RunState} {a : RunAct}

/-! ### Causes -/

/-- What must have happened for a run to be where it is. -/
structure RunState.Caused (pre : List RunAct) (s : RunState) : Prop where
  cancelled : s.cancelled = true → .cancel ∈ pre
  serving : s.server = .serving → .server .bound ∈ pre
  graceful : s.server = .ended (.ok (.ok ())) →
    .cancel ∈ pre ∧ .server .bound ∈ pre ∧ .server .shutDown ∈ pre
  left : s.phase.Left → .cancel ∈ pre
  joined : ∀ r, s.phase = .returned r → ∃ j, s.server = .ended j ∧ r = joinResult j

/-- A step of the server task binds the listener, ends it well after the cancellation, or
fails it. -/
theorem ServerTask.step_cases {srv : Server} {c : Bool} {t t' : ServerTask} {act : ServerAct}
    (h : t.step srv c act = some t') :
    (t = .binding ∧ act = .bound ∧ t' = .serving) ∨
      (t = .serving ∧ act = .shutDown ∧ c = true ∧ t' = .ended (.ok (.ok ()))) ∨ t'.Failed := by
  unfold ServerTask.step at h
  split at h
  · exact .inl ⟨rfl, rfl, (Option.some.inj h).symm⟩
  · exact .inr (.inr (.inl ⟨_, (Option.some.inj h).symm⟩))
  · exact .inr (.inr (.inr ⟨_, (Option.some.inj h).symm⟩))
  · split_ifs at h with hc
    exact .inr (.inl ⟨rfl, rfl, hc, (Option.some.inj h).symm⟩)
  · exact .inr (.inr (.inl ⟨_, (Option.some.inj h).symm⟩))
  · exact .inr (.inr (.inr ⟨_, (Option.some.inj h).symm⟩))
  · cases h

theorem ServerTask.Failed.not_graceful {t : ServerTask} (h : t.Failed) :
    t ≠ .serving ∧ t ≠ .ended (.ok (.ok ())) := by
  rcases h with ⟨e, rfl⟩ | ⟨cause, rfl⟩ <;> exact ⟨nofun, nofun⟩

theorem RunState.scraped_frame {d : Deps} {x : Exporter} (s : RunState) (att : Attempt) (next : Phase) :
    (s.scraped d x att next).cancelled = s.cancelled ∧
      (s.scraped d x att next).server = s.server := by
  unfold RunState.scraped
  split <;> exact ⟨rfl, rfl⟩

theorem Exporter.tickerPhase_not_left (x : Exporter) : ¬ x.tickerPhase.Left := by
  unfold Exporter.tickerPhase
  split_ifs <;> exact id

/-- A step that changes neither the cancellation nor the server task, and stays in the loop. -/
theorem RunState.Caused.frame {pre : List RunAct} (hs : s.Caused pre)
    (hframe : s'.cancelled = s.cancelled ∧ s'.server = s.server) (hloop : ¬ s'.phase.Left) :
    s'.Caused (pre ++ [a]) := by
  obtain ⟨hc, hserver⟩ := hframe
  constructor
  case cancelled => exact fun h => List.mem_append_left _ (hs.cancelled (hc ▸ h))
  case serving => exact fun h => List.mem_append_left _ (hs.serving (hserver ▸ h))
  case graceful =>
    intro h
    obtain ⟨hcancel, hbound, hdown⟩ := hs.graceful (hserver ▸ h)
    exact ⟨List.mem_append_left _ hcancel, List.mem_append_left _ hbound,
      List.mem_append_left _ hdown⟩
  case left => exact fun h => absurd h hloop
  case joined => exact fun r hr => absurd (hr ▸ trivial) hloop

theorem RunState.Caused.server {pre : List RunAct} {srv : Server} (hs : s.Caused pre)
    {act : ServerAct} {t : ServerTask} (h : s.server.step srv s.cancelled act = some t) :
    ({ s with server := t } : RunState).Caused (pre ++ [.server act]) := by
  have hkeep {b : RunAct} (hb : b ∈ pre) : b ∈ pre ++ [.server act] := List.mem_append_left _ hb
  have hlast : RunAct.server act ∈ pre ++ [.server act] := List.mem_append_right _ List.mem_cons_self
  constructor
  case cancelled => exact fun hc => hkeep (hs.cancelled hc)
  case serving =>
    rintro rfl
    rcases ServerTask.step_cases h with ⟨-, rfl, -⟩ | ⟨-, -, -, ht⟩ | hfailed
    · exact hlast
    · cases ht
    · exact absurd rfl hfailed.not_graceful.1
  case graceful =>
    rintro rfl
    rcases ServerTask.step_cases h with ⟨-, -, ht⟩ | ⟨hserving, rfl, hc, -⟩ | hfailed
    · cases ht
    · exact ⟨hkeep (hs.cancelled hc), hkeep (hs.serving hserving), hlast⟩
    · exact absurd rfl hfailed.not_graceful.2
  case left => exact fun hleft => hkeep (hs.left hleft)
  case joined =>
    -- a task that was joined has ended, and takes no more steps
    intro r hr
    obtain ⟨j, hj, -⟩ := hs.joined r hr
    rw [hj] at h
    cases act <;> cases h

theorem RunState.Caused.step {d : Deps} {pre : List RunAct} (hs : s.Caused pre)
    (h : s.step d x a = some s') : s'.Caused (pre ++ [a]) := by
  have hkeep {b : RunAct} (hb : b ∈ pre) : b ∈ pre ++ [a] := List.mem_append_left _ hb
  have hgraceful (hg : s.server = .ended (.ok (.ok ()))) : .cancel ∈ pre ++ [a] ∧
      .server .bound ∈ pre ++ [a] ∧ .server .shutDown ∈ pre ++ [a] :=
    ⟨hkeep (hs.graceful hg).1, hkeep (hs.graceful hg).2.1, hkeep (hs.graceful hg).2.2⟩
  rcases RunState.step_cases h with ⟨rfl, rfl⟩ | ⟨rfl, rfl⟩ | ⟨act, t, rfl, ht, rfl⟩ | hloop
  · exact ⟨fun _ => List.mem_append_right _ List.mem_cons_self, fun h => hkeep (hs.serving h),
      hgraceful, fun h => hkeep (hs.left h), hs.joined⟩
  · exact ⟨fun h => hkeep (hs.cancelled h), fun h => hkeep (hs.serving h), hgraceful,
      fun h => hkeep (hs.left h), hs.joined⟩
  · exact hs.server ht
  · cases hloop with
    | initialScrape att hphase =>
      exact hs.frame (RunState.scraped_frame _ att _)
        (RunState.scraped_not_left att x.tickerPhase_not_left)
    | scrape att hphase =>
      exact hs.frame (RunState.scraped_frame s att _) (RunState.scraped_not_left att id)
    | firstTick hphase hdue => exact hs.frame ⟨rfl, rfl⟩ id
    | selectTick hphase hdue => exact hs.frame ⟨rfl, rfl⟩ id
    | selectCancelled hphase hc =>
      exact ⟨fun h => hkeep (hs.cancelled h), fun h => hkeep (hs.serving h), hgraceful,
        fun _ => hkeep (hs.cancelled hc), nofun⟩
    | joinServer r hphase hserver =>
      have hleft : s.phase.Left := by
        rw [hphase]
        trivial
      exact ⟨fun h => hkeep (hs.cancelled h), fun h => hkeep (hs.serving h), hgraceful,
        fun _ => hkeep (hs.left hleft), fun r' hr => ⟨r, hserver, (Phase.returned.inj hr).symm⟩⟩

theorem RunState.caused_initial : RunState.initial.Caused [] := by
  constructor <;> simp [RunState.initial, Phase.Left]

theorem execute_caused {d : Deps} {acts : List RunAct}
    (h : execute (RunState.step d x) .initial acts = some s) : s.Caused acts :=
  execute_trace (I := fun pre s => RunState.Caused pre s) RunState.caused_initial
    (fun _ _ _ _ => RunState.Caused.step) h

/-! ### The exit -/

theorem joinResult_cases (j : JoinResult) : (j = .ok (.ok ()) ∧ joinResult j = .ok ()) ∨
    ((ServerTask.ended j).Failed ∧ ∃ e, joinResult j = .error e) := by
  rcases j with cause | (e | u)
  · exact .inr ⟨.inr ⟨cause, rfl⟩, _, rfl⟩
  · exact .inr ⟨.inl ⟨e, rfl⟩, e, rfl⟩
  · exact .inl ⟨rfl, rfl⟩

/-- An exporter that was launched never panics, and from wherever it is it can come to an exit
without another scrape. It exits with status 0 only after it was cancelled and its server had
been bound and was shut down, and with 1 only after it was cancelled, when its server had
failed; there is no other status. Every scrape that fails on the way has a documented
reason. -/
theorem exits_explained {answers : (q : Probe) → ProbeReply q} {drv : Multicall.Driver}
    {registry : Registry}
    (hlaunched : ((launch d cli).run (fun _ q => some (answers q)) 0 ()).result =
      some (.running x drv registry)) {acts : List RunAct}
    (h : execute (RunState.step d.toDeps x) .initial acts = some s) :
    let status := (Launched.running x drv registry).status d.toDebugText
    (∀ n, status s = some n →
      (n = 0 ∧ .cancel ∈ acts ∧ .server .bound ∈ acts ∧ .server .shutDown ∈ acts) ∨
        (n = 1 ∧ .cancel ∈ acts ∧ s.server.Failed)) ∧
      (∃ post s', (∀ a ∈ post, RunAct.ShutsDown a) ∧ post.length ≤ 7 ∧
        execute (RunState.step d.toDeps x) s post = some s' ∧ (status s').isSome) ∧
      ∀ l : LiveAttempt, FailsScrape d.toDeps x (l.attempt drv) →
        ∃ reason, l.Documented drv x reason := by
  intro status
  obtain ⟨-, hstarts⟩ := (running_iff answers).mp hlaunched
  obtain ⟨gauges, hb, -⟩ := hstarts.registers
  have hwf : x.plan.WellFormed := build_wellFormed hb
  have hinterval : x.cfg.scrape.interval ≠ 0 :=
    Nat.pos_iff_ne_zero.mp (load_eq_ok hstarts.loads).2.1.interval_pos
  have hsound : s.Sound := execute_sound hwf hinterval h
  have hcaused := execute_caused h
  refine ⟨?_, ?_, ?_⟩
  · intro n hn
    change Launched.status _ _ _ = some n at hn
    unfold Launched.status at hn
    simp only at hn
    split at hn
    next result hphase =>
      obtain ⟨j, hj, rfl⟩ := hcaused.joined _ hphase
      have hcancel := hcaused.left (hphase ▸ trivial)
      rcases joinResult_cases j with ⟨rfl, hresult⟩ | ⟨hfailed, e, hresult⟩
      · rw [hresult] at hn
        exact .inl ⟨(Option.some.inj hn).symm, hcaused.graceful hj⟩
      · rw [hresult] at hn
        exact .inr ⟨(Option.some.inj hn).symm, hcancel, hj ▸ hfailed⟩
    next hphase => exact absurd hphase hsound.not_panicked
    next => cases hn
  · obtain ⟨post, s', hpost, hlen, hexec, r, hr⟩ :=
      execute_progress (fun s => ∃ r, s.phase = Phase.returned r) RunState.distance
        (fun t ht hnot => RunState.Sound.shuts_down (d := d.toDeps) hwf hinterval ht hnot) s hsound
    refine ⟨post, s', hpost, hlen.trans s.distance_le, hexec, ?_⟩
    simp [status, Launched.status, hr]
  · obtain ⟨tag, n, htag, -⟩ := hstarts.block
    exact fun l hl => documented_of_fails htag hl

/-! ### A process that reads one token -/

namespace Reference

/-- The configuration file of the token. -/
def tokenYaml : String :=
  "chain:\n  rpc_url: http://node:8545\n  chain_id: 1\n" ++
    "contracts:\n  - name: token\n    abi_path: token.json\n" ++
    "    instances:\n      - address: '" ++ tokenAddress ++ "'\n" ++
    "    metrics:\n      - function: totalSupply\n"

/-- The tree of the file. -/
def tokenValue : Value :=
  .mapping [
    (.string "chain", .mapping [(.string "rpc_url", .string "http://node:8545"),
      (.string "chain_id", .number (.posInt 1))]),
    (.string "contracts", .sequence [.mapping [(.string "name", .string "token"),
      (.string "abi_path", .string "token.json"),
      (.string "instances", .sequence [.mapping [(.string "address", .string tokenAddress)]]),
      (.string "metrics", .sequence [.mapping [(.string "function", .string "totalSupply")]])]])]

/-- Decode a tree of that shape. -/
def fromValue : Value → Except String Config
  | .mapping [
      (.string "chain", .mapping [(.string "rpc_url", .string rpcUrl),
        (.string "chain_id", .number (.posInt chainId))]),
      (.string "contracts", .sequence [.mapping [(.string "name", .string name),
        (.string "abi_path", .string abiPath),
        (.string "instances", .sequence [.mapping [(.string "address", .string address)]]),
        (.string "metrics", .sequence [.mapping [(.string "function", .string function)]])]])] =>
    .ok {
      chain := { rpcUrl, chainId }
      contracts := [{ name, abiPath, instances := [{ address }], metrics := [{ function }] }] }
  | _ => .error "invalid type"

end Reference

open Reference in
/-- The libraries of the process, and its two files. -/
def referenceProcess : ProcessDeps :=
  { reference with
    readToString := fun path =>
      if path = "token.yaml" then .ok tokenYaml
      else if path = "token.json" then .ok tokenJson
      else .error "No such file or directory"
    fromStr := fun text =>
      if text = tokenYaml then .ok tokenValue else .error "did not find expected node content"
    fromValue := Reference.fromValue
    env := fun _ => .error .notPresent
    tryFilter := fun level => level ∈ ["trace", "debug", "info", "warn", "error"]
    parseUrl := fun url =>
      if url.startsWith "http://" then .ok url else .error "relative URL without a base" }

/-- The node of chain 1, at block 100. -/
def mainnetAnswers : (q : Probe) → ProbeReply q
  | .chainId => .ok 1
  | .block _ => .ok (some 100)

/-- The server binds, one scrape fails, and the process is cancelled. -/
def cancelledRun : List RunAct :=
  [.server .bound, .scrapeReturned unanswered, .firstTick, .cancel, .selectCancelled,
    .server .shutDown, .joinServer]

def tokenLaunch : Future.Outcome Unit Probe Launched :=
  (launch referenceProcess { config := "token.yaml" }).run (fun _ q => some (mainnetAnswers q)) 0 ()

/-- The process of the token exits with status 0. -/
theorem token_process_exits :
    ∃ x drv registry s, tokenLaunch.result = some (.running x drv registry) ∧
      execute (RunState.step referenceProcess.toDeps x) .initial cancelledRun = some s ∧
      (Launched.running x drv registry).status referenceProcess.toDebugText s = some 0 ∧
      .cancel ∈ cancelledRun ∧ .server .bound ∈ cancelledRun ∧ .server .shutDown ∈ cancelledRun := by
  have hrun : tokenLaunch.result.any (fun
        | .running x drv registry =>
          (execute (RunState.step referenceProcess.toDeps x) .initial cancelledRun).any fun s =>
            (Launched.running x drv registry).status referenceProcess.toDebugText s = some 0
        | .ended _ => false) = true := by decide +kernel
  obtain ⟨launched, hlaunched, h⟩ := (Option.any_eq_true _ _).mp hrun
  cases launched with
  | ended result => cases h
  | running x drv registry =>
    obtain ⟨s, hs, hstatus⟩ := (Option.any_eq_true _ _).mp h
    have hzero := of_decide_eq_true hstatus
    rcases (exits_explained hlaunched hs).1 0 hzero with ⟨-, hcaused⟩ | ⟨hone, -⟩
    · exact ⟨x, drv, registry, s, hlaunched, hs, hzero, hcaused⟩
    · cases hone

end EvmExporter
