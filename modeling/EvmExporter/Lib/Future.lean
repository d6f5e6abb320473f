import Mathlib.Data.Nat.Notation
import Mathlib.Logic.Basic

/-! Computations that suspend. A `Future` changes a shared state in atomic steps and
waits for answers at its `await` points; whoever drives it may drop it while it
waits, which leaves the state as the steps before that point made it. `run` drives a
future against an environment that answers the `n`-th await or lets a deadline pass
there, and records every question asked. -/

namespace EvmExporter.Lib

universe u v w x

/-- A computation over the state `σ` that awaits an `A q` for each question `q`.
The continuation of a step receives the state the step found. -/
inductive Future (σ : Type u) (Q : Type v) (A : Q → Type w) (α : Type x) where
  | done (a : α)
  | act (f : σ → σ) (next : σ → Future σ Q A α)
  | await (q : Q) (next : A q → Future σ Q A α)

namespace Future

variable {σ : Type u} {Q : Type v} {A : Q → Type w} {α : Type x}

/-- How a driven future ended: `none` when it was dropped at its last question. -/
structure Outcome (σ : Type u) (Q : Type v) (α : Type x) where
  state : σ
  result : Option α
  asked : List Q

/-- Drive a future whose next await is the `n`-th of the run. -/
def run (answer : ℕ → (q : Q) → Option (A q)) : Future σ Q A α → ℕ → σ → Outcome σ Q α
  | .done a, _, s => ⟨s, some a, []⟩
  | .act f next, n, s => (next s).run answer n (f s)
  | .await q next, n, s =>
    match answer n q with
    | none => ⟨s, none, [q]⟩
    | some a =>
      let rest := (next a).run answer (n + 1) s
      { rest with asked := q :: rest.asked }

/-- Go on with the result of a future. -/
protected def bind {β : Type x} : Future σ Q A α → (α → Future σ Q A β) → Future σ Q A β
  | .done a, g => g a
  | .act f next, g => .act f fun s => (next s).bind g
  | .await q next, g => .await q fun a => (next a).bind g

instance : Monad (Future σ Q A) where
  pure := .done
  bind := .bind

variable {answer : ℕ → (q : Q) → Option (A q)} {n : ℕ} {s : σ}

@[simp] theorem run_done (a : α) :
    (done a : Future σ Q A α).run answer n s = ⟨s, some a, []⟩ := rfl

@[simp] theorem run_act (f : σ → σ) (next : σ → Future σ Q A α) :
    (act f next).run answer n s = (next s).run answer n (f s) := rfl

theorem run_await_none {q : Q} {next : A q → Future σ Q A α} (h : answer n q = none) :
    (await q next).run answer n s = ⟨s, none, [q]⟩ := by
  simp [run, h]

theorem run_await_some {q : Q} {next : A q → Future σ Q A α} {a : A q} (h : answer n q = some a) :
    (await q next).run answer n s =
      { (next a).run answer (n + 1) s with
        asked := q :: ((next a).run answer (n + 1) s).asked } := by
  simp [run, h]

@[simp] theorem run_pure (a : α) :
    (pure a : Future σ Q A α).run answer n s = ⟨s, some a, []⟩ := rfl

/-- A sequence of two futures is dropped where the first is, or goes on with the second. -/
theorem run_bind_eq {β : Type x} (t : Future σ Q A α) (g : α → Future σ Q A β) (n : ℕ) (s : σ) :
    (t >>= g).run answer n s =
      match t.run answer n s with
      | ⟨s', none, asked⟩ => ⟨s', none, asked⟩
      | ⟨s', some a, asked⟩ =>
        { (g a).run answer (n + asked.length) s' with
          asked := asked ++ ((g a).run answer (n + asked.length) s').asked } := by
  change (t.bind g).run answer n s = _
  induction t generalizing n s with
  | done b => rfl
  | act f next ih => exact ih s n (f s)
  | await q next ih =>
    cases hq : answer n q with
    | none => simp only [Future.bind, run_await_none hq]
    | some b =>
      have hb := ih b (n + 1) s
      rw [run_await_some hq]
      rw [Future.bind, run_await_some hq, hb]
      obtain ⟨s', result, asked⟩ := (next b).run answer (n + 1) s
      cases result with
      | none => rfl
      | some a =>
        have hn : n + (q :: asked).length = n + 1 + asked.length := by
          rw [List.length_cons, Nat.add_assoc, Nat.add_comm 1]
        simp only [hn, List.cons_append]

/-- A sequence of two futures asks the questions of the first, then those of the second. -/
theorem run_bind {β : Type x} {t : Future σ Q A α} {g : α → Future σ Q A β} {s' : σ} {a : α}
    {asked : List Q} (h : t.run answer n s = ⟨s', some a, asked⟩) :
    (t >>= g).run answer n s =
      { (g a).run answer (n + asked.length) s' with
        asked := asked ++ ((g a).run answer (n + asked.length) s').asked } := by
  rw [run_bind_eq, h]

/-- A sequence whose first future is dropped is dropped there. -/
theorem run_bind_dropped {β : Type x} {t : Future σ Q A α} {g : α → Future σ Q A β} {s' : σ}
    {asked : List Q} (h : t.run answer n s = ⟨s', none, asked⟩) :
    (t >>= g).run answer n s = ⟨s', none, asked⟩ := by
  rw [run_bind_eq, h]

/-- Ask the questions of a future as questions of another kind. -/
def embed {Q' : Type v} {A' : Q' → Type w} (f : Q → Q') (g : ∀ q, A' (f q) → A q) :
    Future σ Q A α → Future σ Q' A' α
  | .done a => .done a
  | .act h next => .act h fun s => (next s).embed f g
  | .await q next => .await (f q) fun a => (next (g q a)).embed f g

/-- An embedded future runs as it does alone, against the answers it is passed. -/
theorem run_embed {Q' : Type v} {A' : Q' → Type w} (f : Q → Q') (g : ∀ q, A' (f q) → A q)
    (answer : ℕ → (q : Q') → Option (A' q)) (t : Future σ Q A α) (n : ℕ) (s : σ) :
    (t.embed f g).run answer n s =
      let o := t.run (fun n q => (answer n (f q)).map (g q)) n s
      ⟨o.state, o.result, o.asked.map f⟩ := by
  induction t generalizing n s with
  | done a => rfl
  | act h next ih => exact ih s n (h s)
  | await q next ih =>
    cases ha : answer n (f q) with
    | none => simp [embed, run, ha]
    | some a => simp [embed, run, ha, ih (g q a) (n + 1) s]

end Future

end EvmExporter.Lib
