import Mathlib.Algebra.GroupWithZero.Nat
import Mathlib.Data.List.Basic
import Mathlib.Data.Nat.Notation

/-! Machines that several parties drive. A machine takes labelled steps, each possible in
some of its states; an interleaving is a list of labels, and `execute` takes them in order.
An invariant of the steps holds after every interleaving, and labels that a view of the
state does not see can be deleted from an interleaving without changing the view. -/

namespace EvmExporter.Lib

universe u v w

variable {σ : Type u} {α : Type v} {τ : Type w} {step : σ → α → Option σ}

/-- Take the steps in order; `none` if one of them is not possible where it is taken. -/
def execute (step : σ → α → Option σ) : σ → List α → Option σ
  | s, [] => some s
  | s, a :: as => (step s a).bind fun s' => execute step s' as

@[simp] theorem execute_nil (s : σ) : execute step s [] = some s := rfl

theorem execute_cons_eq_some {s s' : σ} {a : α} {as : List α} :
    execute step s (a :: as) = some s' ↔ ∃ t, step s a = some t ∧ execute step t as = some s' :=
  Option.bind_eq_some_iff

theorem execute_append_eq_some {s s' : σ} {as bs : List α} :
    execute step s (as ++ bs) = some s' ↔
      ∃ t, execute step s as = some t ∧ execute step t bs = some s' := by
  induction as generalizing s with
  | nil => simp
  | cons a as ih =>
    rw [List.cons_append, execute_cons_eq_some]
    constructor
    · rintro ⟨t, ht, h⟩
      obtain ⟨u, hu, h⟩ := ih.mp h
      exact ⟨u, execute_cons_eq_some.mpr ⟨t, ht, hu⟩, h⟩
    · rintro ⟨u, hu, h⟩
      obtain ⟨t, ht, hu⟩ := execute_cons_eq_some.mp hu
      exact ⟨t, ht, ih.mpr ⟨u, hu, h⟩⟩

/-- A property of the steps taken so far and the state, kept by every step, holds at the end. -/
theorem execute_trace {I : List α → σ → Prop} {s s' : σ} {as : List α} (hinit : I [] s)
    (hstep : ∀ pre t a t', I pre t → step t a = some t' → I (pre ++ [a]) t')
    (h : execute step s as = some s') : I as s' := by
  have hrun : ∀ pre t as, I pre t → execute step t as = some s' → I (pre ++ as) s' := by
    intro pre t as
    induction as generalizing pre t with
    | nil =>
      intro hI ht
      obtain rfl := Option.some.inj ht
      rwa [List.append_nil]
    | cons a as ih =>
      intro hI ht
      obtain ⟨u, hu, ht⟩ := execute_cons_eq_some.mp ht
      rw [List.append_cons]
      exact ih _ u (hstep pre t a u hI hu) ht
  exact hrun [] s as hinit h

/-- A step that is impossible while an invariant holds is never taken. -/
theorem not_mem_of_execute {I : σ → Prop} {s s' : σ} {as : List α} {a : α} (hinit : I s)
    (hstep : ∀ t b t', I t → step t b = some t' → I t') (hno : ∀ t, I t → step t a = none)
    (h : execute step s as = some s') : a ∉ as := by
  intro hmem
  obtain ⟨pre, post, rfl⟩ := List.append_of_mem hmem
  obtain ⟨t, ht, h⟩ := execute_append_eq_some.mp h
  have hI : I t := execute_trace (I := fun _ => I) hinit (fun _ => hstep) ht
  obtain ⟨u, hu, -⟩ := execute_cons_eq_some.mp h
  rw [hno t hI] at hu
  cases hu

/-- Unwinding: if the hidden steps keep the view, and the effect of a visible step on the view
depends on nothing else, then the visible steps alone lead to the same view. -/
theorem execute_visible {view : σ → τ} {visible : α → Bool}
    (hhidden : ∀ s a s', visible a = false → step s a = some s' → view s' = view s)
    (hvisible : ∀ s t a, visible a = true → view s = view t →
      (step s a).map view = (step t a).map view)
    {s s' t : σ} {as : List α} (hview : view s = view t) (h : execute step s as = some s') :
    ∃ t', execute step t (as.filter visible) = some t' ∧ view t' = view s' := by
  induction as generalizing s t with
  | nil =>
    obtain rfl := Option.some.inj h
    exact ⟨t, rfl, hview.symm⟩
  | cons a as ih =>
    obtain ⟨u, hu, h⟩ := execute_cons_eq_some.mp h
    cases ha : visible a with
    | false =>
      rw [List.filter_cons_of_neg (by simp [ha])]
      exact ih ((hhidden s a u ha hu).trans hview) h
    | true =>
      rw [List.filter_cons_of_pos ha]
      have hsame := hvisible s t a ha hview
      rw [hu, Option.map_some] at hsame
      obtain ⟨u', hu', hview'⟩ := Option.map_eq_some_iff.mp hsame.symm
      obtain ⟨t', ht', hend⟩ := ih hview'.symm h
      exact ⟨t', execute_cons_eq_some.mpr ⟨u', hu', ht'⟩, hend⟩

/-- Amortised cost: if every step pays for its cost out of the potential of the state and its
own credit, an interleaving costs at most the potential it starts with and all its credit. -/
theorem execute_potential {I : σ → Prop} (potential : σ → ℕ) (cost credit : α → ℕ) {s s' : σ}
    {as : List α} (hinit : I s)
    (hstep : ∀ t a t', I t → step t a = some t' →
      I t' ∧ potential t' + cost a ≤ potential t + credit a)
    (h : execute step s as = some s') :
    potential s' + (as.map cost).sum ≤ potential s + (as.map credit).sum := by
  induction as generalizing s with
  | nil =>
    obtain rfl := Option.some.inj h
    exact Nat.le_refl _
  | cons a as ih =>
    obtain ⟨t, ht, h⟩ := execute_cons_eq_some.mp h
    obtain ⟨hI, hpaid⟩ := hstep s a t hinit ht
    have hrest := ih hI h
    simp only [List.map_cons, List.sum_cons]
    omega

/-- Progress: if every state short of the goal has an allowed step that lowers a measure, the
goal can be reached by allowed steps, at most as many as the measure says. -/
theorem execute_progress {I : σ → Prop} (goal : σ → Prop) {allowed : α → Prop} (measure : σ → ℕ)
    (hstep : ∀ t, I t → ¬ goal t →
      ∃ a t', allowed a ∧ step t a = some t' ∧ I t' ∧ measure t' < measure t) (s : σ) (hI : I s) :
    ∃ as s', (∀ a ∈ as, allowed a) ∧ as.length ≤ measure s ∧ execute step s as = some s' ∧
      goal s' := by
  induction hn : measure s using Nat.strongRecOn generalizing s with
  | _ n ih =>
    by_cases hgoal : goal s
    · exact ⟨[], s, by simp, Nat.zero_le _, rfl, hgoal⟩
    · obtain ⟨a, t, ha, ht, hIt, hlt⟩ := hstep s hI hgoal
      obtain ⟨as, s', has, hlen, hexec, hend⟩ := ih (measure t) (hn ▸ hlt) t hIt rfl
      refine ⟨a :: as, s', List.forall_mem_cons.mpr ⟨ha, has⟩, ?_, ?_, hend⟩
      · rw [List.length_cons]
        omega
      · exact execute_cons_eq_some.mpr ⟨t, ht, hexec⟩

end EvmExporter.Lib
