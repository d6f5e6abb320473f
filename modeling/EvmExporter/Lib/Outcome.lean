import Mathlib.Data.List.Perm.Basic
import Mathlib.Data.Nat.Notation
import Mathlib.Logic.Basic

/-! Partial correctness of computations in `Except`. A loop over a list stops at
its first error; the rules below say what a completed loop has done and what an
abandoned one may report. `Ensures P E x` is the triple "a result satisfies `P`,
an error satisfies `E`". -/

namespace EvmExporter.Lib

universe u v w

variable {ε ε' : Type v} {α β γ σ : Type u} {ι : Type w}

/-! ### Completed computations -/

theorem bind_eq_ok {x : Except ε α} {f : α → Except ε β} {b : β} :
    x >>= f = .ok b ↔ ∃ a, x = .ok a ∧ f a = .ok b := by
  cases x <;> simp [bind, Except.bind]

/-- A check passes and the rest of the computation follows. -/
theorem check_bind_eq_ok {β : Type} {x : Except ε Unit} {f : Unit → Except ε β} {b : β} :
    x >>= f = .ok b ↔ x = .ok () ∧ f () = .ok b :=
  bind_eq_ok.trans ⟨fun ⟨_, h⟩ => h, fun h => ⟨(), h⟩⟩

@[simp] theorem pure_eq_ok {a b : α} : (pure a : Except ε α) = .ok b ↔ a = b := by
  simp [pure, Except.pure]

@[simp] theorem mapError_eq_ok {f : ε → ε'} {x : Except ε α} {a : α} :
    x.mapError f = .ok a ↔ x = .ok a := by
  cases x <;> simp [Except.mapError]

theorem toOption_eq_some {x : Except ε α} {a : α} : x.toOption = some a ↔ x = .ok a := by
  cases x <;> simp [Except.toOption]

/-- An early return: stop with `e` when the condition holds. -/
def bailIf (c : Prop) [Decidable c] (e : ε) : Except ε Unit :=
  if c then .error e else .ok ()

@[simp] theorem bailIf_eq_ok {c : Prop} [Decidable c] {e : ε} {u : Unit} :
    bailIf c e = .ok u ↔ ¬ c := by
  unfold bailIf; split_ifs with h <;> simp [h]

/-! ### Loops that complete -/

/-- A loop of checks completes exactly when every check passes. -/
theorem forM_eq_ok {l : List ι} {f : ι → Except ε Unit} :
    l.forM f = .ok () ↔ ∀ a ∈ l, f a = .ok () := by
  rw [List.forM_eq_forM]
  induction l with
  | nil => simp [pure, Except.pure]
  | cons a l ih => rw [List.forM_cons, check_bind_eq_ok, ih, List.forall_mem_cons]

/-- A collecting loop completes with one result per element, in order. -/
theorem mapM_eq_ok {l : List α} {f : α → Except ε β} {r : List β} :
    l.mapM f = .ok r ↔ List.Forall₂ (fun a b => f a = .ok b) l r := by
  induction l generalizing r with
  | nil => cases r <;> simp [pure, Except.pure]
  | cons a l ih =>
    rw [List.mapM_cons]
    constructor
    · intro h
      obtain ⟨b, hb, h⟩ := bind_eq_ok.mp h
      obtain ⟨bs, hbs, h⟩ := bind_eq_ok.mp h
      obtain rfl := pure_eq_ok.mp h
      exact .cons hb (ih.mp hbs)
    · rintro (_ | ⟨hb, hbs⟩)
      exact bind_eq_ok.mpr ⟨_, hb, bind_eq_ok.mpr ⟨_, ih.mpr hbs, rfl⟩⟩

/-- Lists related by equal images have the same images. -/
theorem map_eq_map_of_forall₂ {f : α → γ} {g : β → γ} {l : List α} {r : List β}
    (h : List.Forall₂ (fun a b => f a = g b) l r) : l.map f = r.map g := by
  induction h with
  | nil => rfl
  | cons hab _ ih => rw [List.map_cons, List.map_cons, hab, ih]

/-- A collecting loop over elements that all have a result maps them to it. -/
theorem mapM_eq_ok_map {l : List α} {f : α → Except ε β} {g : α → β}
    (h : ∀ a ∈ l, f a = .ok (g a)) : l.mapM f = .ok (l.map g) := by
  rw [mapM_eq_ok, List.forall₂_map_right_iff]
  exact List.forall₂_same.mpr h

/-- Every element on the right of a relation in step is related to one on the left. -/
theorem exists_of_forall₂ {R : α → β → Prop} {l : List α} {r : List β} (h : List.Forall₂ R l r) :
    ∀ b ∈ r, ∃ a ∈ l, R a b := by
  induction h with
  | nil => simp
  | @cons a b l r hb _ ih =>
    intro c hc
    rcases List.mem_cons.mp hc with rfl | hc
    · exact ⟨a, List.mem_cons_self, hb⟩
    · obtain ⟨a', ha', hf⟩ := ih c hc
      exact ⟨a', List.mem_cons_of_mem a ha', hf⟩

theorem forall₂_getElem? {R : α → β → Prop} {l : List α} {r : List β} (h : List.Forall₂ R l r)
    {i : ℕ} {a : α} (ha : l[i]? = some a) : ∃ b, r[i]? = some b ∧ R a b := by
  induction h generalizing i with
  | nil => simp at ha
  | @cons a' b' l r hab _ ih =>
    cases i with
    | zero =>
      obtain rfl : a' = a := by simpa using ha
      exact ⟨b', rfl, hab⟩
    | succ i => simpa using ih (by simpa using ha)

theorem flatMap_perm_of_forall₂ {f : α → List β} {l l' : List α}
    (h : List.Forall₂ (fun a b => (f a).Perm (f b)) l l') : (l.flatMap f).Perm (l'.flatMap f) := by
  induction h with
  | nil => exact .nil
  | cons hab _ ih => exact hab.append ih

/-- The images of the elements that pass a test, if the elements of an image all do or all fail. -/
theorem flatMap_filter {f : α → List β} {p : α → Bool} {q : β → Bool}
    (h : ∀ a, ∀ b ∈ f a, q b = p a) (l : List α) :
    (l.filter p).flatMap f = (l.flatMap f).filter q := by
  induction l with
  | nil => rfl
  | cons a l ih =>
    rw [List.flatMap_cons, List.filter_append]
    cases ha : p a with
    | true =>
      have hall : (f a).filter q = f a := List.filter_eq_self.mpr fun b hb => (h a b hb).trans ha
      rw [List.filter_cons_of_pos ha, List.flatMap_cons, ih, hall]
    | false =>
      have hnone : (f a).filter q = [] :=
        List.filter_eq_nil_iff.mpr fun b hb => by simp [h a b hb, ha]
      rw [List.filter_cons_of_neg (by simp [ha]), ih, hnone, List.nil_append]

/-- A loop that passes over some elements is in step with the loop over all of them, if what those
elements do is not seen by the relation. -/
theorem foldl_filter_related {δ τ : Type*} {R : δ → τ → Prop} {f : δ → α → δ} {g : τ → α → τ}
    {p : α → Bool} {l : List α} (hkeep : ∀ a ∈ l, p a → ∀ s t, R s t → R (f s a) (g t a))
    (hdrop : ∀ a ∈ l, ¬ p a → ∀ s t, R s t → R (f s a) t) {s : δ} {t : τ} (h : R s t) :
    R (l.foldl f s) ((l.filter p).foldl g t) := by
  induction l generalizing s t with
  | nil => exact h
  | cons a l ih =>
    obtain ⟨hkeepa, hkeep⟩ := List.forall_mem_cons.mp hkeep
    obtain ⟨hdropa, hdrop⟩ := List.forall_mem_cons.mp hdrop
    cases ha : p a with
    | true =>
      rw [List.filter_cons_of_pos ha]
      exact ih hkeep hdrop (hkeepa ha s t h)
    | false =>
      rw [List.filter_cons_of_neg (by simp [ha])]
      exact ih hkeep hdrop (hdropa (by simp [ha]) s t h)

/-- Every result of a collecting loop comes from an element. -/
theorem mapM_exists {l : List α} {f : α → Except ε β} {r : List β} (h : l.mapM f = .ok r) :
    ∀ b ∈ r, ∃ a ∈ l, f a = .ok b :=
  exists_of_forall₂ (mapM_eq_ok.mp h)

/-- A collecting loop over elements in step with `r`, each with a result that fits its partner. -/
theorem mapM_of_forall₂ {f : α → Except ε β} {P : β → γ → Prop} {l : List α} {r : List γ}
    (h : List.Forall₂ (fun a c => ∃ b, f a = .ok b ∧ P b c) l r) :
    ∃ bs, l.mapM f = .ok bs ∧ List.Forall₂ P bs r := by
  induction h with
  | nil => exact ⟨[], rfl, .nil⟩
  | @cons a c l r hac _ ih =>
    obtain ⟨b, hb, hbc⟩ := hac
    obtain ⟨bs, hbs, hrest⟩ := ih
    have hcons : (a :: l).mapM f = .ok (b :: bs) := by
      rw [List.mapM_cons, hb, hbs]
      rfl
    exact ⟨b :: bs, hcons, .cons hbc hrest⟩

/-- What a completed loop of checks over an indexed list establishes of each element. -/
theorem forM_zipIdx_eq_ok {l : List α} {f : α × ℕ → Except ε Unit} {P : α → Prop}
    (h : l.zipIdx.forM f = .ok ()) (hf : ∀ a i, f (a, i) = .ok () → P a) : ∀ a ∈ l, P a := by
  intro a ha
  rw [← List.zipIdx_map_fst 0 l] at ha
  obtain ⟨⟨b, i⟩, hb, rfl⟩ := List.mem_map.mp ha
  exact hf b i (forM_eq_ok.mp h _ hb)

/-- A loop of checks over an indexed list that look at the elements only. -/
theorem forM_zipIdx_eq_ok_iff {l : List α} {f : α × ℕ → Except ε Unit} {P : α → Prop}
    (hf : ∀ a i, f (a, i) = .ok () ↔ P a) : l.zipIdx.forM f = .ok () ↔ ∀ a ∈ l, P a := by
  constructor
  · exact fun h => forM_zipIdx_eq_ok h fun a i => (hf a i).mp
  · intro h
    refine forM_eq_ok.mpr fun p hp => (hf p.1 p.2).mpr (h p.1 ?_)
    rw [← List.zipIdx_map_fst 0 l]
    exact List.mem_map_of_mem hp

/-- A collecting loop over an indexed list whose results depend on the elements only. -/
theorem mapM_zipIdx_eq_ok {l : List α} {f : α × ℕ → Except ε β} {R : α → β → Prop} {r : List β}
    (hf : ∀ a i b, f (a, i) = .ok b ↔ R a b) :
    l.zipIdx.mapM f = .ok r ↔ List.Forall₂ R l r := by
  have hfst : List.Forall₂ R (l.zipIdx.map Prod.fst) r ↔
      List.Forall₂ (fun p b => R p.1 b) l.zipIdx r := List.forall₂_map_left_iff
  rw [List.zipIdx_map_fst] at hfst
  rw [hfst, mapM_eq_ok]
  simp only [hf]

/-! ### Computations that are abandoned -/

/-- A sequence reports what its first part reports, or else what its second part does. -/
theorem bind_eq_error {x : Except ε α} {f : α → Except ε β} {e : ε} :
    x >>= f = .error e ↔ x = .error e ∨ ∃ a, x = .ok a ∧ f a = .error e := by
  cases x <;> simp [bind, Except.bind]

/-- A check fails, or it passes and the rest of the computation fails. -/
theorem check_bind_eq_error {β : Type} {x : Except ε Unit} {f : Unit → Except ε β} {e : ε} :
    x >>= f = .error e ↔ x = .error e ∨ x = .ok () ∧ f () = .error e :=
  bind_eq_error.trans (or_congr_right ⟨fun ⟨_, h⟩ => h, fun h => ⟨(), h⟩⟩)

theorem mapError_eq_error {f : ε → ε'} {x : Except ε α} {e' : ε'} :
    x.mapError f = .error e' ↔ ∃ e, x = .error e ∧ f e = e' := by
  cases x <;> simp [Except.mapError]

@[simp] theorem bailIf_eq_error {c : Prop} [Decidable c] {e e' : ε} :
    bailIf c e = .error e' ↔ c ∧ e = e' := by
  unfold bailIf; split_ifs with h <;> simp [h]

/-- A loop reports what its first failing round reports. -/
theorem foldlM_eq_error {f : σ → α → Except ε σ} {l : List α} {s : σ} {e : ε}
    (h : l.foldlM f s = .error e) : ∃ pre a post t,
      l = pre ++ a :: post ∧ pre.foldlM f s = .ok t ∧ f t a = .error e := by
  induction l generalizing s with
  | nil => cases h
  | cons a l ih =>
    rw [List.foldlM_cons] at h
    rcases bind_eq_error.mp h with ha | ⟨t, ht, h⟩
    · exact ⟨[], a, l, s, rfl, rfl, ha⟩
    · obtain ⟨pre, b, post, t', rfl, hpre, hb⟩ := ih h
      have hcons : (a :: pre).foldlM f s = .ok t' := by
        rw [List.foldlM_cons]
        exact bind_eq_ok.mpr ⟨t, ht, hpre⟩
      exact ⟨a :: pre, b, post, t', rfl, hcons, hb⟩

/-- A loop of checks reports the first check that fails. -/
theorem forM_eq_error {l : List ι} {f : ι → Except ε Unit} {e : ε} (h : l.forM f = .error e) :
    ∃ pre a post, l = pre ++ a :: post ∧ (∀ b ∈ pre, f b = .ok ()) ∧ f a = .error e := by
  rw [List.forM_eq_forM] at h
  induction l with
  | nil => cases h
  | cons a l ih =>
    rw [List.forM_cons] at h
    rcases check_bind_eq_error.mp h with ha | ⟨ha, h⟩
    · exact ⟨[], a, l, rfl, by simp, ha⟩
    · obtain ⟨pre, b, post, rfl, hpre, hb⟩ := ih h
      exact ⟨a :: pre, b, post, rfl, List.forall_mem_cons.mpr ⟨ha, hpre⟩, hb⟩

/-- A collecting loop reports the first element without a result. -/
theorem mapM_eq_error {l : List α} {f : α → Except ε β} {e : ε} (h : l.mapM f = .error e) :
    ∃ pre a post, l = pre ++ a :: post ∧ (∀ b ∈ pre, ∃ c, f b = .ok c) ∧ f a = .error e := by
  induction l with
  | nil => cases h
  | cons a l ih =>
    rw [List.mapM_cons] at h
    rcases bind_eq_error.mp h with ha | ⟨c, ha, h⟩
    · exact ⟨[], a, l, rfl, by simp, ha⟩
    · rcases bind_eq_error.mp h with hl | ⟨cs, -, h⟩
      · obtain ⟨pre, b, post, rfl, hpre, hb⟩ := ih hl
        exact ⟨a :: pre, b, post, rfl, List.forall_mem_cons.mpr ⟨⟨c, ha⟩, hpre⟩, hb⟩
      · cases h

/-- A collecting loop completes exactly when every element has a result. -/
theorem mapM_succeeds_iff {l : List α} {f : α → Except ε β} :
    (∃ r, l.mapM f = .ok r) ↔ ∀ a ∈ l, ∃ b, f a = .ok b := by
  constructor
  · rintro ⟨r, h⟩ a ha
    obtain ⟨b, -, hb⟩ := exists_of_forall₂ (mapM_eq_ok.mp h).flip a ha
    exact ⟨b, hb⟩
  · intro h
    cases hl : l.mapM f with
    | ok r => exact ⟨r, rfl⟩
    | error e =>
      obtain ⟨pre, a, post, rfl, -, ha⟩ := mapM_eq_error hl
      obtain ⟨b, hb⟩ := h a (by simp)
      cases ha.symm.trans hb

/-- The element a split of an indexed list stops at has the length before it as its index. -/
theorem zipIdx_eq_append {l : List α} {pre post : List (α × ℕ)} {a : α} {i : ℕ}
    (h : l.zipIdx = pre ++ (a, i) :: post) :
    l = pre.map Prod.fst ++ a :: post.map Prod.fst ∧ i = pre.length := by
  constructor
  · rw [← List.zipIdx_map_fst 0 l, h, List.map_append, List.map_cons]
  · have hget : l.zipIdx[pre.length]? = some (a, i) := by
      rw [h, List.getElem?_append_right (Nat.le_refl _), Nat.sub_self]
      rfl
    rw [List.getElem?_zipIdx] at hget
    obtain ⟨b, -, hb⟩ := Option.map_eq_some_iff.mp hget
    simpa using (congrArg Prod.snd hb).symm

/-- The elements before the split keep their results, without the indices. -/
theorem forall_map_fst {pre : List (α × ℕ)} {P : α × ℕ → Prop} (h : ∀ p ∈ pre, P p) :
    ∀ a ∈ pre.map Prod.fst, ∃ i, P (a, i) := by
  intro a ha
  obtain ⟨⟨b, i⟩, hb, rfl⟩ := List.mem_map.mp ha
  exact ⟨i, h _ hb⟩

/-- A loop of checks over an indexed list reports the first check that fails, at its index. -/
theorem forM_zipIdx_eq_error {l : List α} {f : α × ℕ → Except ε Unit} {e : ε}
    (h : l.zipIdx.forM f = .error e) : ∃ pre a post, l = pre ++ a :: post ∧
      (∀ b ∈ pre, ∃ i, f (b, i) = .ok ()) ∧ f (a, pre.length) = .error e := by
  obtain ⟨pre, ⟨a, i⟩, post, hl, hpre, ha⟩ := forM_eq_error h
  obtain ⟨hsplit, rfl⟩ := zipIdx_eq_append hl
  exact ⟨pre.map Prod.fst, a, post.map Prod.fst, hsplit, forall_map_fst hpre, by simpa using ha⟩

/-- A collecting loop over an indexed list reports the first element without a result, at its
index. -/
theorem mapM_zipIdx_eq_error {l : List α} {f : α × ℕ → Except ε β} {e : ε}
    (h : l.zipIdx.mapM f = .error e) : ∃ pre a post, l = pre ++ a :: post ∧
      (∀ b ∈ pre, ∃ i c, f (b, i) = .ok c) ∧ f (a, pre.length) = .error e := by
  obtain ⟨pre, ⟨a, i⟩, post, hl, hpre, ha⟩ := mapM_eq_error h
  obtain ⟨hsplit, rfl⟩ := zipIdx_eq_append hl
  exact ⟨pre.map Prod.fst, a, post.map Prod.fst, hsplit, forall_map_fst hpre, by simpa using ha⟩

/-- A nested loop that completes is a completed loop over the flattened list. -/
theorem foldlM_flatMap {g : α → List β} {f : σ → α → Except ε σ} {h : σ → β → Except ε σ}
    (hf : ∀ a s s', f s a = .ok s' → (g a).foldlM h s = .ok s') {l : List α} {s s' : σ}
    (hl : l.foldlM f s = .ok s') : (l.flatMap g).foldlM h s = .ok s' := by
  induction l generalizing s with
  | nil => exact hl
  | cons a l ih =>
    rw [List.foldlM_cons] at hl
    obtain ⟨t, ht, hl⟩ := bind_eq_ok.mp hl
    rw [List.flatMap_cons, List.foldlM_append]
    exact bind_eq_ok.mpr ⟨t, hf a s t ht, ih hl⟩

/-- A loop over the flattened list that completes is a completed nested loop, if its inner
loops are rounds of the outer one. -/
theorem foldlM_of_flatMap {g : α → List β} {f : σ → α → Except ε σ} {h : σ → β → Except ε σ}
    {l : List α} (hf : ∀ a ∈ l, ∀ s s', (g a).foldlM h s = .ok s' → f s a = .ok s') {s s' : σ}
    (hl : (l.flatMap g).foldlM h s = .ok s') : l.foldlM f s = .ok s' := by
  induction l generalizing s with
  | nil => exact hl
  | cons a l ih =>
    rw [List.flatMap_cons, List.foldlM_append] at hl
    obtain ⟨t, ht, hl⟩ := bind_eq_ok.mp hl
    rw [List.foldlM_cons]
    exact bind_eq_ok.mpr
      ⟨t, hf a List.mem_cons_self s t ht, ih (fun b hb => hf b (List.mem_cons_of_mem a hb)) hl⟩

/-- Every round of a completed loop has completed. -/
theorem exists_round_of_foldlM {f : σ → α → Except ε σ} {l : List α} {s s' : σ}
    (h : l.foldlM f s = .ok s') : ∀ a ∈ l, ∃ t t', f t a = .ok t' := by
  induction l generalizing s with
  | nil => simp
  | cons a l ih =>
    rw [List.foldlM_cons] at h
    obtain ⟨t, ht, h⟩ := bind_eq_ok.mp h
    exact List.forall_mem_cons.mpr ⟨⟨s, t, ht⟩, ih h⟩

/-- A loop seen through a projection of its state that the rounds respect. -/
theorem map_foldlM {p : σ → γ} {f : σ → α → Except ε σ} {g : γ → α → Except ε γ}
    (hstep : ∀ s a, (f s a).map p = g (p s) a) (l : List α) (s : σ) :
    (l.foldlM f s).map p = l.foldlM g (p s) := by
  induction l generalizing s with
  | nil => rfl
  | cons a l ih =>
    rw [List.foldlM_cons, List.foldlM_cons, ← hstep]
    cases f s a with
    | ok t => exact ih t
    | error e => rfl

/-- A collecting loop over the elements that pass a test collects the results of those. -/
theorem mapM_filter {f : α → Except ε β} {p : α → Bool} {q : β → Bool}
    (hpq : ∀ a b, f a = .ok b → q b = p a) {l : List α} {r : List β} (h : l.mapM f = .ok r) :
    (l.filter p).mapM f = .ok (r.filter q) := by
  have hall := mapM_eq_ok.mp h
  clear h
  induction hall with
  | nil => rfl
  | @cons a b l r hab _ ih =>
    cases ha : p a with
    | true =>
      rw [List.filter_cons_of_pos ha, List.filter_cons_of_pos ((hpq a b hab).trans ha)]
      exact mapM_eq_ok.mpr (.cons hab (mapM_eq_ok.mp ih))
    | false =>
      have hb : ¬ q b = true := by simp [hpq a b hab, ha]
      rwa [List.filter_cons_of_neg (by simp [ha]), List.filter_cons_of_neg hb]

/-- A collecting loop over a permuted list collects the same results, permuted. -/
theorem mapM_perm {f : α → Except ε β} {l l' : List α} {r : List β} (hl : l.Perm l')
    (h : l.mapM f = .ok r) : ∃ r', l'.mapM f = .ok r' ∧ r.Perm r' := by
  obtain ⟨r', hr', hperm⟩ := List.perm_comp_forall₂ hl.symm (mapM_eq_ok.mp h)
  exact ⟨r', mapM_eq_ok.mpr hr', hperm.symm⟩

/-- A loop whose body first evaluates its element and then folds the value in
does the same as evaluating every element before folding. -/
theorem foldlM_bind_eq_ok {f : α → Except ε β} {g : σ → β → Except ε σ} {l : List α} {s s' : σ} :
    l.foldlM (fun s a => f a >>= g s) s = .ok s' ↔
      ∃ r, l.mapM f = .ok r ∧ r.foldlM g s = .ok s' := by
  induction l generalizing s with
  | nil => simp [pure, Except.pure]
  | cons a l ih =>
    simp only [List.foldlM_cons, List.mapM_cons, bind_eq_ok, ih, pure_eq_ok]
    constructor
    · rintro ⟨t, ⟨b, hb, ht⟩, r, hr, hs⟩
      exact ⟨b :: r, ⟨b, hb, r, hr, rfl⟩, bind_eq_ok.mpr ⟨t, ht, hs⟩⟩
    · rintro ⟨_, ⟨b, hb, r, hr, rfl⟩, hs⟩
      obtain ⟨t, ht, hs⟩ := bind_eq_ok.mp hs
      exact ⟨t, ⟨b, hb, ht⟩, r, hr, hs⟩

/-! ### What a computation may report -/

/-- A result satisfies `P`; an error satisfies `E`. -/
def Ensures (P : α → Prop) (E : ε → Prop) : Except ε α → Prop
  | .ok a => P a
  | .error e => E e

variable {P : α → Prop} {Q : β → Prop} {E : ε → Prop}

@[simp] theorem ensures_ok {a : α} : Ensures P E (.ok a : Except ε α) ↔ P a := Iff.rfl

@[simp] theorem ensures_error {e : ε} : Ensures P E (.error e : Except ε α) ↔ E e := Iff.rfl

theorem Ensures.error {x : Except ε α} {e : ε} (h : Ensures P E x) (hx : x = .error e) : E e := by
  subst hx; exact h

theorem Ensures.bind {x : Except ε α} {f : α → Except ε β} (hx : Ensures P E x)
    (hf : ∀ a, x = .ok a → P a → Ensures Q E (f a)) : Ensures Q E (x >>= f) := by
  cases x with
  | ok a => exact hf a rfl hx
  | error e => exact hx

theorem Ensures.mono {P' : α → Prop} {E' : ε → Prop} {x : Except ε α} (h : Ensures P E x)
    (hP : ∀ a, P a → P' a) (hE : ∀ e, E e → E' e) : Ensures P' E' x := by
  cases x with
  | ok a => exact hP a h
  | error e => exact hE e h

theorem Ensures.mapError {E' : ε' → Prop} {g : ε → ε'} {x : Except ε α} (h : Ensures P E x)
    (hE : ∀ e, E e → E' (g e)) : Ensures P E' (x.mapError g) := by
  cases x with
  | ok a => exact h
  | error e => exact hE e h

/-- A loop keeps an invariant indexed by the elements already visited, and reports only
what its body may report. -/
theorem ensures_foldlM_indexed {f : σ → α → Except ε σ} {I : List α → σ → Prop} {l : List α} {s : σ}
    (h₀ : I [] s) (hf : ∀ pre a post s, l = pre ++ a :: post → I pre s →
      Ensures (I (pre ++ [a])) E (f s a)) : Ensures (I l) E (l.foldlM f s) := by
  suffices ∀ post pre s, l = pre ++ post → I pre s → Ensures (I l) E (post.foldlM f s) from
    this l [] s rfl h₀
  intro post
  induction post with
  | nil =>
    rintro pre s rfl hs
    rw [List.append_nil]
    exact hs
  | cons a post ih =>
    intro pre s hl hs
    rw [List.foldlM_cons]
    exact (hf pre a post s hl hs).bind fun t _ ht => ih (pre ++ [a]) t (by simpa using hl) ht

/-- A loop reports only what its body may report. -/
theorem ensures_foldlM {f : σ → α → Except ε σ} {I : σ → Prop} {l : List α} {s : σ} (hs : I s)
    (hf : ∀ a ∈ l, ∀ s, I s → Ensures I E (f s a)) : Ensures I E (l.foldlM f s) :=
  ensures_foldlM_indexed (I := fun _ => I) hs fun pre a post s hl => hf a (by simp [hl]) s

/-- The invariant of a completed loop, indexed by the elements already visited. -/
theorem foldlM_invariant {f : σ → α → Except ε σ} (I : List α → σ → Prop) {l : List α} {s s' : σ}
    (h₀ : I [] s) (hstep : ∀ pre a s s', I pre s → f s a = .ok s' → I (pre ++ [a]) s')
    (hl : l.foldlM f s = .ok s') : I l s' := by
  have hfold : Ensures (I l) (fun _ => True) (l.foldlM f s) := by
    refine ensures_foldlM_indexed h₀ fun pre a post s _ hs => ?_
    cases hfs : f s a with
    | ok t => exact hstep pre a s t hs hfs
    | error e => trivial
  rwa [hl] at hfold

/-- A collecting loop reports only what its body may report. -/
theorem ensures_mapM {f : α → Except ε β} {l : List α} (hf : ∀ a ∈ l, Ensures Q E (f a)) :
    Ensures (fun r => ∀ b ∈ r, Q b) E (l.mapM f) := by
  induction l with
  | nil => simp [pure, Except.pure]
  | cons a l ih =>
    rw [List.mapM_cons]
    have hrest := ih fun c hc => hf c (List.mem_cons_of_mem a hc)
    apply (hf a List.mem_cons_self).bind
    intro b _ hb
    apply hrest.bind
    intro bs _ hbs
    exact List.forall_mem_cons.mpr ⟨hb, hbs⟩

end EvmExporter.Lib
