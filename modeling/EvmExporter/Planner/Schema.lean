import EvmExporter.Planner.Validated

/-! The label schema of a plan. All entries of a metric name share the label keys of its
family: the sorted union of the user keys of that name, then `address` and
`chain_id`. An entry has one value for each key, so an entry's labels are a function
of the key, and two entries write the same series exactly when name, address and
merged labels agree. -/

namespace EvmExporter

open Lib

variable {d : Deps} {cfg : Config}

/-! ### The labels of a place -/

/-- Some level of the place sets the key. -/
def Place.SetsLabel (cfg : Config) (p : Place) (k : String) : Prop :=
  k ∈ cfg.labels.keys ∨ k ∈ p.contract.labels.keys ∨ k ∈ p.inst.labels.keys ∨
    k ∈ p.subcall.callLabels.keys

/-- The value of the most specific level that sets the key. -/
def Place.label (cfg : Config) (p : Place) (k : String) : Option String :=
  (p.subcall.callLabels.get? k).or ((p.inst.labels.get? k).or
    ((p.contract.labels.get? k).or (cfg.labels.get? k)))

theorem mergeLabels_get?_eq_label (cfg : Config) (p : Place) (k : String) :
    (mergeLabels cfg p).get? k = p.label cfg k :=
  mergeLabels_get? cfg p k

theorem mem_keys_mergeLabels {p : Place} {k : String} :
    k ∈ (mergeLabels cfg p).keys ↔ p.SetsLabel cfg k := by
  simp only [mergeLabels, SortedMap.mem_keys_insertAll, SortedMap.keys_empty, List.not_mem_nil,
    or_false, Place.SetsLabel]
  tauto

/-! ### Keys -/

theorem mem_labelUnion {rs : List Row} {name k : String} :
    k ∈ (labelUnion cfg rs name).keys ↔
      ∃ r ∈ rs, r.name = name ∧ k ∈ (r.labels cfg).keys := by
  simp [labelUnion, and_assoc]

@[simp] theorem familyOf_keys (rs : List Row) (name : String) :
    (familyOf cfg rs name).keys = (labelUnion cfg rs name).keys ++ ["address", "chain_id"] := rfl

@[simp] theorem familyOf_gauge_name (rs : List Row) (name : String) :
    (familyOf cfg rs name).gauge.name = name := rfl

@[simp] theorem familyOf_gauge_constLabels (rs : List Row) (name : String) :
    (familyOf cfg rs name).gauge.constLabels = ∅ := rfl

@[simp] theorem familyOf_gauge_labels (rs : List Row) (name : String) :
    (familyOf cfg rs name).gauge.variableLabels = (familyOf cfg rs name).keys := rfl

/-- Without reserved keys among the labels no key is repeated. -/
theorem familyOf_keys_nodup {rs : List Row} (hfree : ∀ r ∈ rs, ReservedFree (r.labels cfg))
    (name : String) : (familyOf cfg rs name).keys.Nodup := by
  rw [familyOf_keys]
  apply List.nodup_append.mpr
  have hdisjoint : ∀ k ∈ (labelUnion cfg rs name).keys, ∀ k' ∈ ["address", "chain_id"], k ≠ k' := by
    rintro k hk k' hk' rfl
    obtain ⟨r, hr, -, hkr⟩ := mem_labelUnion.mp hk
    exact hfree r hr k hkr hk'
  exact ⟨SortedMap.keys_nodup _, by decide, hdisjoint⟩

theorem rows_labels_free (hv : cfg.Valid d) {sites : List Site} (h : sitesOf d cfg = .ok sites) :
    ∀ r ∈ rows sites, ReservedFree (r.labels cfg) := by
  intro r hr
  obtain ⟨s, hs, hr⟩ := List.mem_flatMap.mp hr
  obtain ⟨e, -, rfl⟩ := List.mem_map.mp hr
  obtain ⟨abi, hval⟩ := site_valid hv h hs
  exact hval.labels_free

/-! ### Labels of an entry -/

/-- The value an entry gives to a label key. -/
def Entry.label (e : Entry) (k : String) : Option String :=
  (e.labelKeys.zip e.labelValues).lookup k

theorem lookup_zip_map {keys : List String} {f : String → String} {k : String} :
    (keys.zip (keys.map f)).lookup k = if k ∈ keys then some (f k) else none := by
  induction keys with
  | nil => rfl
  | cons a keys ih =>
    rw [List.map_cons, List.zip_cons_cons, SortedMap.lookup_cons_eq_ite, ih]
    by_cases h : k = a
    · subst h; simp
    · simp [h]

theorem entry_label (r : Row) (fam : Family) (i : ℕ) (k : String) :
    (r.entry cfg fam i).label k = if k ∈ fam.keys then
      some (labelValue cfg.chain.chainId r.site.address (r.labels cfg) k) else none :=
  lookup_zip_map

theorem labelValue_of_not_reserved {chainId : ℕ} {addr : Address} {labels : Labels} {k : String}
    (h : k ∉ reservedLabelKeys) :
    labelValue chainId addr labels k = (labels.get? k).getD "" := by
  simp only [reservedLabelKeys, List.mem_cons, List.not_mem_nil, or_false, not_or] at h
  simp [labelValue, h.1, h.2]

@[simp] theorem labelValue_address (chainId : ℕ) (addr : Address) (labels : Labels) :
    labelValue chainId addr labels "address" = addr.format := rfl

@[simp] theorem labelValue_chainId (chainId : ℕ) (addr : Address) (labels : Labels) :
    labelValue chainId addr labels "chain_id" = toString chainId := rfl

/-! ### Entries and rows -/

/-- The entries of a plan, each with the row that produced it. -/
def Plan.produced (plan : Plan) (sites : List Site) : List (Row × Entry) :=
  (rows sites).zip plan.entries

theorem produced_entries (sites : List Site) :
    ((planOf cfg sites).produced sites).map Prod.snd = (planOf cfg sites).entries :=
  List.map_snd_zip (by simp [planOf])

/-- A row produces its entry. -/
theorem mem_produced {sites : List Site} {r : Row} {e : Entry} :
    (r, e) ∈ (planOf cfg sites).produced sites ↔ r ∈ rows sites ∧
      e = r.entry cfg (familyOf cfg (rows sites) r.name)
        ((distinctCalls sites).idxOf r.site.request) := by
  have hzip (f : Row → Entry) :
      (rows sites).zip ((rows sites).map f) = (rows sites).map fun r => (r, f r) := by
    simpa using List.zip_map' (f := id) (g := f) (l := rows sites)
  rw [Plan.produced, planOf, hzip, List.mem_map]
  constructor
  · rintro ⟨r', hr', heq⟩
    obtain ⟨rfl, rfl⟩ := Prod.mk.inj heq
    exact ⟨hr', rfl⟩
  · rintro ⟨hr, rfl⟩
    exact ⟨r, hr, rfl⟩

theorem exists_produced (cfg : Config) {sites : List Site} {r : Row} (hr : r ∈ rows sites) :
    ∃ e, (r, e) ∈ (planOf cfg sites).produced sites :=
  ⟨_, mem_produced.mpr ⟨hr, rfl⟩⟩

theorem mem_rows {sites : List Site} {r : Row} :
    r ∈ rows sites ↔ r.site ∈ sites ∧ r.emit ∈ r.site.emits := by
  simp only [rows, List.mem_flatMap, List.mem_map]
  constructor
  · rintro ⟨s, hs, e, he, rfl⟩
    exact ⟨hs, he⟩
  · rintro ⟨hs, he⟩
    exact ⟨_, hs, _, he, rfl⟩

/-! ### Series -/

/-- Rows of one family give equal label values exactly when they have the same address and
the same merged labels, an absent label being an empty one. -/
theorem labelValues_eq_iff {rs : List Row} {r r' : Row} (hr : r ∈ rs) (hr' : r' ∈ rs)
    (hfree : ∀ r ∈ rs, ReservedFree (r.labels cfg)) (hname : r.name = r'.name) :
    ((familyOf cfg rs r.name).keys.map
        (labelValue cfg.chain.chainId r.site.address (r.labels cfg)) =
      (familyOf cfg rs r.name).keys.map
        (labelValue cfg.chain.chainId r'.site.address (r'.labels cfg))) ↔
      r.site.address = r'.site.address ∧
        ∀ k, ((r.labels cfg).get? k).getD "" = ((r'.labels cfg).get? k).getD "" := by
  rw [List.map_inj_left]
  constructor
  · intro h
    have haddr : r.site.address = r'.site.address :=
      Address.format_injective (h "address" (by simp))
    apply And.intro haddr
    intro k
    by_cases hk : k ∈ (labelUnion cfg rs r.name).keys
    · obtain ⟨r₀, hr₀, -, hk₀⟩ := mem_labelUnion.mp hk
      have hval := h k (by simp [hk])
      rwa [labelValue_of_not_reserved (hfree r₀ hr₀ k hk₀),
        labelValue_of_not_reserved (hfree r₀ hr₀ k hk₀)] at hval
    · -- a key outside the union is set by neither row
      have hnone (r₁ : Row) (h₁ : r₁ ∈ rs) (hn : r₁.name = r.name) :
          (r₁.labels cfg).get? k = none := by
        by_contra hne
        exact hk (mem_labelUnion.mpr ⟨r₁, h₁, hn, SortedMap.mem_keys_iff_ne_none.mpr hne⟩)
      rw [hnone r hr rfl, hnone r' hr' hname.symm]
  · rintro ⟨haddr, hlabels⟩ k -
    unfold labelValue
    rw [haddr, hlabels k]

end EvmExporter
