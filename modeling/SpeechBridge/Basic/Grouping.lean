import SpeechBridge.Basic.OrderedMap

set_option autoImplicit false

/-! # Grouping a sequence by a key, incrementally

Two ways to build a map that summarizes a sequence of records key by key:

* in one go: `groupBy key g rs` holds, under every key of a record, the summary `g` of the
  records with that key, in order;
* record by record: starting from the empty map, apply an update to `m[key r]` for each
  record `r` (`OrderedMap.subscript`).

`Incremental step g` says that `step` keeps the summary `g` up to date when one more record
arrives. It is the step of an induction over the sequence (`Incremental.foldl`), and
`Incremental.groupBy` lifts it from summaries to maps of summaries, hence to maps of maps.
-/

open SortUnique OrderedMap

/-! ## Incremental computation -/

/-- `step` computes the summary `g` one record at a time, from the default value on. -/
structure Incremental {ρ V : Type*} [Inhabited V] (step : V → ρ → V) (g : List ρ → V) :
    Prop where
  nil : g [] = default
  concat : ∀ rs r, g (rs ++ [r]) = step (g rs) r

/-- **A fold of an incremental step computes the summary** of the whole sequence. -/
theorem Incremental.foldl {ρ V : Type*} [Inhabited V] {step : V → ρ → V} {g : List ρ → V}
    (h : Incremental step g) (rs : List ρ) : rs.foldl step default = g rs := by
  induction rs using List.reverseRecOn with
  | nil => exact h.nil.symm
  | append_singleton rs r ih => rw [List.foldl_concat, ih, h.concat]

/-- Collecting a field of the records is incremental. -/
theorem incremental_map {ρ α : Type*} (f : ρ → α) :
    Incremental (fun l r => l ++ [f r]) (List.map f) :=
  ⟨rfl, fun _ _ => by rw [List.map_append, List.map_singleton]⟩

/-- Appending and renormalizing is incremental for the canonical form of a field. -/
theorem incremental_canonical {ρ α : Type*} [LinearOrder α] (f : ρ → α) :
    Incremental (fun l r => canonical (l ++ [f r])) (fun rs => canonical (rs.map f)) :=
  ⟨canonical_nil, fun rs r => by
    simp only [List.map_append, List.map_singleton, canonical_canonical_append]⟩

/-- The last value of a field of the records, the default value when there is none. -/
def lastOf {ρ α : Type*} [Inhabited α] (f : ρ → α) (rs : List ρ) : α :=
  (rs.getLast?.map f).getD default

/-- Overwriting is incremental for the last value. -/
theorem incremental_lastOf {ρ α : Type*} [Inhabited α] (f : ρ → α) :
    Incremental (fun _ r => f r) (lastOf f) :=
  ⟨rfl, fun _ _ => by simp [lastOf]⟩

/-! ## Groups -/

section Groups

variable {ρ K V W : Type*} [LinearOrder K] (key : ρ → K)

/-- The records with key `k`, in order. -/
def group (rs : List ρ) (k : K) : List ρ := rs.filter fun r => key r = k

variable {key}

theorem mem_group {rs : List ρ} {k : K} {r : ρ} : r ∈ group key rs k ↔ r ∈ rs ∧ key r = k := by
  simp [group]

theorem group_eq_nil_iff {rs : List ρ} {k : K} : group key rs k = [] ↔ ∀ r ∈ rs, key r ≠ k := by
  simp [group, List.filter_eq_nil_iff]

theorem group_concat_self (rs : List ρ) (r : ρ) :
    group key (rs ++ [r]) (key r) = group key rs (key r) ++ [r] := by
  simp [group, List.filter_append]

theorem group_concat_ne {rs : List ρ} {r : ρ} {k : K} (h : key r ≠ k) :
    group key (rs ++ [r]) k = group key rs k := by
  simp [group, List.filter_append, h]

/-- A group of a group is selected by both keys. -/
theorem mem_group_group {L : Type*} [LinearOrder L] {key₂ : ρ → L} {rs : List ρ} {k : K} {l : L}
    {r : ρ} : r ∈ group key₂ (group key rs k) l ↔ r ∈ rs ∧ key r = k ∧ key₂ r = l := by
  rw [mem_group, mem_group, and_assoc]

theorem group_group {L : Type*} [LinearOrder L] (key₂ : ρ → L) (rs : List ρ) (k : K) (l : L) :
    group key₂ (group key rs k) l = rs.filter fun r => key r = k ∧ key₂ r = l := by
  rw [group, group, List.filter_filter]
  refine List.filter_congr fun r _ => ?_
  by_cases h : key r = k <;> simp [h]

theorem group_perm {rs rs' : List ρ} (h : rs.Perm rs') (k : K) :
    (group key rs k).Perm (group key rs' k) := h.filter _

/-- **The groups of distinct keys partition the sequence**: every record is in one of them,
once. -/
theorem flatMap_group_perm {ks : List K} (hks : ks.Nodup) {rs : List ρ}
    (hcov : ∀ r ∈ rs, key r ∈ ks) : (ks.flatMap (group key rs)).Perm rs := by
  induction ks generalizing rs with
  | nil =>
      have hnil : rs = [] :=
        List.eq_nil_iff_forall_not_mem.mpr fun r hr => List.not_mem_nil (hcov r hr)
      rw [hnil, List.flatMap_nil]
  | cons k ks ih =>
      obtain ⟨hk, hks'⟩ := List.nodup_cons.mp hks
      -- the later groups do not meet the records of key `k`
      set rest := rs.filter fun r => ¬ key r = k with hrest
      have hgroups : ks.flatMap (group key rs) = ks.flatMap (group key rest) := by
        refine List.flatMap_congr fun k' hk' => ?_
        rw [group, group, hrest, List.filter_filter]
        refine List.filter_congr fun r _ => ?_
        by_cases h : key r = k'
        · have hne : ¬ k' = k := fun heq => hk (heq ▸ hk')
          simp [h, hne]
        · simp [h]
      have hcov' : ∀ r ∈ rest, key r ∈ ks := by
        intro r hr
        obtain ⟨hrs, hne⟩ := List.mem_filter.mp hr
        rcases List.mem_cons.mp (hcov r hrs) with h | h
        · exact absurd h (by simpa using hne)
        · exact h
      rw [List.flatMap_cons, hgroups]
      have hsplit : (group key rs k ++ rest).Perm rs := by
        simpa [group, hrest] using List.filter_append_perm (fun r => decide (key r = k)) rs
      exact ((ih hks' hcov').append_left _).trans hsplit

/-! ## Maps of summaries -/

variable (key) in
/-- The map that holds, under the key of every record, the summary `g` of the records with
that key. -/
def groupBy (g : List ρ → V) (rs : List ρ) : OrderedMap K V :=
  Std.ExtTreeMap.ofList ((canonical (rs.map key)).map fun k => (k, g (group key rs k))) compare

/-- **What a map of summaries holds under a key.** -/
theorem getElem?_groupBy (g : List ρ → V) (rs : List ρ) (k : K) :
    (groupBy key g rs)[k]? = if k ∈ rs.map key then some (g (group key rs k)) else none := by
  by_cases hk : k ∈ rs.map key
  · rw [if_pos hk]
    refine Std.ExtTreeMap.getElem?_ofList_of_mem (compare_eq_iff_eq.mpr rfl) ?_ ?_
    · rw [List.pairwise_map]
      exact (canonical_nodup _).imp fun hne heq => hne (compare_eq_iff_eq.mp heq)
    · exact List.mem_map.mpr ⟨k, mem_canonical.mpr hk, rfl⟩
  · rw [if_neg hk]
    refine Std.ExtTreeMap.getElem?_ofList_of_contains_eq_false ?_
    simpa using hk

theorem mem_groupBy {g : List ρ → V} {rs : List ρ} {k : K} :
    k ∈ groupBy key g rs ↔ ∃ r ∈ rs, key r = k := by
  rw [Std.ExtTreeMap.mem_iff_isSome_getElem?, getElem?_groupBy, ← List.mem_map]
  by_cases hk : k ∈ rs.map key
  · simp [hk]
  · simp [hk]

theorem getElem?_groupBy_eq_some {g : List ρ → V} {rs : List ρ} {k : K} {v : V} :
    (groupBy key g rs)[k]? = some v ↔ (∃ r ∈ rs, key r = k) ∧ g (group key rs k) = v := by
  rw [getElem?_groupBy, ← List.mem_map]
  by_cases hk : k ∈ rs.map key
  · simp [hk]
  · simp [hk]

/-- The summary read at a key: under a missing key it is that of no record at all. -/
theorem value_groupBy [Inhabited V] {step : V → ρ → V} {g : List ρ → V} (h : Incremental step g)
    (rs : List ρ) (k : K) : (groupBy key g rs).value k = g (group key rs k) := by
  rw [value, getElem?_groupBy]
  by_cases hk : k ∈ rs.map key
  · rw [if_pos hk, Option.getD_some]
  · have hnil : group key rs k = [] :=
      group_eq_nil_iff.mpr fun r hr heq => hk (List.mem_map.mpr ⟨r, hr, heq⟩)
    rw [if_neg hk, Option.getD_none, hnil, h.nil]

theorem keys_groupBy (g : List ρ → V) (rs : List ρ) :
    (groupBy key g rs).keys = canonical (rs.map key) := by
  refine ((keys_enumerates _).congr fun k => ?_).unique (canonical_enumerates (rs.map key))
  rw [mem_groupBy, List.mem_map]

theorem toList_groupBy (g : List ρ → V) (rs : List ρ) :
    (groupBy key g rs).toList
      = (canonical (rs.map key)).map fun k => (k, g (group key rs k)) := by
  rw [← keys_groupBy g rs]
  exact toList_eq_map_keys fun k v h => (getElem?_groupBy_eq_some.mp h).2.symm

/-- **Ungrouping.** If every entry is unfolded to the records of its group, in any order, the
map is unfolded to the sequence it was built from. -/
theorem flatMap_toList_groupBy_perm {g : List ρ → V} {rs : List ρ} {φ : K × V → List ρ}
    (hφ : ∀ k, (φ (k, g (group key rs k))).Perm (group key rs k)) :
    ((groupBy key g rs).toList.flatMap φ).Perm rs := by
  have hcov : ∀ r ∈ rs, key r ∈ canonical (rs.map key) := fun r hr =>
    mem_canonical.mpr (List.mem_map_of_mem hr)
  rw [toList_groupBy, List.flatMap_map]
  calc ((canonical (rs.map key)).flatMap fun k => φ (k, g (group key rs k))).Perm
        ((canonical (rs.map key)).flatMap (group key rs)) :=
          List.Perm.flatMap_left _ fun k _ => hφ k
    List.Perm _ rs := flatMap_group_perm (canonical_nodup _) hcov

theorem groupBy_nil (g : List ρ → V) : groupBy key g [] = ∅ := by
  apply Std.ExtTreeMap.ext_getElem?
  intro k
  simp [getElem?_groupBy]

/-- **One more record is one statement `step (m[key r]) r`.** Only the slot of the record's
key changes, and it is created if need be. -/
theorem groupBy_concat [Inhabited V] {step : V → ρ → V} {g : List ρ → V}
    (h : Incremental step g) (rs : List ρ) (r : ρ) :
    groupBy key g (rs ++ [r]) = (groupBy key g rs).subscript (key r) fun v => step v r := by
  apply Std.ExtTreeMap.ext_getElem?
  intro k
  rw [getElem?_subscript, value_groupBy h, getElem?_groupBy, getElem?_groupBy]
  by_cases hk : key r = k
  · subst hk
    rw [if_pos rfl, if_pos (by simp), group_concat_self, h.concat]
  · -- frame: neither the group nor the presence of another key changes
    have hmem : k ∈ (rs ++ [r]).map key ↔ k ∈ rs.map key := by
      simp [Ne.symm hk]
    rw [if_neg hk, group_concat_ne hk]
    simp only [hmem]

/-- **Incremental grouping**: a step for the summary gives a step for the map. -/
theorem Incremental.groupBy [Inhabited V] {step : V → ρ → V} {g : List ρ → V}
    (h : Incremental step g) :
    Incremental (fun m r => subscript m (key r) fun v => step v r) (groupBy key g) :=
  ⟨groupBy_nil g, groupBy_concat h⟩

/-! ## The last record of a key -/

/-- When a key occurs, the sequence splits at its last record. -/
theorem exists_split_last {rs : List ρ} {k : K} (h : ∃ r ∈ rs, key r = k) :
    ∃ before r after, rs = before ++ r :: after ∧ key r = k ∧ ∀ r' ∈ after, key r' ≠ k := by
  -- from the end: the first record met with the key is the last one of the sequence
  induction rs using List.reverseRecOn with
  | nil =>
      obtain ⟨r, hr, _⟩ := h
      exact absurd hr List.not_mem_nil
  | append_singleton rs x ih =>
      by_cases hx : key x = k
      · exact ⟨rs, x, [], rfl, hx, by simp⟩
      · have hrs : ∃ r ∈ rs, key r = k := by
          obtain ⟨r, hr, hk⟩ := h
          rcases List.mem_append.mp hr with hr | hr
          · exact ⟨r, hr, hk⟩
          · rw [List.mem_singleton.mp hr] at hk
            exact absurd hk hx
        obtain ⟨before, r, after, rfl, hk, hafter⟩ := ih hrs
        refine ⟨before, r, after ++ [x], by simp, hk, ?_⟩
        intro r' hr'
        rcases List.mem_append.mp hr' with h' | h'
        · exact hafter r' h'
        · rw [List.mem_singleton.mp h']
          exact hx

theorem lastOf_group {α : Type*} [Inhabited α] (f : ρ → α) {before after : List ρ} {r : ρ}
    (hafter : ∀ r' ∈ after, key r' ≠ key r) :
    lastOf f (group key (before ++ r :: after) (key r)) = f r := by
  have hnil : group key after (key r) = [] := group_eq_nil_iff.mpr hafter
  have hgroup : group key (before ++ r :: after) (key r) = group key before (key r) ++ [r] := by
    rw [group, List.filter_append, List.filter_cons_of_pos (by simp)]
    rw [group] at hnil
    rw [hnil]
    rfl
  rw [hgroup, lastOf, List.getLast?_concat]
  rfl

/-- **Overwriting leaves the last word**: the map of last values holds under a key the value
of the last record with that key. -/
theorem getElem?_groupBy_lastOf {α : Type*} [Inhabited α] {f : ρ → α} {rs : List ρ} {k : K}
    {d : α} : (groupBy key (lastOf f) rs)[k]? = some d ↔
      ∃ before r after, rs = before ++ r :: after ∧ key r = k ∧ (∀ r' ∈ after, key r' ≠ k) ∧
        f r = d := by
  rw [getElem?_groupBy_eq_some]
  constructor
  · rintro ⟨hk, hd⟩
    obtain ⟨before, r, after, rfl, rfl, hafter⟩ := exists_split_last hk
    rw [lastOf_group f hafter] at hd
    exact ⟨before, r, after, rfl, rfl, hafter, hd⟩
  · rintro ⟨before, r, after, rfl, rfl, hafter, hd⟩
    exact ⟨⟨r, by simp, rfl⟩, by rw [lastOf_group f hafter, hd]⟩

/-- The map does not depend on the order of the records when the summary does not. -/
theorem groupBy_perm {g : List ρ → V} (hg : ∀ {l l' : List ρ}, l.Perm l' → g l = g l')
    {rs rs' : List ρ} (h : rs.Perm rs') : groupBy key g rs = groupBy key g rs' := by
  apply Std.ExtTreeMap.ext_getElem?
  intro k
  have hmem : k ∈ rs.map key ↔ k ∈ rs'.map key := (h.map key).mem_iff
  rw [getElem?_groupBy, getElem?_groupBy, hg (group_perm h k)]
  simp only [hmem]

/-! ## Order dependence of overwriting

A map of last values depends on the order of the records, unless records with one key agree
on the value. -/

theorem exists_perm_concat {rs : List ρ} {r : ρ} (hr : r ∈ rs) : ∃ l, (l ++ [r]).Perm rs := by
  obtain ⟨before, after, rfl⟩ := List.append_of_mem hr
  refine ⟨before ++ after, ?_⟩
  rw [List.append_assoc]
  exact (List.perm_append_singleton r after).append_left before

theorem getElem?_groupBy_lastOf_concat {α : Type*} [Inhabited α] (f : ρ → α) (l : List ρ)
    (r : ρ) : (groupBy key (lastOf f) (l ++ [r]))[key r]? = some (f r) :=
  getElem?_groupBy_lastOf.mpr ⟨l, r, [], rfl, rfl, by simp, rfl⟩

/-- When records with one key agree on the value, any of them tells the value of the key. -/
theorem getElem?_groupBy_lastOf_of_agree {α : Type*} [Inhabited α] {f : ρ → α} {rs : List ρ}
    (hagree : ∀ r ∈ rs, ∀ r' ∈ rs, key r = key r' → f r = f r') {k : K} {d : α} :
    (groupBy key (lastOf f) rs)[k]? = some d ↔ ∃ r ∈ rs, key r = k ∧ f r = d := by
  rw [getElem?_groupBy_lastOf]
  constructor
  · rintro ⟨before, r, after, rfl, hk, _, hd⟩
    exact ⟨r, by simp, hk, hd⟩
  · rintro ⟨r, hr, rfl, rfl⟩
    have hkey : ∃ x ∈ rs, key x = key r := ⟨r, hr, rfl⟩
    obtain ⟨before, r', after, rfl, hk, hafter⟩ := exists_split_last hkey
    exact ⟨before, r', after, rfl, hk, hafter, hagree r' (by simp) r hr hk⟩

/-- **All orders of the records give one map of last values exactly when records with the same
key agree on the value.** -/
theorem groupBy_lastOf_perm_iff {α : Type*} [Inhabited α] {f : ρ → α} {rs : List ρ} :
    (∀ rs₁ rs₂, rs₁.Perm rs → rs₂.Perm rs →
        groupBy key (lastOf f) rs₁ = groupBy key (lastOf f) rs₂) ↔
      ∀ r ∈ rs, ∀ r' ∈ rs, key r = key r' → f r = f r' := by
  constructor
  · -- let each of the two records be the last one
    intro h r hr r' hr' hk
    obtain ⟨l, hl⟩ := exists_perm_concat hr
    obtain ⟨l', hl'⟩ := exists_perm_concat hr'
    have hlast : (groupBy key (lastOf f) (l ++ [r]))[key r]? = some (f r) :=
      getElem?_groupBy_lastOf_concat f l r
    rw [h _ _ hl hl', hk, getElem?_groupBy_lastOf_concat] at hlast
    exact (Option.some.inj hlast).symm
  · intro hagree rs₁ rs₂ h₁ h₂
    -- what a map of last values answers is now a matter of membership only
    have hread : ∀ {l : List ρ}, l.Perm rs → ∀ k d,
        (groupBy key (lastOf f) l)[k]? = some d ↔ ∃ r ∈ rs, key r = k ∧ f r = d := by
      intro l hl k d
      rw [getElem?_groupBy_lastOf_of_agree fun r hr r' hr' =>
        hagree r (hl.mem_iff.mp hr) r' (hl.mem_iff.mp hr')]
      simp only [hl.mem_iff]
    apply Std.ExtTreeMap.ext_getElem?
    intro k
    refine Option.ext fun d => ?_
    rw [hread h₁, hread h₂]

end Groups
