import Mathlib.Data.List.AList

abbrev Table (κ α : Type) := AList (fun _ : κ => α)

namespace Table

variable {κ α : Type} [DecidableEq κ]

/-- The instance of `AList` does not evaluate. -/
instance [DecidableEq α] : DecidableEq (Table κ α) := fun m m' =>
  decidable_of_iff (m.entries = m'.entries) AList.ext_iff.symm

def values (m : Table κ α) : List α := m.entries.map Sigma.snd

def retain (p : κ → α → Bool) (m : Table κ α) : Table κ α :=
  ⟨m.entries.filter (fun e => p e.1 e.2), m.nodupKeys.sublist List.filter_sublist⟩

def modify (k : κ) (f : α → α) (m : Table κ α) : Table κ α where
  entries := m.entries.map (fun e => if e.1 = k then ⟨e.1, f e.2⟩ else e)
  nodupKeys := by
    have hk : (m.entries.map (fun e : (_ : κ) × α =>
        if e.1 = k then (⟨e.1, f e.2⟩ : (_ : κ) × α) else e)).map Sigma.fst =
        m.entries.map Sigma.fst := by
      rw [List.map_map]
      apply List.map_congr_left
      intro e _
      by_cases h : e.1 = k <;> simp [h]
    change (List.map Sigma.fst _).Nodup
    rw [hk]
    exact m.nodupKeys

theorem lookup_insert (m : Table κ α) (k j : κ) (v : α) :
    (m.insert k v).lookup j = if j = k then some v else m.lookup j := by
  by_cases h : j = k
  · subst j; simp
  · rw [AList.lookup_insert_ne h, if_neg h]

theorem lookup_erase (m : Table κ α) (k j : κ) :
    (m.erase k).lookup j = if j = k then none else m.lookup j := by
  by_cases h : j = k
  · subst j; simp
  · rw [AList.lookup_erase_ne h, if_neg h]

theorem lookup_eq_some_iff (m : Table κ α) (k : κ) (v : α) :
    m.lookup k = some v ↔ ⟨k, v⟩ ∈ m.entries :=
  AList.mem_lookup_iff

theorem lookup_retain (p : κ → α → Bool) (m : Table κ α) (k : κ) :
    (retain p m).lookup k = (m.lookup k).filter (p k) := by
  apply Option.ext
  intro v
  rw [lookup_eq_some_iff, Option.filter_eq_some_iff, lookup_eq_some_iff]
  simp [retain]

omit [DecidableEq κ] in
theorem retain_retain {p q : κ → α → Bool} (h : ∀ k v, q k v = true → p k v = true)
    (m : Table κ α) : retain q (retain p m) = retain q m := by
  apply AList.ext
  simp only [retain, List.filter_filter]
  refine List.filter_congr (fun e _ => ?_)
  rw [Bool.and_eq_left_iff_imp]
  exact h e.1 e.2

theorem lookup_modify (m : Table κ α) (k j : κ) (f : α → α) :
    (modify k f m).lookup j = if j = k then (m.lookup j).map f else m.lookup j := by
  apply Option.ext
  intro v
  rw [lookup_eq_some_iff]
  simp only [modify, List.mem_map]
  constructor
  · rintro ⟨⟨i, w⟩, hm, he⟩
    by_cases hi : i = k
    · simp only [if_pos hi, Sigma.mk.injEq, heq_eq_eq] at he
      obtain ⟨rfl, rfl⟩ := he
      rw [if_pos hi, (lookup_eq_some_iff m i w).mpr hm, Option.map_some]
    · simp only [if_neg hi, Sigma.mk.injEq, heq_eq_eq] at he
      obtain ⟨rfl, rfl⟩ := he
      rw [if_neg hi]
      exact (lookup_eq_some_iff m i w).mpr hm
  · intro h
    by_cases hj : j = k
    · rw [if_pos hj, Option.map_eq_some_iff] at h
      obtain ⟨w, hw, rfl⟩ := h
      exact ⟨⟨j, w⟩, (lookup_eq_some_iff m j w).mp hw, by simp [hj]⟩
    · rw [if_neg hj] at h
      exact ⟨⟨j, v⟩, (lookup_eq_some_iff m j v).mp h, by simp [hj]⟩

theorem mem_iff_lookup (m : Table κ α) (k : κ) : k ∈ m ↔ m.lookup k ≠ none := by
  rw [Ne, AList.lookup_eq_none, not_not]

theorem mem_values (m : Table κ α) (v : α) : v ∈ values m ↔ ∃ k, m.lookup k = some v := by
  simp only [values, List.mem_map, lookup_eq_some_iff]
  constructor
  · rintro ⟨⟨k, w⟩, hm, rfl⟩
    exact ⟨k, hm⟩
  · rintro ⟨k, hm⟩
    exact ⟨⟨k, v⟩, hm, rfl⟩

theorem mem_modify (m : Table κ α) (k j : κ) (f : α → α) : j ∈ modify k f m ↔ j ∈ m := by
  rw [mem_iff_lookup, mem_iff_lookup, lookup_modify]
  by_cases h : j = k <;> simp [h]

theorem nodup_map_values {f : α → κ} {m : Table κ α} (h : ∀ k v, m.lookup k = some v → f v = k) :
    ((values m).map f).Nodup := by
  have hk : (values m).map f = m.entries.map Sigma.fst := by
    rw [values, List.map_map]
    exact List.map_congr_left (fun e he => h e.1 e.2 ((lookup_eq_some_iff m e.1 e.2).mpr he))
  rw [hk]
  exact m.nodupKeys

def ofEntries (es : List (κ × α)) : Table κ α := es.foldl (fun m e => m.insert e.1 e.2) ∅

/-- The entries of the map, in any order. -/
structure Enumerates (m : Table κ α) (es : List (κ × α)) : Prop where
  nodup : (es.map Prod.fst).Nodup
  mem : ∀ k v, (k, v) ∈ es ↔ m.lookup k = some v

theorem mem_foldl_insert {es : List (κ × α)} (h : (es.map Prod.fst).Nodup) (m : Table κ α)
    (k : κ) (v : α) : (es.foldl (fun m e => m.insert e.1 e.2) m).lookup k = some v ↔
      (k, v) ∈ es ∨ (k ∉ es.map Prod.fst ∧ m.lookup k = some v) := by
  induction es generalizing m with
  | nil => simp
  | cons e es ih =>
    rw [List.map_cons, List.nodup_cons] at h
    rw [List.foldl_cons, ih h.2, lookup_insert, List.mem_cons, List.map_cons, List.mem_cons]
    by_cases hk : k = e.1
    · subst hk
      have hno : (e.1, v) ∉ es := fun hm => h.1 (List.mem_map.mpr ⟨_, hm, rfl⟩)
      simp [h.1, hno, Prod.ext_iff, eq_comm]
    · have hne : (k, v) ≠ e := fun he => hk (by rw [← he])
      simp [hk, hne]

theorem lookup_ofEntries {m : Table κ α} {es : List (κ × α)} (h : Enumerates m es) (k : κ) :
    (ofEntries es).lookup k = m.lookup k := by
  refine Option.ext (fun v => ?_)
  rw [ofEntries, mem_foldl_insert h.nodup, ← h.mem k v]
  simp

def pairs (m : Table κ α) : List (κ × α) := m.entries.map (fun e => (e.1, e.2))

theorem enumerates_pairs (m : Table κ α) : Enumerates m (pairs m) where
  nodup := by
    have hkeys : (pairs m).map Prod.fst = m.entries.map Sigma.fst := by
      rw [pairs, List.map_map]
      rfl
    rw [hkeys]
    exact m.nodupKeys
  mem := fun k v => by
    rw [lookup_eq_some_iff, pairs, List.mem_map]
    constructor
    · rintro ⟨e, he, heq⟩
      cases heq
      exact he
    · intro h
      exact ⟨_, h, rfl⟩

def All (P : α → Prop) (m : Table κ α) : Prop := ∀ k v, m.lookup k = some v → P v

section All

variable {P : α → Prop} {m : Table κ α}

theorem all_empty : All P (∅ : Table κ α) := by
  intro k v h
  cases h

theorem All.insert (h : All P m) (k : κ) {v : α} (hv : P v) : All P (m.insert k v) := by
  intro j w hw
  rw [lookup_insert] at hw
  split at hw
  · cases hw
    exact hv
  · exact h j w hw

theorem All.erase (h : All P m) (k : κ) : All P (m.erase k) := by
  intro j w hw
  rw [lookup_erase] at hw
  split at hw
  · cases hw
  · exact h j w hw

theorem All.retain (h : All P m) (p : κ → α → Bool) : All P (Table.retain p m) := by
  intro j w hw
  rw [lookup_retain] at hw
  exact h j w (Option.filter_eq_some_iff.mp hw).1

theorem All.modify (h : All P m) (k : κ) {f : α → α} (hf : ∀ v, P v → P (f v)) :
    All P (Table.modify k f m) := by
  intro j w hw
  rw [lookup_modify] at hw
  split at hw
  · obtain ⟨v, hv, rfl⟩ := Option.map_eq_some_iff.mp hw
    exact hf v (h j v hv)
  · exact h j w hw

theorem All.values (h : All P m) : ∀ v ∈ values m, P v := by
  intro v hv
  obtain ⟨k, hk⟩ := (mem_values m v).mp hv
  exact h k v hk

end All

end Table
