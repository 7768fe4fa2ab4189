import Agorabus.Library.JsonSerde

namespace Json

theorem parseNumber_sound {cs rest : List Char} {v : Json}
    (h : parseNumber cs = some (v, rest)) : Writes 0 v := by
  unfold parseNumber at h
  split at h
  · obtain ⟨⟨n, ds⟩, _, h⟩ := Option.bind_eq_some_iff.mp h
    dsimp only at h
    split at h
    · rename_i hn
      cases h
      exact ⟨.number (by omega), Nat.le_refl 0⟩
    · cases h
  · obtain ⟨⟨n, ds⟩, _, h⟩ := Option.bind_eq_some_iff.mp h
    dsimp only at h
    split at h
    · rename_i hn
      cases h
      exact ⟨.number (by omega), Nat.le_refl 0⟩
    · cases h

/-- What is parsed with so much fuel has its numbers in range and nests no deeper than allowed. -/
structure Sound (fuel : Nat) : Prop where
  value : ∀ {levels : Nat} {cs rest : List Char} {v : Json},
    parseValue fuel (levels + 1) cs = some (v, rest) → Writes levels v
  items : ∀ {levels : Nat} {cs rest : List Char} {xs : List Json},
    parseItems fuel (levels + 1) cs = some (xs, rest) → ∀ x ∈ xs, Writes levels x
  fields : ∀ {levels : Nat} {cs rest : List Char} {fs : List (String × Json)},
    parseFields fuel (levels + 1) cs = some (fs, rest) → ∀ f ∈ fs, Writes levels f.2

theorem sound_value {fuel levels : Nat} (hs : Sound fuel) {cs rest : List Char} {v : Json}
    (h : parseValue (fuel + 1) (levels + 1) cs = some (v, rest)) : Writes levels v := by
  rw [parseValue] at h
  split at h
  · cases h
  · obtain ⟨r, _, he⟩ := Option.map_eq_some_iff.mp h
    cases he
    exact writes_string levels r.1
  · split at h
    · cases h
    rename_i hd
    obtain ⟨n, rfl⟩ := Nat.exists_eq_succ_of_ne_zero (show levels ≠ 0 by omega)
    split at h
    · cases h
      exact writes_array (List.forall_mem_nil _)
    · obtain ⟨r, hr, he⟩ := Option.map_eq_some_iff.mp h
      cases he
      exact writes_array (hs.items hr)
  · split at h
    · cases h
    rename_i hd
    obtain ⟨n, rfl⟩ := Nat.exists_eq_succ_of_ne_zero (show levels ≠ 0 by omega)
    split at h
    · cases h
      exact writes_object (List.forall_mem_nil _)
    · obtain ⟨r, hr, he⟩ := Option.map_eq_some_iff.mp h
      cases he
      exact writes_object (hs.fields hr)
  · cases h
    exact ⟨.null, Nat.zero_le levels⟩
  · cases h
    exact writes_bool levels true
  · cases h
    exact writes_bool levels false
  · exact (parseNumber_sound h).mono (Nat.zero_le levels)

theorem sound_items {fuel levels : Nat} (hs : Sound fuel) {cs rest : List Char} {xs : List Json}
    (h : parseItems (fuel + 1) (levels + 1) cs = some (xs, rest)) : ∀ x ∈ xs, Writes levels x := by
  rw [parseItems] at h
  obtain ⟨⟨x, ds⟩, hx, h⟩ := Option.bind_eq_some_iff.mp h
  have hx := hs.value hx
  dsimp only at h
  split at h
  · obtain ⟨⟨ys, es⟩, hys, he⟩ := Option.bind_eq_some_iff.mp h
    cases he
    exact List.forall_mem_cons.mpr ⟨hx, hs.items hys⟩
  · cases h
    exact List.forall_mem_singleton.mpr hx
  · cases h

theorem sound_fields {fuel levels : Nat} (hs : Sound fuel) {cs rest : List Char}
    {fs : List (String × Json)} (h : parseFields (fuel + 1) (levels + 1) cs = some (fs, rest)) :
    ∀ f ∈ fs, Writes levels f.2 := by
  rw [parseFields] at h
  split at h
  · obtain ⟨⟨k, ds⟩, _, h⟩ := Option.bind_eq_some_iff.mp h
    dsimp only at h
    split at h
    · obtain ⟨⟨v, es⟩, hv, h⟩ := Option.bind_eq_some_iff.mp h
      have hv := hs.value hv
      dsimp only at h
      split at h
      · obtain ⟨⟨gs, es⟩, hgs, he⟩ := Option.bind_eq_some_iff.mp h
        cases he
        exact List.forall_mem_cons.mpr ⟨hv, hs.fields hgs⟩
      · cases h
        exact List.forall_mem_singleton.mpr hv
      · cases h
    · cases h
  · cases h

theorem sound (fuel : Nat) : Sound fuel := by
  induction fuel with
  | zero =>
    constructor <;> intro levels cs rest v h <;> cases h
  | succ fuel ih => exact ⟨sound_value ih, sound_items ih, sound_fields ih⟩

theorem writes_of_parse {text : String} {v : Json} (h : parse text = some v) : Writes 127 v := by
  obtain ⟨⟨w, rest⟩, hw, h⟩ := Option.bind_eq_some_iff.mp h
  dsimp only at h
  split at h
  · cases h
    exact (sound _).value hw
  · cases h

theorem canonicalItems_map (xs : List Json) : canonicalItems xs = xs.map canonical := by
  induction xs with
  | nil => rfl
  | cons x xs ih => rw [canonicalItems, ih, List.map_cons]

theorem canonicalFields_map (fs : List (String × Json)) :
    canonicalFields fs = fs.map (fun f => (f.1, f.2.canonical)) := by
  induction fs with
  | nil => rfl
  | cons f fs ih => rw [canonicalFields, ih, List.map_cons, canonicalField]

theorem exists_insert {P : Json → Prop} {fs : List (String × Json)} {k : String} {v : Json}
    (hkeys : fs.Pairwise (fun f g => f.1 < g.1)) (hfs : ∀ f ∈ fs, P f.2) (hv : P v) :
    ∃ gs, (object fs).insert k v = object gs ∧ gs.Pairwise (fun f g => f.1 < g.1) ∧
      ∀ g ∈ gs, P g.2 := by
  refine ⟨_, rfl, ?_, ?_⟩
  · rw [List.pairwise_append, List.pairwise_cons]
    refine ⟨hkeys.sublist List.filter_sublist, ⟨fun g hg => ?_,
      hkeys.sublist List.filter_sublist⟩, fun f hf g hg => ?_⟩
    · exact of_decide_eq_true (List.mem_filter.mp hg).2
    · have hfk : f.1 < k := of_decide_eq_true (List.mem_filter.mp hf).2
      obtain rfl | hg := List.mem_cons.mp hg
      · exact hfk
      · have hkg : k < g.1 := of_decide_eq_true (List.mem_filter.mp hg).2
        exact String.lt_trans hfk hkg
  · intro g hg
    obtain hg | hg := List.mem_append.mp hg
    · exact hfs g (List.mem_filter.mp hg).1
    · obtain rfl | hg := List.mem_cons.mp hg
      · exact hv
      · exact hfs g (List.mem_filter.mp hg).1

theorem exists_foldl_insert {P : Json → Prop} {gs : List (String × Json)}
    (hgs : ∀ g ∈ gs, P g.2) {fs : List (String × Json)}
    (hkeys : fs.Pairwise (fun f g => f.1 < g.1)) (hfs : ∀ f ∈ fs, P f.2) :
    ∃ hs, gs.foldl (fun o f => o.insert f.1 f.2) (object fs) = object hs ∧
      hs.Pairwise (fun f g => f.1 < g.1) ∧ ∀ f ∈ hs, P f.2 := by
  induction gs generalizing fs with
  | nil => exact ⟨fs, rfl, hkeys, hfs⟩
  | cons g gs ih =>
    obtain ⟨hg, hgs⟩ := List.forall_mem_cons.mp hgs
    obtain ⟨fs', he, hkeys', hfs'⟩ := exists_insert (k := g.1) hkeys hfs hg
    rw [List.foldl_cons, he]
    exact ih hgs hkeys' hfs'

theorem canonical_object {P : Json → Prop} {fs : List (String × Json)}
    (h : ∀ f ∈ fs, P f.2.canonical) : ∃ gs, (object fs).canonical = object gs ∧
      gs.Pairwise (fun f g => f.1 < g.1) ∧ ∀ g ∈ gs, P g.2 := by
  rw [canonical, canonicalFields_map]
  refine exists_foldl_insert (fun g hg => ?_) List.Pairwise.nil (List.forall_mem_nil _)
  obtain ⟨f, hf, rfl⟩ := List.mem_map.mp hg
  exact h f hf

theorem ordered_canonical (v : Json) : v.canonical.Ordered := by
  induction v with
  | null => exact .null
  | bool b => exact .bool b
  | number n => exact .number n
  | string s => exact .string s
  | array xs ih =>
    rw [canonical, canonicalItems_map]
    refine .array (fun x hx => ?_)
    obtain ⟨y, hy, rfl⟩ := List.mem_map.mp hx
    exact ih y hy
  | object fs ih =>
    obtain ⟨gs, he, hkeys, hgs⟩ := canonical_object ih
    rw [he]
    exact .object hkeys hgs

theorem depth_le_depthItems {xs : List Json} {x : Json} (h : x ∈ xs) :
    x.depth ≤ depthItems xs := by
  induction xs with
  | nil => cases h
  | cons y xs ih =>
    obtain rfl | h := List.mem_cons.mp h
    · exact Nat.le_max_left _ _
    · exact Nat.le_trans (ih h) (Nat.le_max_right _ _)

theorem depth_le_depthFields {fs : List (String × Json)} {f : String × Json} (h : f ∈ fs) :
    f.2.depth ≤ depthFields fs := by
  induction fs with
  | nil => cases h
  | cons g fs ih =>
    obtain ⟨k, v⟩ := g
    obtain rfl | h := List.mem_cons.mp h
    · exact Nat.le_max_left v.depth _
    · exact Nat.le_trans (ih h) (Nat.le_max_right _ _)

theorem writes_array_iff {n : Nat} {xs : List Json} :
    Writes n (.array xs) ↔ ∃ m, n = m + 1 ∧ ∀ x ∈ xs, Writes m x := by
  constructor
  · rintro ⟨hr, hd⟩
    rw [depth] at hd
    obtain ⟨m, rfl⟩ := Nat.exists_eq_succ_of_ne_zero (show n ≠ 0 by omega)
    cases hr with
    | array h =>
      exact ⟨m, rfl, fun x hx =>
        ⟨h x hx, Nat.le_trans (depth_le_depthItems hx) (Nat.le_of_succ_le_succ hd)⟩⟩
  · rintro ⟨m, rfl, h⟩
    exact writes_array h

theorem writes_object_iff {n : Nat} {fs : List (String × Json)} :
    Writes n (.object fs) ↔ ∃ m, n = m + 1 ∧ ∀ f ∈ fs, Writes m f.2 := by
  constructor
  · rintro ⟨hr, hd⟩
    rw [depth] at hd
    obtain ⟨m, rfl⟩ := Nat.exists_eq_succ_of_ne_zero (show n ≠ 0 by omega)
    cases hr with
    | object h =>
      exact ⟨m, rfl, fun f hf =>
        ⟨h f hf, Nat.le_trans (depth_le_depthFields hf) (Nat.le_of_succ_le_succ hd)⟩⟩
  · rintro ⟨m, rfl, h⟩
    exact writes_object h

theorem Writes.canonical {n : Nat} {v : Json} (h : Writes n v) : Writes n v.canonical := by
  induction v generalizing n with
  | null | bool | number | string => exact h
  | array xs ih =>
    obtain ⟨m, rfl, hxs⟩ := writes_array_iff.mp h
    rw [Json.canonical, canonicalItems_map]
    refine writes_array (fun x hx => ?_)
    obtain ⟨y, hy, rfl⟩ := List.mem_map.mp hx
    exact ih y hy (hxs y hy)
  | object fs ih =>
    obtain ⟨m, rfl, hfs⟩ := writes_object_iff.mp h
    obtain ⟨gs, he, _, hgs⟩ := canonical_object (fun f hf => ih f hf (hfs f hf))
    rw [he]
    exact writes_object hgs

theorem Writes.fitsUnder {n levels : Nat} {v : Json} (h : Writes n v)
    (hn : n + levels < recursionLimit) : v.canonical.FitsUnder levels :=
  ⟨h.canonical.inRange, ordered_canonical v, by have := h.canonical.depth_le; omega⟩

theorem FitsUnder.mono {levels levels' : Nat} {v : Json} (h : v.FitsUnder levels)
    (hle : levels' ≤ levels) : v.FitsUnder levels' :=
  ⟨h.inRange, h.ordered, by have := h.depth_lt; omega⟩

theorem mem_of_lookup {α : Type} {fs : List (String × α)} {k : String} {v : α}
    (h : fs.lookup k = some v) : (k, v) ∈ fs := by
  obtain ⟨as, bs, rfl, _⟩ := List.lookup_eq_some_iff.mp h
  exact List.mem_append_right _ List.mem_cons_self

theorem writes_of_fieldsOf {n : Nat} {names : List String} {v : Json} {os : List (Option Json)}
    (hv : Writes (n + 1) v) (h : v.fieldsOf names = some os) :
    ∀ o ∈ os, ∀ w ∈ o, Writes n w := by
  intro o ho w hw
  cases v with
  | object fs =>
    obtain ⟨m, hm, hfs⟩ := writes_object_iff.mp hv
    obtain rfl := Nat.succ.inj hm
    rw [fieldsOf] at h
    split at h
    · cases h
      obtain ⟨k, _, rfl⟩ := List.mem_map.mp ho
      exact hfs _ (mem_of_lookup hw)
    · cases h
  | array xs =>
    obtain ⟨m, hm, hxs⟩ := writes_array_iff.mp hv
    obtain rfl := Nat.succ.inj hm
    rw [fieldsOf] at h
    split at h
    · cases h
      obtain ho | ho := List.mem_append.mp ho
      · obtain ⟨x, hx, he⟩ := List.mem_map.mp ho
        rw [← he] at hw
        cases hw
        exact hxs w hx
      · rw [List.eq_of_mem_replicate ho] at hw
        cases hw
    · cases h
  | null | bool | number | string => cases h

theorem writes_of_tagged {n : Nat} {tag op : String} {v content : Json} (hv : Writes n v)
    (h : v.tagged tag = some (op, content)) : Writes n content := by
  unfold tagged at h
  split at h
  · obtain ⟨m, rfl, hfs⟩ := writes_object_iff.mp hv
    split at h
    · cases h
      exact writes_object (fun f hf => hfs f (List.mem_filter.mp hf).1)
    · cases h
  · obtain ⟨m, rfl, hxs⟩ := writes_array_iff.mp hv
    cases h
    exact writes_array (fun x hx => hxs x (List.mem_cons_of_mem _ hx))
  · cases h

theorem asUint?_lt {bound n : Nat} {v : Json} (h : v.asUint? bound = some n) : n < bound :=
  of_decide_eq_true (Option.filter_eq_some_iff.mp h).2

theorem writes_of_asArray? {n : Nat} {v : Json} {xs : List Json} (hv : Writes (n + 1) v)
    (h : v.asArray? = some xs) : ∀ x ∈ xs, Writes n x := by
  unfold asArray? at h
  split at h
  · cases h
    obtain ⟨m, hm, hxs⟩ := writes_array_iff.mp hv
    obtain rfl := Nat.succ.inj hm
    exact hxs
  · cases h

theorem mem_of_mapM {α β : Type} {read : β → Option α} {bs : List β} {as : List α}
    (h : bs.mapM read = some as) : ∀ a ∈ as, ∃ b ∈ bs, read b = some a := by
  induction bs generalizing as with
  | nil =>
    cases h
    exact List.forall_mem_nil _
  | cons b bs ih =>
    rw [List.mapM_cons] at h
    obtain ⟨a, ha, h⟩ := Option.bind_eq_some_iff.mp h
    obtain ⟨as', has, he⟩ := Option.bind_eq_some_iff.mp h
    cases he
    refine List.forall_mem_cons.mpr ⟨⟨b, List.mem_cons_self, ha⟩, fun x hx => ?_⟩
    obtain ⟨c, hc, hr⟩ := ih has x hx
    exact ⟨c, List.mem_cons_of_mem _ hc, hr⟩

theorem writes_of_asVec? {α : Type} {n : Nat} {read : Json → Option α} {v : Json} {as : List α}
    (hv : Writes (n + 1) v) (h : v.asVec? read = some as) :
    ∀ a ∈ as, ∃ w, Writes n w ∧ read w = some a := by
  intro a ha
  obtain ⟨xs, hxs, h⟩ := Option.bind_eq_some_iff.mp h
  obtain ⟨w, hw, hr⟩ := mem_of_mapM h a ha
  exact ⟨w, writes_of_asArray? hv hxs w hw, hr⟩

theorem fitsUnder_bool {n : Nat} (hn : n < recursionLimit) (b : Bool) : (bool b).FitsUnder n :=
  ⟨.bool b, .bool b, by rw [depth]; omega⟩

theorem fitsUnder_string {n : Nat} (hn : n < recursionLimit) (t : String) :
    (string t).FitsUnder n :=
  ⟨.string t, .string t, by rw [depth]; omega⟩

theorem fitsUnder_nat {n m : Nat} (hn : n < recursionLimit) (hm : m < 2 ^ 64) :
    (nat m).FitsUnder n :=
  ⟨.number (by omega), .number _, by rw [nat, depth]; omega⟩

theorem fitsUnder_array {n : Nat} (hn : n + 1 < recursionLimit) {xs : List Json}
    (h : ∀ x ∈ xs, x.FitsUnder (n + 1)) : (array xs).FitsUnder n := by
  have hdepth : depthItems xs ≤ recursionLimit - 1 - (n + 1) :=
    depthItems_le (fun x hx => by have := (h x hx).depth_lt; omega)
  exact ⟨.array (fun x hx => (h x hx).inRange), .array (fun x hx => (h x hx).ordered),
    by rw [depth]; omega⟩

theorem fitsUnder_object {n : Nat} (hn : n + 1 < recursionLimit) {fs : List (String × Json)}
    (hkeys : (fs.map Prod.fst).Pairwise (· < ·)) (h : ∀ f ∈ fs, f.2.FitsUnder (n + 1)) :
    (object fs).FitsUnder n := by
  have hdepth : depthFields fs ≤ recursionLimit - 1 - (n + 1) :=
    depthFields_le (fun f hf => by have := (h f hf).depth_lt; omega)
  exact ⟨.object (fun f hf => (h f hf).inRange),
    .object (List.pairwise_map.mp hkeys) (fun f hf => (h f hf).ordered), by rw [depth]; omega⟩

theorem fitsUnder_present {n : Nat} (hn : n + 1 < recursionLimit)
    {fs : List (String × Option Json)} (hkeys : (fs.map Prod.fst).Pairwise (· < ·))
    (h : ∀ f ∈ fs, ∀ v ∈ f.2, v.FitsUnder (n + 1)) : (object (present fs)).FitsUnder n :=
  fitsUnder_object hn (hkeys.sublist (present_sublist fs))
    (fun f hf => h (f.1, some f.2) (mem_present hf) f.2 rfl)

end Json
