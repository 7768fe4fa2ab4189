import Agorabus.Library.JsonText

namespace Json

mutual

/-- The value as a `serde_json::Value` has it: with the keys in order, and of a repeated key the
last. -/
def canonical : Json → Json
  | .array xs => .array (canonicalItems xs)
  | .object fs => (canonicalFields fs).foldl (fun o f => o.insert f.1 f.2) (.object [])
  | .null => .null
  | .bool b => .bool b
  | .number n => .number n
  | .string s => .string s
termination_by structural v => v

def canonicalItems : List Json → List Json
  | [] => []
  | x :: xs => canonical x :: canonicalItems xs
termination_by structural xs => xs

def canonicalField : String × Json → String × Json
  | (k, v) => (k, canonical v)
termination_by structural f => f

def canonicalFields : List (String × Json) → List (String × Json)
  | [] => []
  | f :: fs => canonicalField f :: canonicalFields fs
termination_by structural fs => fs

end

inductive Ordered : Json → Prop
  | null : Ordered .null
  | bool (b : Bool) : Ordered (.bool b)
  | number (n : Int) : Ordered (.number n)
  | string (s : String) : Ordered (.string s)
  | array {xs : List Json} (h : ∀ x ∈ xs, Ordered x) : Ordered (.array xs)
  | object {fs : List (String × Json)} (hkeys : fs.Pairwise (fun f g => f.1 < g.1))
      (h : ∀ f ∈ fs, Ordered f.2) : Ordered (.object fs)

def present (fs : List (String × Option Json)) : List (String × Json) :=
  fs.filterMap (fun f => f.2.map (fun v => (f.1, v)))

/-- The named fields of a struct, where they are given. Other fields are passed over, and a named
field may not be given twice. Also an array is read as the struct, as the first of its fields. -/
def fieldsOf (names : List String) : Json → Option (List (Option Json))
  | .object fs =>
      if ((fs.map Prod.fst).filter (· ∈ names)).Nodup then some (names.map (fs.lookup ·)) else none
  | .array xs =>
      if xs.length ≤ names.length then
        some (xs.map some ++ List.replicate (names.length - xs.length) none)
      else none
  | _ => none

def tagged (tag : String) : Json → Option (String × Json)
  | .object fs =>
    match fs.filter (fun f => f.1 = tag) with
    | [(_, .string op)] => some (op, .object (fs.filter (fun f => f.1 ≠ tag)))
    | _ => none
  | .array (.string op :: xs) => some (op, .array xs)
  | _ => none

def asBool? : Json → Option Bool
  | .bool b => some b
  | _ => none

def asUint? (bound : Nat) (v : Json) : Option Nat := v.asU64?.filter (fun n => decide (n < bound))

def asArray? : Json → Option (List Json)
  | .array xs => some xs
  | _ => none

def asObject? : Json → Option (List (String × Json))
  | .object fs => some fs
  | _ => none

def asVec? {α : Type} (read : Json → Option α) (v : Json) : Option (List α) := do
  (← v.asArray?).mapM read

def asOption? {α : Type} (read : Json → Option α) : Json → Option (Option α)
  | .null => some none
  | v => (read v).map some

def ofOption : Option Json → Json
  | none => .null
  | some v => v

def readOr {α : Type} (default : α) (read : Json → Option α) : Option Json → Option α
  | none => some default
  | some v => read v

/-- A `serde_json::Value` that can stand in a text under so many levels. -/
structure FitsUnder (levels : Nat) (v : Json) : Prop where
  inRange : v.InRange
  ordered : v.Ordered
  depth_lt : v.depth + levels < recursionLimit

theorem insert_last {fs : List (String × Json)} {k : String} (v : Json)
    (h : ∀ f ∈ fs, f.1 < k) : (object fs).insert k v = object (fs ++ [(k, v)]) := by
  have hlow : fs.filter (fun f => f.1 < k) = fs :=
    List.filter_eq_self.mpr (fun f hf => decide_eq_true (h f hf))
  have hhigh : fs.filter (fun f => k < f.1) = [] :=
    List.filter_eq_nil_iff.mpr (fun f hf => by
      rw [decide_eq_true_eq]
      exact String.lt_asymm (h f hf))
  rw [insert, hlow, hhigh]

theorem foldl_insert {fs gs : List (String × Json)}
    (h : (fs ++ gs).Pairwise (fun f g => f.1 < g.1)) :
    gs.foldl (fun o f => o.insert f.1 f.2) (object fs) = object (fs ++ gs) := by
  induction gs generalizing fs with
  | nil => rw [List.append_nil, List.foldl_nil]
  | cons g gs ih =>
    rw [List.append_cons] at h
    have hlast : ∀ f ∈ fs, f.1 < g.1 := fun f hf =>
      (List.pairwise_append.mp (List.pairwise_append.mp h).1).2.2 f hf g (List.mem_singleton_self g)
    rw [List.foldl_cons, insert_last _ hlast, ih h, List.append_assoc, List.singleton_append]

theorem canonicalItems_eq {xs : List Json} (h : ∀ x ∈ xs, x.canonical = x) :
    canonicalItems xs = xs := by
  induction xs with
  | nil => rfl
  | cons x xs ih =>
    rw [canonicalItems, h x List.mem_cons_self, ih (fun y hy => h y (List.mem_cons_of_mem _ hy))]

theorem canonicalFields_eq {fs : List (String × Json)} (h : ∀ f ∈ fs, f.2.canonical = f.2) :
    canonicalFields fs = fs := by
  induction fs with
  | nil => rfl
  | cons f fs ih =>
    rw [canonicalFields, canonicalField, h f List.mem_cons_self,
      ih (fun g hg => h g (List.mem_cons_of_mem _ hg))]

theorem Ordered.canonical_eq {v : Json} (hv : v.Ordered) : v.canonical = v := by
  induction v with
  | null | bool | number | string => rfl
  | array xs ih =>
    cases hv with
    | array h => rw [canonical, canonicalItems_eq (fun x hx => ih x hx (h x hx))]
  | object fs ih =>
    cases hv with
    | object hkeys h =>
      rw [canonical, canonicalFields_eq (fun f hf => ih f hf (h f hf))]
      exact foldl_insert (show ([] ++ fs).Pairwise _ from hkeys)

theorem present_append (fs gs : List (String × Option Json)) :
    present (fs ++ gs) = present fs ++ present gs :=
  List.filterMap_append

theorem lookup_eq_none {α : Type} {fs : List (String × α)} {k : String}
    (h : k ∉ fs.map Prod.fst) : fs.lookup k = none :=
  List.lookup_eq_none_iff.mpr (fun f hf => by
    rw [bne_iff_ne]
    rintro rfl
    exact h (List.mem_map_of_mem hf))

theorem lookup_present {fs : List (String × Option Json)} (h : (fs.map Prod.fst).Nodup)
    (k : String) : (present fs).lookup k = (fs.lookup k).join := by
  induction fs with
  | nil => rfl
  | cons f fs ih =>
    obtain ⟨key, v⟩ := f
    rw [List.map_cons, List.nodup_cons] at h
    have ih := ih h.2
    by_cases hk : k = key
    · subst hk
      rw [List.lookup_cons_self, Option.join_some]
      cases v with
      | none =>
        rw [lookup_eq_none h.1] at ih
        exact ih
      | some w => exact List.lookup_cons_self
    · have hskip {α : Type} (v : α) (fs : List (String × α)) :
          ((key, v) :: fs).lookup k = fs.lookup k := by
        rw [List.lookup_cons, beq_false_of_ne hk]
      rw [hskip, ← ih]
      cases v with
      | none => rfl
      | some w => exact hskip w (present fs)

theorem present_sublist (fs : List (String × Option Json)) :
    ((present fs).map Prod.fst).Sublist (fs.map Prod.fst) := by
  induction fs with
  | nil => exact List.Sublist.refl _
  | cons f fs ih =>
    obtain ⟨k, v⟩ := f
    cases v with
    | none => exact ih.cons _
    | some v => exact ih.cons_cons _

theorem fieldsOf_present {fs : List (String × Option Json)} (h : (fs.map Prod.fst).Nodup)
    (names : List String) : fieldsOf names (.object (present fs)) =
      some (names.map (fun k => (fs.lookup k).join)) := by
  have hnodup : (((present fs).map Prod.fst).filter (· ∈ names)).Nodup :=
    ((h.sublist (present_sublist fs)).sublist List.filter_sublist)
  rw [fieldsOf, if_pos hnodup]
  exact congrArg some (List.map_congr_left (fun k _ => lookup_present h k))

theorem fieldsOf_declared {fs : List (String × Option Json)} (h : (fs.map Prod.fst).Nodup) :
    fieldsOf (fs.map Prod.fst) (.object (present fs)) = some (fs.map Prod.snd) := by
  rw [fieldsOf_present h, List.map_map]
  congr 1
  refine List.map_congr_left (fun f hf => ?_)
  obtain ⟨as, bs, rfl⟩ := List.append_of_mem hf
  rw [List.map_append, List.map_cons, List.nodup_append] at h
  have hlookup : (as ++ f :: bs).lookup f.1 = some f.2 :=
    List.lookup_eq_some_iff.mpr ⟨as, bs, rfl, fun g hg => by
      rw [bne_iff_ne]
      exact (h.2.2 g.1 (List.mem_map_of_mem hg) f.1 List.mem_cons_self).symm⟩
  rw [Function.comp_apply, hlookup, Option.join_some]

theorem tagged_present {tag op : String} {fs : List (String × Option Json)}
    (h : tag ∉ fs.map Prod.fst) :
    tagged tag (.object (present ((tag, some (.string op)) :: fs))) =
      some (op, .object (present fs)) := by
  have hne : ∀ f ∈ present fs, f.1 ≠ tag := fun f hf he =>
    h (he ▸ (present_sublist fs).subset (List.mem_map_of_mem hf))
  have hcons : present ((tag, some (.string op)) :: fs) = (tag, .string op) :: present fs := rfl
  have hone : (present fs).filter (fun f => f.1 = tag) = [] :=
    List.filter_eq_nil_iff.mpr (fun f hf => by simpa using hne f hf)
  have hrest : (present fs).filter (fun f => f.1 ≠ tag) = present fs :=
    List.filter_eq_self.mpr (fun f hf => by simpa using hne f hf)
  rw [hcons, tagged, List.filter_cons_of_pos (by simp), hone,
    List.filter_cons_of_neg (by simp), hrest]

@[simp] theorem asStr?_string (t : String) : (string t).asStr? = some t := rfl

@[simp] theorem asBool?_bool (b : Bool) : (bool b).asBool? = some b := rfl

@[simp] theorem readOr_some {α : Type} (a : α) (read : Json → Option α) (v : Json) :
    readOr a read (some v) = read v := rfl

@[simp] theorem readOr_none {α : Type} (a : α) (read : Json → Option α) :
    readOr a read none = some a := rfl

theorem asUint?_nat {n bound : Nat} (h : n < bound) : (nat n).asUint? bound = some n :=
  Option.filter_some_pos (decide_eq_true h)

theorem asOption?_ofOption {α : Type} {read : Json → Option α} (write : α → Json)
    (h : ∀ a, read (write a) = some a) (hnull : ∀ a, write a ≠ .null) (o : Option α) :
    asOption? read (ofOption (o.map write)) = some o := by
  cases o with
  | none => rfl
  | some a =>
    have hread : asOption? read (write a) = (read (write a)).map some := by
      cases hw : write a with
      | null => exact absurd hw (hnull a)
      | bool | number | string | array | object => rfl
    exact hread.trans (by rw [h]; rfl)

theorem mapM_map {α β : Type} {read : β → Option α} {write : α → β} {as : List α}
    (h : ∀ a ∈ as, read (write a) = some a) : (as.map write).mapM read = some as := by
  induction as with
  | nil => rfl
  | cons a as ih =>
    rw [List.map_cons, List.mapM_cons, h a List.mem_cons_self,
      ih (fun b hb => h b (List.mem_cons_of_mem _ hb))]
    rfl

@[simp] theorem asVec?_strings (ts : List String) :
    asVec? asStr? (.array (ts.map .string)) = some ts :=
  mapM_map (fun _ _ => rfl)

@[simp] theorem asOption?_string (o : Option String) :
    asOption? asStr? (ofOption (o.map .string)) = some o :=
  asOption?_ofOption string (fun _ => rfl) (fun _ h => by cases h) o

@[simp] theorem readOr_map_string (o : Option String) :
    readOr none (asOption? asStr?) (o.map .string) = some o := by
  cases o <;> rfl

theorem mem_present {fs : List (String × Option Json)} {f : String × Json} (h : f ∈ present fs) :
    (f.1, some f.2) ∈ fs := by
  obtain ⟨⟨k, o⟩, hm, he⟩ := List.mem_filterMap.mp h
  obtain ⟨v, rfl, rfl⟩ := Option.map_eq_some_iff.mp he
  exact hm

theorem depthItems_le {xs : List Json} {n : Nat} (h : ∀ x ∈ xs, x.depth ≤ n) :
    depthItems xs ≤ n := by
  induction xs with
  | nil => exact Nat.zero_le n
  | cons x xs ih =>
    exact Nat.max_le.mpr ⟨h x List.mem_cons_self, ih (fun y hy => h y (List.mem_cons_of_mem _ hy))⟩

theorem depthFields_le {fs : List (String × Json)} {n : Nat} (h : ∀ f ∈ fs, f.2.depth ≤ n) :
    depthFields fs ≤ n := by
  induction fs with
  | nil => exact Nat.zero_le n
  | cons f fs ih =>
    obtain ⟨k, v⟩ := f
    exact Nat.max_le.mpr
      ⟨h (k, v) List.mem_cons_self, ih (fun g hg => h g (List.mem_cons_of_mem _ hg))⟩

structure Writes (levels : Nat) (v : Json) : Prop where
  inRange : v.InRange
  depth_le : v.depth ≤ levels

theorem Writes.mono {m n : Nat} {v : Json} (h : Writes m v) (hle : m ≤ n) : Writes n v :=
  ⟨h.inRange, Nat.le_trans h.depth_le hle⟩

theorem writes_string (n : Nat) (t : String) : Writes n (.string t) :=
  ⟨.string t, Nat.zero_le n⟩

theorem writes_bool (n : Nat) (b : Bool) : Writes n (.bool b) := ⟨.bool b, Nat.zero_le n⟩

theorem writes_nat (n : Nat) {m : Nat} (h : m < 2 ^ 64) : Writes n (nat m) :=
  ⟨.number (by omega), Nat.zero_le n⟩

theorem writes_ofOption {n : Nat} {o : Option Json} (h : ∀ v ∈ o, Writes n v) :
    Writes n (ofOption o) := by
  cases o with
  | none => exact ⟨.null, Nat.zero_le n⟩
  | some v => exact h v rfl

theorem writes_array {n : Nat} {xs : List Json} (h : ∀ x ∈ xs, Writes n x) :
    Writes (n + 1) (.array xs) :=
  ⟨.array (fun x hx => (h x hx).inRange),
    Nat.succ_le_succ (depthItems_le (fun x hx => (h x hx).depth_le))⟩

theorem writes_object {n : Nat} {fs : List (String × Json)} (h : ∀ f ∈ fs, Writes n f.2) :
    Writes (n + 1) (.object fs) :=
  ⟨.object (fun f hf => (h f hf).inRange),
    Nat.succ_le_succ (depthFields_le (fun f hf => (h f hf).depth_le))⟩

theorem writes_present {n : Nat} {fs : List (String × Option Json)}
    (h : ∀ f ∈ fs, ∀ v ∈ f.2, Writes n v) : Writes (n + 1) (.object (present fs)) :=
  writes_object (fun f hf => h (f.1, some f.2) (mem_present hf) f.2 rfl)

theorem Writes.parse_text {n : Nat} {v : Json} (h : Writes n v) (hn : n < recursionLimit) :
    parse v.text = some v :=
  Json.parse_text h.inRange (Nat.lt_of_le_of_lt h.depth_le hn)

end Json
