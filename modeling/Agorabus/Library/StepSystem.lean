import Mathlib.Algebra.Ring.Nat
import Mathlib.Data.List.Infix

namespace StepSystem

variable {σ α : Type} (step : σ → α → Option σ)

/-- Take the actions in order; an action that is not enabled stops the run. -/
def run : σ → List α → Option σ
  | s, [] => some s
  | s, a :: as => (step s a).bind (fun t => run t as)

/-- Every step that is taken satisfies the predicate in the state it is taken in. -/
def Along (P : σ → α → Prop) : σ → List α → Prop
  | _, [] => True
  | s, a :: as => ∀ t, step s a = some t → P s a ∧ Along P t as

def Always (I : σ → Prop) (s : σ) (as : List α) : Prop :=
  ∀ bs t, bs <+: as → run step s bs = some t → I t

def trace {β : Type} (emit : σ → α → List β) : σ → List α → List β
  | _, [] => []
  | s, a :: as => (step s a).elim [] (fun t => emit s a ++ trace emit t as)

instance decidableAlong {P : σ → α → Prop} [∀ s a, Decidable (P s a)] :
    ∀ s as, Decidable (Along step P s as)
  | _, [] => isTrue trivial
  | s, a :: as =>
    match hs : step s a with
    | none => isTrue (fun t ht => by rw [hs] at ht; cases ht)
    | some t =>
      have : Decidable (Along step P t as) := decidableAlong t as
      decidable_of_iff (P s a ∧ Along step P t as)
        ⟨fun h u hu => by obtain rfl := Option.some.inj (hs.symm.trans hu); exact h,
          fun h => h t hs⟩

@[simp] theorem run_nil (s : σ) : run step s [] = some s := rfl

theorem run_cons (s : σ) (a : α) (as : List α) :
    run step s (a :: as) = (step s a).bind (fun t => run step t as) := rfl

theorem run_cons_eq_some {s t : σ} {a : α} {as : List α} :
    run step s (a :: as) = some t ↔ ∃ u, step s a = some u ∧ run step u as = some t := by
  rw [run_cons, Option.bind_eq_some_iff]

theorem run_append (s : σ) (as bs : List α) :
    run step s (as ++ bs) = (run step s as).bind (fun t => run step t bs) := by
  induction as generalizing s with
  | nil => rfl
  | cons a as ih =>
    rw [List.cons_append, run_cons, run_cons, Option.bind_assoc]
    congr 1
    funext u
    exact ih u

theorem run_append_eq_some {s t : σ} {as bs : List α} :
    run step s (as ++ bs) = some t ↔
      ∃ u, run step s as = some u ∧ run step u bs = some t := by
  rw [run_append, Option.bind_eq_some_iff]

variable {step}

theorem run_along_invariant {I : σ → Prop} {P : σ → α → Prop}
    (hstep : ∀ s a t, I s → P s a → step s a = some t → I t) {s t : σ} {as : List α}
    (hp : Along step P s as) (hr : run step s as = some t) (hs : I s) : I t := by
  induction as generalizing s with
  | nil =>
    cases hr
    exact hs
  | cons a as ih =>
    obtain ⟨u, hu, hr⟩ := (run_cons_eq_some step).mp hr
    exact ih (hp u hu).2 hr (hstep s a u hs (hp u hu).1 hu)

theorem along_true (s : σ) (as : List α) : Along step (fun _ _ => True) s as := by
  induction as generalizing s with
  | nil => trivial
  | cons a as ih => exact fun t _ => ⟨trivial, ih t⟩

theorem along_of_forall {P : α → Prop} (s : σ) {as : List α} (h : ∀ a ∈ as, P a) :
    Along step (fun _ a => P a) s as := by
  induction as generalizing s with
  | nil => trivial
  | cons a as ih =>
    exact fun t _ => ⟨h a List.mem_cons_self, ih t (fun b hb => h b (List.mem_cons_of_mem _ hb))⟩

theorem along_and {P Q : σ → α → Prop} {s : σ} {as : List α} :
    Along step (fun s a => P s a ∧ Q s a) s as ↔ Along step P s as ∧ Along step Q s as := by
  induction as generalizing s with
  | nil => simp [Along]
  | cons a as ih =>
    simp only [Along, ih]
    constructor
    · intro h
      exact ⟨fun t ht => ⟨(h t ht).1.1, (h t ht).2.1⟩, fun t ht => ⟨(h t ht).1.2, (h t ht).2.2⟩⟩
    · rintro ⟨hp, hq⟩ t ht
      exact ⟨⟨(hp t ht).1, (hq t ht).1⟩, (hp t ht).2, (hq t ht).2⟩

theorem along_or_exists (P : σ → α → Prop) (s : σ) (as : List α) :
    Along step P s as ∨ ∃ bs a cs u, as = bs ++ a :: cs ∧ run step s bs = some u ∧
      Along step P s bs ∧ ¬ P u a := by
  induction as generalizing s with
  | nil => exact Or.inl trivial
  | cons a as ih =>
    by_cases hp : P s a
    · cases hs : step s a with
      | none => exact Or.inl (fun t ht => by rw [hs] at ht; cases ht)
      | some t =>
        obtain h | ⟨bs, b, cs, u, rfl, hu, ha, hn⟩ := ih t
        · refine Or.inl (fun t' ht => ?_)
          obtain rfl : t = t' := Option.some.inj (hs.symm.trans ht)
          exact ⟨hp, h⟩
        · refine Or.inr ⟨a :: bs, b, cs, u, rfl, (run_cons_eq_some step).mpr ⟨t, hs, hu⟩, ?_, hn⟩
          intro t' ht
          obtain rfl : t = t' := Option.some.inj (hs.symm.trans ht)
          exact ⟨hp, ha⟩
    · exact Or.inr ⟨[], a, as, s, rfl, rfl, trivial, hp⟩

theorem run_invariant {I : σ → Prop} (hstep : ∀ s a t, I s → step s a = some t → I t)
    {s t : σ} {as : List α} (hr : run step s as = some t) (hs : I s) : I t :=
  run_along_invariant (fun s a t hi _ h => hstep s a t hi h) (along_true s as) hr hs

theorem run_simulates {R : σ → σ → Prop} {P : α → Prop} (hstep : ∀ s s' a t, R s s' → P a →
    step s a = some t → ∃ t', step s' a = some t' ∧ R t t') {s s' t : σ} {as : List α}
    (h : R s s') (hp : ∀ a ∈ as, P a) (hr : run step s as = some t) :
    ∃ t', run step s' as = some t' ∧ R t t' := by
  induction as generalizing s s' with
  | nil =>
    cases hr
    exact ⟨s', rfl, h⟩
  | cons a as ih =>
    obtain ⟨u, hu, hr⟩ := (run_cons_eq_some step).mp hr
    obtain ⟨u', hu', h⟩ := hstep s s' a u h (hp a List.mem_cons_self) hu
    obtain ⟨t', ht', ht⟩ := ih h (fun b hb => hp b (List.mem_cons_of_mem _ hb)) hr
    exact ⟨t', (run_cons_eq_some step).mpr ⟨u', hu', ht'⟩, ht⟩

theorem run_trace_invariant {β : Type} {emit : σ → α → List β} {I : σ → List β → Prop}
    {P : σ → α → Prop}
    (hstep : ∀ s a t out, I s out → P s a → step s a = some t → I t (out ++ emit s a))
    {s t : σ} {as : List α} {out : List β} (hp : Along step P s as) (hr : run step s as = some t)
    (hs : I s out) : I t (out ++ trace step emit s as) := by
  induction as generalizing s out with
  | nil =>
    cases hr
    rw [trace, List.append_nil]
    exact hs
  | cons a as ih =>
    obtain ⟨u, hu, hr⟩ := (run_cons_eq_some step).mp hr
    have hsu : I u (out ++ emit s a) := hstep s a u out hs (hp u hu).1 hu
    rw [trace, hu, Option.elim_some, ← List.append_assoc]
    exact ih (hp u hu).2 hr hsu

/-- When every step pays for what it puts out of one kind with what it puts out of another and
with what it leaves in a balance, so does every run. -/
theorem run_balance {β γ : Type} (emit : σ → α → List β) (emit' : σ → α → List γ) (φ : σ → Nat)
    {I : σ → Prop} (hinv : ∀ s a t, I s → step s a = some t → I t)
    (hstep : ∀ s a t, I s → step s a = some t →
      (emit s a).length + φ s = (emit' s a).length + φ t)
    {s t : σ} {as : List α} (hr : run step s as = some t) (hs : I s) :
    (trace step emit s as).length + φ s = (trace step emit' s as).length + φ t := by
  induction as generalizing s with
  | nil =>
    cases hr
    rfl
  | cons a as ih =>
    obtain ⟨u, hu, hr⟩ := (run_cons_eq_some step).mp hr
    have hone := hstep s a u hs hu
    have hrest := ih hr (hinv s a u hs hu)
    simp only [trace, hu, Option.elim_some, List.length_append]
    omega

theorem mem_trace {β : Type} {emit : σ → α → List β} {x : β} {s : σ} {as : List α}
    (h : x ∈ trace step emit s as) :
    ∃ bs a cs u t, as = bs ++ a :: cs ∧ run step s bs = some u ∧ step u a = some t ∧
      x ∈ emit u a := by
  induction as generalizing s with
  | nil => cases h
  | cons a as ih =>
    rw [trace] at h
    cases hs : step s a with
    | none =>
      rw [hs] at h
      cases h
    | some t =>
      rw [hs, Option.elim_some] at h
      obtain h | h := List.mem_append.mp h
      · exact ⟨[], a, as, s, t, rfl, rfl, hs, h⟩
      · obtain ⟨bs, b, cs, u, v, rfl, hu, hv, hx⟩ := ih h
        exact ⟨a :: bs, b, cs, u, v, rfl, (run_cons_eq_some step).mpr ⟨t, hs, hu⟩, hv, hx⟩

def AlongHistory {β : Type} (step : σ → α → Option σ) (emit : σ → α → List β)
    (Q : List β → σ → α → Prop) (s : σ) (as : List α) : Prop :=
  ∀ bs a cs u t, as = bs ++ a :: cs → run step s bs = some u → step u a = some t →
    Q (trace step emit s bs) u a

theorem along_append {P : σ → α → Prop} {s : σ} {as bs : List α} :
    Along step P s (as ++ bs) ↔
      Along step P s as ∧ ∀ t, run step s as = some t → Along step P t bs := by
  induction as generalizing s with
  | nil => simp [Along]
  | cons a as ih =>
    simp only [List.cons_append, Along, ih, run_cons_eq_some]
    constructor
    · intro h
      exact ⟨fun t ht => ⟨(h t ht).1, (h t ht).2.1⟩, fun t ⟨u, hu, ht⟩ => (h u hu).2.2 t ht⟩
    · rintro ⟨h, h'⟩ t ht
      exact ⟨(h t ht).1, (h t ht).2, fun v hv => h' v ⟨t, ht, hv⟩⟩

theorem Along.mono {P Q : σ → α → Prop} (h : ∀ s a, P s a → Q s a) {s : σ} {as : List α}
    (hp : Along step P s as) : Along step Q s as := by
  induction as generalizing s with
  | nil => trivial
  | cons a as ih => exact fun t ht => ⟨h s a (hp t ht).1, ih (hp t ht).2⟩

theorem trace_append {β : Type} (emit : σ → α → List β) (s : σ) (as bs : List α) :
    trace step emit s (as ++ bs) = trace step emit s as ++
      (run step s as).elim [] (fun t => trace step emit t bs) := by
  induction as generalizing s with
  | nil => rfl
  | cons a as ih =>
    rw [List.cons_append, trace, trace, run_cons]
    cases step s a with
    | none => rfl
    | some t =>
      rw [Option.elim_some, Option.elim_some, ih, List.append_assoc]
      rfl

theorem along_iff_forall {P : σ → α → Prop} {s : σ} {as : List α} :
    Along step P s as ↔ ∀ bs a cs u t, as = bs ++ a :: cs → run step s bs = some u →
      step u a = some t → P u a := by
  constructor
  · rintro h bs a cs u t rfl hu ht
    exact ((along_append.mp h).2 u hu t ht).1
  · intro h
    induction as generalizing s with
    | nil => trivial
    | cons a as ih =>
      intro t ht
      refine ⟨h [] a as s t rfl rfl ht, ih (fun bs b cs u v has hu hv => ?_)⟩
      exact h (a :: bs) b cs u v (by rw [has]; rfl) ((run_cons_eq_some step).mpr ⟨t, ht, hu⟩) hv

theorem AlongHistory.of_invariant {β : Type} {emit : σ → α → List β} {I : σ → List β → Prop}
    {P : σ → α → Prop} {Q : List β → σ → α → Prop}
    (hinv : ∀ s a t out, I s out → P s a → step s a = some t → I t (out ++ emit s a))
    (h : ∀ s a t out, I s out → P s a → step s a = some t → Q out s a)
    {s : σ} {as : List α} (hs : I s []) (hp : Along step P s as) :
    AlongHistory step emit Q s as := by
  rintro bs a cs u t rfl hu ht
  obtain ⟨hbs, hrest⟩ := along_append.mp hp
  have hi : I u (trace step emit s bs) := run_trace_invariant hinv hbs hu hs
  exact h u a t _ hi (hrest u hu t ht).1 ht

theorem along_iff_history {β : Type} {emit : σ → α → List β} {I : σ → List β → Prop}
    {P : σ → α → Prop} {Q : List β → σ → α → Prop}
    (hinv : ∀ s a t out, I s out → step s a = some t → I t (out ++ emit s a))
    (hiff : ∀ s a t out, I s out → step s a = some t → (P s a ↔ Q out s a))
    {s : σ} {as : List α} (hs : I s []) :
    Along step P s as ↔ AlongHistory step emit Q s as := by
  have holds {bs : List α} {u : σ} (hu : run step s bs = some u) :
      I u (trace step emit s bs) :=
    run_trace_invariant (fun s a t out hi _ h => hinv s a t out hi h) (along_true s bs) hu hs
  rw [along_iff_forall]
  constructor
  · intro h bs a cs u t has hu ht
    exact (hiff u a t _ (holds hu) ht).mp (h bs a cs u t has hu ht)
  · intro h bs a cs u t has hu ht
    exact (hiff u a t _ (holds hu) ht).mpr (h bs a cs u t has hu ht)

/-- Two ways to tell which steps are good agree on runs if they agree on each step in a
state that only good steps have led to. -/
theorem along_iff_of_invariant {P Q : σ → α → Prop} {J : σ → Prop}
    (hinv : ∀ s a t, J s → Q s a → step s a = some t → J t)
    (hstep : ∀ s a t, J s → step s a = some t → (P s a ↔ Q s a))
    {s : σ} {as : List α} (hj : J s) : Along step P s as ↔ Along step Q s as := by
  induction as generalizing s with
  | nil => exact Iff.rfl
  | cons a as ih =>
    constructor
    · intro h t ht
      have hq : Q s a := (hstep s a t hj ht).mp (h t ht).1
      exact ⟨hq, (ih (hinv s a t hj hq ht)).mp (h t ht).2⟩
    · intro h t ht
      have hq : Q s a := (h t ht).1
      exact ⟨(hstep s a t hj ht).mpr hq, (ih (hinv s a t hj hq ht)).mpr (h t ht).2⟩

theorem Along.of_invariant {P Q : σ → α → Prop} {J : σ → Prop}
    (hinv : ∀ s a t, J s → P s a → step s a = some t → J t) (h : ∀ s a, J s → P s a → Q s a)
    {s : σ} {as : List α} (hj : J s) (hp : Along step P s as) : Along step Q s as := by
  induction as generalizing s with
  | nil => trivial
  | cons a as ih =>
    exact fun t ht => ⟨h s a hj (hp t ht).1, ih (hinv s a t hj (hp t ht).1 ht) (hp t ht).2⟩

theorem always_of_along {P : σ → α → Prop} {I J : σ → Prop}
    (hinv : ∀ s a t, J s → P s a → step s a = some t → J t) (h : ∀ s, J s → I s)
    {s : σ} {as : List α} (hj : J s) (hp : Along step P s as) : Always step I s as := by
  rintro bs t ⟨cs, rfl⟩ ht
  exact h t (run_along_invariant hinv (along_append.mp hp).1 ht hj)

theorem always_nil {I : σ → Prop} {s : σ} : Always step I s [] ↔ I s := by
  constructor
  · intro h
    exact h [] s (List.prefix_refl _) rfl
  · intro h bs t hb ht
    rw [List.prefix_nil.mp hb] at ht
    cases ht
    exact h

theorem always_cons {I : σ → Prop} {s : σ} {a : α} {as : List α} :
    Always step I s (a :: as) ↔ I s ∧ ∀ t, step s a = some t → Always step I t as := by
  constructor
  · intro h
    refine ⟨h [] s List.nil_prefix rfl, fun t ht bs u hb hu => ?_⟩
    exact h (a :: bs) u ((List.prefix_cons_inj a).mpr hb)
      ((run_cons_eq_some step).mpr ⟨t, ht, hu⟩)
  · rintro ⟨hs, h⟩ bs t hb ht
    cases bs with
    | nil =>
      cases ht
      exact hs
    | cons b bs =>
      obtain ⟨rfl, hpre⟩ := List.cons_prefix_cons.mp hb
      obtain ⟨u, hu, ht⟩ := (run_cons_eq_some step).mp ht
      exact h u hu bs t hpre ht

theorem always_iff_along {I J : σ → Prop} {P : σ → α → Prop}
    (hinv : ∀ s a t, J s → step s a = some t → J t)
    (hstep : ∀ s a t, J s → I s → step s a = some t → (I t ↔ P s a))
    {s : σ} {as : List α} (hj : J s) (hs : I s) :
    Always step I s as ↔ Along step P s as := by
  induction as generalizing s with
  | nil => exact ⟨fun _ => trivial, fun _ => always_nil.mpr hs⟩
  | cons a as ih =>
    rw [always_cons]
    constructor
    · rintro ⟨_, h⟩ t ht
      have hit : I t := h t ht [] t List.nil_prefix rfl
      exact ⟨(hstep s a t hj hs ht).mp hit, (ih (hinv s a t hj ht) hit).mp (h t ht)⟩
    · intro h
      refine ⟨hs, fun t ht => ?_⟩
      have hit : I t := (hstep s a t hj hs ht).mpr (h t ht).1
      exact (ih (hinv s a t hj ht) hit).mpr (h t ht).2

section Progress

variable {P : σ → α → Prop} {μ : σ → Nat}

theorem length_add_le_of_decreases (hdec : ∀ s a t, P s a → step s a = some t → μ t < μ s)
    {s t : σ} {as : List α} (hp : Along step P s as) (hr : run step s as = some t) :
    as.length + μ t ≤ μ s := by
  induction as generalizing s with
  | nil =>
    cases hr
    simp
  | cons a as ih =>
    obtain ⟨u, hu, hr⟩ := (run_cons_eq_some step).mp hr
    obtain ⟨ha, hrest⟩ := hp u hu
    have hlt : μ u < μ s := hdec s a u ha hu
    have hle : as.length + μ t ≤ μ u := ih hrest hr
    rw [List.length_cons]
    omega

/-- A run is no longer than the measure and what its steps have added to it. -/
theorem length_add_le_of_charged {I : σ → Prop} {charge : σ → α → Nat}
    (hinv : ∀ s a t, I s → P s a → step s a = some t → I t)
    (hcharge : ∀ s a t, I s → P s a → step s a = some t → μ t + 1 ≤ μ s + charge s a)
    {s t : σ} {as : List α} (hs : I s) (hp : Along step P s as) (hr : run step s as = some t) :
    as.length + μ t ≤ μ s + (trace step (fun s a => [charge s a]) s as).sum := by
  induction as generalizing s with
  | nil =>
    cases hr
    simp
  | cons a as ih =>
    obtain ⟨u, hu, hr⟩ := (run_cons_eq_some step).mp hr
    obtain ⟨ha, hrest⟩ := hp u hu
    have hone : μ u + 1 ≤ μ s + charge s a := hcharge s a u hs ha hu
    have hmore := ih (hinv s a u hs ha hu) hrest hr
    rw [trace, hu, Option.elim_some, List.singleton_append, List.sum_cons, List.length_cons]
    omega

/-- Where such a step can always be taken until the goal is reached, the goal is reached. -/
theorem exists_run_of_progress {I G : σ → Prop}
    (hdec : ∀ s a t, P s a → step s a = some t → μ t < μ s)
    (hprog : ∀ s, I s → G s ∨ ∃ a t, P s a ∧ step s a = some t ∧ I t) {s : σ} (hs : I s) :
    ∃ as t, Along step P s as ∧ run step s as = some t ∧ G t := by
  induction hn : μ s using Nat.strong_induction_on generalizing s with
  | _ n ih =>
    obtain hg | ⟨a, u, ha, hu, hi⟩ := hprog s hs
    · exact ⟨[], s, trivial, rfl, hg⟩
    · obtain ⟨as, t, hp, hr, hg⟩ := ih (μ u) (hn ▸ hdec s a u ha hu) hi rfl
      refine ⟨a :: as, t, fun v hv => ?_, (run_cons_eq_some step).mpr ⟨u, hu, hr⟩, hg⟩
      obtain rfl : u = v := Option.some.inj (hu.symm.trans hv)
      exact ⟨ha, hp⟩

end Progress

end StepSystem
