import Mathlib.Order.Basic

namespace Unwinding

variable {σ α β τ : Type} (step : σ → α → σ × β)

/-- The state after some actions. -/
def runs (s : σ) (as : List α) : σ := as.foldl (fun s a => (step s a).1) s

def outputs : σ → List α → List (α × β)
  | _, [] => []
  | s, a :: as => (a, (step s a).2) :: outputs (step s a).1 as

theorem runs_append (s : σ) (as bs : List α) :
    runs step s (as ++ bs) = runs step (runs step s as) bs :=
  List.foldl_append

theorem outputs_append (s : σ) (as bs : List α) :
    outputs step s (as ++ bs) = outputs step s as ++ outputs step (runs step s as) bs := by
  induction as generalizing s with
  | nil => rfl
  | cons a as ih =>
    rw [List.cons_append, outputs, outputs, ih, List.cons_append]
    rfl

/-- An observer who sees some of the actions of a machine whose actions have a time. What it can
tell of a state may fade as time goes on; the actions it does not see change nothing of it. -/
structure Observer [LE τ] (stage : α → τ) (seen : α → Bool) where
  Alike : τ → σ → σ → Prop
  later : ∀ {i j s s'}, i ≤ j → Alike i s s' → Alike j s s'
  kept : ∀ {a s s'}, seen a = true → Alike (stage a) s s' →
    (step s a).2 = (step s' a).2 ∧ Alike (stage a) (step s a).1 (step s' a).1
  erased : ∀ {a s s'}, seen a = false → Alike (stage a) s s' → Alike (stage a) (step s a).1 s'

variable {step} [LE τ] {stage : α → τ} {seen : α → Bool}

/-- A run and what is left of it without the unseen actions answer the seen ones alike and end
alike. -/
theorem Observer.purge (ob : Observer step stage seen) {as : List α} {i : τ} {s s' : σ}
    (h : ob.Alike i s s') (hi : ∀ a ∈ as, i ≤ stage a)
    (ho : as.Pairwise (fun a b => stage a ≤ stage b)) :
    (outputs step s as).filter (fun x => seen x.1) = outputs step s' (as.filter seen) ∧
      ∀ j, i ≤ j → (∀ a ∈ as, stage a ≤ j) →
        ob.Alike j (runs step s as) (runs step s' (as.filter seen)) := by
  induction as generalizing i s s' with
  | nil => exact ⟨rfl, fun j hj _ => ob.later hj h⟩
  | cons a as ih =>
    have ha := ob.later (hi a List.mem_cons_self) h
    obtain ⟨hle, ho⟩ := List.pairwise_cons.mp ho
    cases hs : seen a with
    | true =>
      obtain ⟨hout, hnext⟩ := ob.kept hs ha
      obtain ⟨houts, hend⟩ := ih hnext hle ho
      simp only [outputs, List.filter_cons, hs, ↓reduceIte, houts, hout, true_and]
      exact fun j _ hj => hend j (hj a List.mem_cons_self)
        (fun b hb => hj b (List.mem_cons_of_mem _ hb))
    | false =>
      obtain ⟨houts, hend⟩ := ih (ob.erased hs ha) hle ho
      simp only [outputs, List.filter_cons, hs, Bool.false_eq_true, ↓reduceIte, houts, true_and]
      exact fun j _ hj => hend j (hj a List.mem_cons_self)
        (fun b hb => hj b (List.mem_cons_of_mem _ hb))

end Unwinding
