import Mathlib.Data.Option.Basic
import Mathlib.Logic.Function.Basic

namespace LeaseTable

/-- Who a lease is given to, and the first moment at which it is over. -/
structure Terms (R O : Type) where
  holder : R → O
  ending : R → Nat

inductive Op (K R O : Type) where
  | acquire (k : K) (lease : R) (force : Bool)
  | release (k : K) (who : O)
  | list

inductive Outcome (K R : Type) where
  | granted (evicted : Option R)
  | refused (held : R)
  | released (held : Bool)
  | listed (leases : K → Option R)

variable {K R O : Type} (terms : Terms R O)

def live (leases : K → Option R) (now : Nat) (k : K) : Option R :=
  (leases k).filter (fun r => decide (now < terms.ending r))

/-- From the moment on, nobody can tell the tables apart. -/
def Alike (now : Nat) (leases leases' : K → Option R) : Prop :=
  ∀ k, live terms leases now k = live terms leases' now k

/-- Leases that are over stay in the table, where nobody ever sees them. -/
def step [DecidableEq K] [DecidableEq O] (leases : K → Option R) (c : Nat × Op K R O) :
    (K → Option R) × Outcome K R :=
  match c.2 with
  | .acquire k lease force =>
      match live terms leases c.1 k with
      | none => (Function.update leases k (some lease), .granted none)
      | some r =>
          if terms.holder r = terms.holder lease then
            (Function.update leases k (some lease), .granted none)
          else if force then (Function.update leases k (some lease), .granted (some r))
          else (leases, .refused r)
  | .release k who =>
      if (live terms leases c.1 k).any (fun r => decide (terms.holder r = who)) then
        (Function.update leases k none, .released true)
      else (leases, .released false)
  | .list => (leases, .listed (live terms leases c.1))

variable {terms} {leases leases' leases'' : K → Option R} {now now' : Nat}

theorem live_later (hl : now ≤ now') (leases : K → Option R) (k : K) :
    live terms leases now' k =
      (live terms leases now k).filter (fun r => decide (now' < terms.ending r)) := by
  rw [live, live, Option.filter_filter]
  congr 1
  funext r
  by_cases h : now' < terms.ending r
  · have hn : now < terms.ending r := by omega
    simp [h, hn]
  · simp [h]

theorem Alike.later (h : Alike terms now leases leases') (hl : now ≤ now') :
    Alike terms now' leases leases' := by
  intro k
  rw [live_later hl, live_later hl, h k]

theorem Alike.trans (h : Alike terms now leases leases') (h' : Alike terms now leases' leases'') :
    Alike terms now leases leases'' :=
  fun k => (h k).trans (h' k)

theorem live_update [DecidableEq K] (leases : K → Option R) (k j : K) (o : Option R) :
    live terms (Function.update leases k o) now j =
      if j = k then o.filter (fun r => decide (now < terms.ending r))
      else live terms leases now j := by
  by_cases hj : j = k
  · subst hj
    simp [live]
  · simp [live, hj]

theorem Alike.update [DecidableEq K] (h : Alike terms now leases leases') (k : K) (o : Option R) :
    Alike terms now (Function.update leases k o) (Function.update leases' k o) := by
  intro j
  rw [live_update, live_update, h j]

variable [DecidableEq K] [DecidableEq O]

def grants (terms : Terms R O) (leases : K → Option R) (now : Nat) (who : O) (k : K)
    (force : Bool) : Bool :=
  match live terms leases now k with
  | none => true
  | some r => decide (terms.holder r = who) || force

theorem live_acquire (leases : K → Option R) (k j : K) (lease : R) (force : Bool) :
    live terms (LeaseTable.step terms leases (now, .acquire k lease force)).1 now j =
      if j = k ∧ grants terms leases now (terms.holder lease) k force = true then
        (some lease).filter (fun r => decide (now < terms.ending r))
      else live terms leases now j := by
  obtain hl | ⟨r, hl⟩ := Option.eq_none_or_eq_some (live terms leases now k)
  · simp [LeaseTable.step, grants, hl, live_update]
  · by_cases hr : terms.holder r = terms.holder lease
    · simp [LeaseTable.step, grants, hl, hr, live_update]
    · cases force with
      | true => simp [LeaseTable.step, grants, hl, hr, live_update]
      | false => simp [LeaseTable.step, grants, hl, hr]

theorem live_release (leases : K → Option R) (k j : K) (who : O) :
    live terms (LeaseTable.step terms leases (now, .release k who)).1 now j =
      if j = k ∧ (live terms leases now k).any (fun r => decide (terms.holder r = who)) = true then
        none
      else live terms leases now j := by
  simp only [LeaseTable.step]
  split
  · rename_i h
    simp [h, live_update]
  · rename_i h
    simp [h]

theorem Alike.step (h : Alike terms now leases leases') (op : Op K R O) :
    (LeaseTable.step terms leases (now, op)).2 = (LeaseTable.step terms leases' (now, op)).2 ∧
      Alike terms now (LeaseTable.step terms leases (now, op)).1
        (LeaseTable.step terms leases' (now, op)).1 := by
  cases op with
  | acquire k lease force =>
    simp only [LeaseTable.step, ← h k]
    cases live terms leases now k with
    | none => exact ⟨rfl, h.update k _⟩
    | some r =>
      by_cases hr : terms.holder r = terms.holder lease
      · simp only [hr, if_true]
        exact ⟨trivial, h.update k _⟩
      · cases force with
        | true => simpa [hr] using h.update k _
        | false => simpa [hr] using h
  | release k who =>
    simp only [LeaseTable.step, ← h k]
    split
    · exact ⟨rfl, h.update k _⟩
    · exact ⟨rfl, h⟩
  | list =>
    have hl : live terms leases now = live terms leases' now := funext h
    simpa only [LeaseTable.step, hl, true_and] using h

end LeaseTable
