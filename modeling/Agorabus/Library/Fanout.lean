import Mathlib.Data.List.Perm.Basic
import Mathlib.Logic.Function.Basic

namespace Fanout

variable {ι P : Type}

/-- A network that owes every subscriber every published message once. What it has handed over
and what it still holds for a subscriber are together what has been published. -/
structure Net (ι P : Type) where
  published : List P
  inbox : ι → List P
  delivered : ι → List P
  conserved : ∀ j, (delivered j ++ inbox j).Perm published

namespace Net

def empty : Net ι P := ⟨[], fun _ => [], fun _ => [], fun _ => List.Perm.refl _⟩

def publish (n : Net ι P) (p : P) : Net ι P where
  published := n.published ++ [p]
  inbox := fun j => n.inbox j ++ [p]
  delivered := n.delivered
  conserved := fun j => by
    rw [← List.append_assoc]
    exact (n.conserved j).append_right [p]

def deliver [DecidableEq ι] (n : Net ι P) (j : ι) (k : Nat) : Option (P × Net ι P) :=
  if h : k < (n.inbox j).length then
    some ((n.inbox j)[k], {
      published := n.published
      inbox := Function.update n.inbox j ((n.inbox j).eraseIdx k)
      delivered := Function.update n.delivered j (n.delivered j ++ [(n.inbox j)[k]])
      conserved := fun i => by
        by_cases hi : i = j
        · subst hi
          rw [Function.update_self, Function.update_self, List.append_assoc]
          refine List.Perm.trans ?_ (n.conserved i)
          exact (List.getElem_cons_eraseIdx_perm h).append_left _
        · rw [Function.update_of_ne hi, Function.update_of_ne hi]
          exact n.conserved i })
  else none

theorem deliver_eq_some [DecidableEq ι] {n n' : Net ι P} {j : ι} {k : Nat} {p : P}
    (h : n.deliver j k = some (p, n')) : p ∈ n.published ∧ n'.published = n.published ∧
      n'.delivered = Function.update n.delivered j (n.delivered j ++ [p]) := by
  unfold deliver at h
  split at h
  · rename_i hk
    cases h
    refine ⟨?_, rfl, rfl⟩
    exact (n.conserved j).subset (List.mem_append_right _ (List.getElem_mem hk))
  · cases h

theorem delivered_perm (n : Net ι P) {j : ι} (h : n.inbox j = []) :
    (n.delivered j).Perm n.published := by
  have hc : (n.delivered j ++ n.inbox j).Perm n.published := n.conserved j
  rwa [h, List.append_nil] at hc

end Net

end Fanout
