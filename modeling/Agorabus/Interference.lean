import Agorabus.ClaimTable
import Agorabus.Library.Unwinding
import Agorabus.Steps

namespace Agorabus.Interference

open Agorabus Unwinding StepSystem

inductive ClaimOutcome where
  | acquired (decision : Acquired)
  | released (held : Bool)

def claimOutcome (st : BusState) (now : Nat) : Transaction → Option ClaimOutcome
  | .claimAcquire sid path ttl reason force =>
      some (.acquired (st.claimAcquire sid path ttl reason force now).2)
  | .claimRelease sid path => some (.released (st.claimRelease sid path now).2)
  | _ => none

structure Call where
  tr : Transaction
  now : Nat

def serve (st : BusState) (c : Call) : BusState × Option ClaimOutcome :=
  (c.tr.apply st c.now, claimOutcome st c.now c.tr)

/-- The call is not a claim operation on another path, nor a listing. -/
def concerns (p : String) (c : Call) : Bool :=
  match c.tr with
  | .claimAcquire _ path _ _ _ | .claimRelease _ path => decide (path = p)
  | .claimList => false
  | _ => true

theorem claimOutcome_congr {st st' : BusState} {now : Nat} {tr : Transaction} {p : String}
    (hp : tr.claimPath = some p)
    (h : liveClaim st.claims now p = liveClaim st'.claims now p) :
    claimOutcome st now tr = claimOutcome st' now tr := by
  cases tr with
  | claimAcquire sid path ttl reason force =>
    cases hp
    rw [claimOutcome, claimOutcome, BusState.claimAcquire_decision,
      BusState.claimAcquire_decision, h]
  | claimRelease sid path =>
    cases hp
    have hst : Transaction.changesDurable st now (.claimRelease sid p) = _ :=
      changesDurable_claimRelease sid p
    have hst' : Transaction.changesDurable st' now (.claimRelease sid p) = _ :=
      changesDurable_claimRelease sid p
    rw [Transaction.changesDurable] at hst hst'
    rw [claimOutcome, claimOutcome, hst, hst', h]
  | _ => rfl

theorem grants_congr {st st' : BusState} {now : Nat} {p : String}
    (h : liveClaim st.claims now p = liveClaim st'.claims now p) (sid : String) (force : Bool) :
    st.grants now sid p force = st'.grants now sid p force := by
  rw [BusState.grants, BusState.grants, h]

theorem liveClaim_apply_congr {st st' : BusState} {now : Nat} {p : String}
    (h : liveClaim st.claims now p = liveClaim st'.claims now p) (tr : Transaction) :
    liveClaim (tr.apply st now).claims now p = liveClaim (tr.apply st' now).claims now p := by
  rw [liveClaim_apply, liveClaim_apply]
  cases tr with
  | claimAcquire sid path ttl reason force =>
    by_cases hp : p = path
    · subst hp
      simp only [grants_congr h, h]
    · simp only [hp, false_and, ↓reduceIte, h]
  | claimRelease sid path =>
    by_cases hp : p = path
    · subst hp
      simp only [h]
    · simp only [hp, false_and, ↓reduceIte, h]
  | _ => exact h

theorem liveClaim_apply_other {now : Nat} {tr : Transaction} {p : String}
    (hp : tr.claimPath ≠ some p) (st : BusState) :
    liveClaim (tr.apply st now).claims now p = liveClaim st.claims now p :=
  liveClaim_apply_unchanged (fun h => absurd h hp)

theorem claimPath_of_erased {c : Call} {p : String} (h : concerns p c = false) :
    c.tr.claimPath ≠ some p := by
  intro hp
  rw [concerns] at h
  cases htr : c.tr with
  | claimAcquire sid path ttl reason force =>
    rw [htr] at h hp
    exact of_decide_eq_false h (Option.some.inj hp)
  | claimRelease sid path =>
    rw [htr] at h hp
    exact of_decide_eq_false h (Option.some.inj hp)
  | _ =>
    rw [htr] at hp
    cases hp

/-- Someone who only asks for one path. -/
def pathObserver (p : String) : Observer serve Call.now (concerns p) where
  Alike now st st' := liveClaim st.claims now p = liveClaim st'.claims now p
  later := fun hl h => liveClaim_mono hl h
  kept := by
    intro c st st' hc h
    refine ⟨?_, liveClaim_apply_congr h c.tr⟩
    cases htr : c.tr.claimPath with
    | none =>
      rw [serve, serve]
      cases hc' : c.tr <;> rw [hc'] at htr <;> first | rfl | cases htr
    | some q =>
      obtain rfl : q = p := by
        rw [concerns] at hc
        cases hc' : c.tr <;> rw [hc'] at htr hc <;> cases htr <;> exact of_decide_eq_true hc
      exact claimOutcome_congr htr h
  erased := fun hc h => (liveClaim_apply_other (claimPath_of_erased hc) _).trans h

theorem claimOps_commute (st : BusState) (now : Nat) {tr tr' : Transaction} {p q : String}
    (hp : tr.claimPath = some p) (hq : tr'.claimPath = some q) (hne : p ≠ q) :
    claimOutcome (tr'.apply st now) now tr = claimOutcome st now tr ∧
      claimOutcome (tr.apply st now) now tr' = claimOutcome st now tr' ∧
      ∀ r, liveClaim (tr'.apply (tr.apply st now) now).claims now r =
        liveClaim (tr.apply (tr'.apply st now) now).claims now r := by
  have hother {x : Transaction} {a b : String} (hx : x.claimPath = some a) (hab : a ≠ b)
      (u : BusState) : liveClaim (x.apply u now).claims now b = liveClaim u.claims now b :=
    liveClaim_apply_other (fun he => hab (Option.some.inj (hx.symm.trans he))) u
  refine ⟨claimOutcome_congr hp (hother hq hne.symm st),
    claimOutcome_congr hq (hother hp hne st), fun r => ?_⟩
  by_cases hr : q = r
  · subst hr
    rw [hother hp hne]
    exact liveClaim_apply_congr (hother hp hne st) tr'
  · rw [hother hq hr]
    exact (liveClaim_apply_congr (hother hq hr st) tr).symm

/-- Over any run of lock sections, the operations on a path are answered, and the unexpired claim
on it ends, as if the claim operations on other paths and the listings had not taken place; so
operations on two paths can be swapped. -/
theorem paths_do_not_interfere (st : BusState) (calls : List Call)
    (ho : calls.Pairwise (fun c d => c.now ≤ d.now)) (p : String) :
    (outputs serve st calls).filter (fun x => concerns p x.1) =
        outputs serve st (calls.filter (concerns p)) ∧
      (∀ now, (∀ c ∈ calls, c.now ≤ now) →
        liveClaim (runs serve st calls).claims now p =
          liveClaim (runs serve st (calls.filter (concerns p))).claims now p) ∧
      ∀ now tr tr' q, tr.claimPath = some p → tr'.claimPath = some q → p ≠ q →
        claimOutcome (tr'.apply st now) now tr = claimOutcome st now tr ∧
          claimOutcome (tr.apply st now) now tr' = claimOutcome st now tr' ∧
          ∀ r, liveClaim (tr'.apply (tr.apply st now) now).claims now r =
            liveClaim (tr.apply (tr'.apply st now) now).claims now r := by
  have hsame : (pathObserver p).Alike 0 st st := rfl
  have hpurge := (pathObserver p).purge hsame (fun c _ => Nat.zero_le c.now) ho
  exact ⟨hpurge.1, fun now hnow => hpurge.2 now (Nat.zero_le now) hnow,
    fun now tr tr' q hp hq hne => claimOps_commute st now hp hq hne⟩

def mixedCalls : List Call :=
  [⟨.claimAcquire "s1" "/x" 100 "" false, 1⟩, ⟨.claimAcquire "s2" "/y" 3 "" false, 2⟩,
    ⟨.claimList, 5⟩, ⟨.claimRelease "s1" "/y", 5⟩, ⟨.claimAcquire "s2" "/x" 90 "" false, 6⟩]

theorem paths_do_not_interfere_mixed :
    liveClaim (runs serve (.fromDurable .default) mixedCalls).claims 6 "/x" =
        some ⟨"/x", "s1", 100, 1, ""⟩ ∧
      ((outputs serve (.fromDurable .default) mixedCalls).filter
        (fun x => concerns "/x" x.1)).length = 2 := by
  have h := paths_do_not_interfere (.fromDurable .default) mixedCalls (by decide) "/x"
  rw [h.1, h.2.1 6 (by decide)]
  decide

def calls (cfg : Config) (fromStr : String → Option ClientMessage) (s : Daemon) (a : Action) :
    List Call :=
  ((s.transaction cfg fromStr a).map (fun tr => ⟨tr, a.time⟩)).toList

variable {cfg : Config} {fromStr : String → Option ClientMessage} {s t : Daemon}

theorem run_calls {as : List Action} (hb : ∀ a ∈ as, ∀ now, a ≠ .boot now)
    (h : run (Daemon.step cfg fromStr) s as = some t) :
    t.bus = runs serve s.bus (trace (Daemon.step cfg fromStr) (calls cfg fromStr) s as) ∧
      (trace (Daemon.step cfg fromStr) (calls cfg fromStr) s as).Pairwise
        (fun c d => c.now ≤ d.now) ∧
      ∀ c ∈ trace (Daemon.step cfg fromStr) (calls cfg fromStr) s as, c.now ≤ t.clock := by
  refine run_trace_invariant (I := fun u out => u.bus = runs serve s.bus out ∧
    out.Pairwise (fun c d => c.now ≤ d.now) ∧ ∀ c ∈ out, c.now ≤ u.clock)
    (P := fun _ a => ∀ now, a ≠ .boot now) ?_ (along_of_forall s hb) h
    ⟨rfl, List.Pairwise.nil, nofun⟩
  rintro u a v out ⟨hbus, hord, hle⟩ hb hv
  have hclock := Daemon.step_clock hv
  obtain ⟨now, rfl⟩ | hstep := Daemon.step_bus hv
  · exact absurd rfl (hb now)
  cases htr : u.transaction cfg fromStr a with
  | none =>
    rw [htr] at hstep
    simp only [calls, htr, Option.map_none, Option.toList_none, List.append_nil]
    exact ⟨hstep.trans hbus, hord, fun c hc => (hle c hc).trans hclock⟩
  | some tr =>
    have htime := Daemon.clock_of_transaction hv htr
    rw [htr, htime] at hstep
    simp only [calls, htr, Option.map_some, Option.toList_some]
    refine ⟨?_, ?_, ?_⟩
    · rw [hstep, runs_append, ← hbus]
      rfl
    · refine List.pairwise_append.mpr ⟨hord, List.pairwise_singleton _ _, fun c hc d hd => ?_⟩
      rw [List.mem_singleton.mp hd]
      exact (hle c hc).trans (hclock.trans htime.le)
    · intro c hc
      obtain hc | hc := List.mem_append.mp hc
      · exact (hle c hc).trans hclock
      · rw [List.mem_singleton.mp hc]
        exact htime.ge

/-- The unexpired claim a daemon has on a path is what the calls about that path make of it. -/
theorem daemon_paths_do_not_interfere {as : List Action} (hb : ∀ a ∈ as, ∀ now, a ≠ .boot now)
    (h : run (Daemon.step cfg fromStr) s as = some t) (p : String) :
    liveClaim t.bus.claims t.clock p =
      liveClaim (runs serve s.bus ((trace (Daemon.step cfg fromStr) (calls cfg fromStr) s as).filter
        (concerns p))).claims t.clock p := by
  obtain ⟨hbus, hord, hle⟩ := run_calls hb h
  have hsame : (pathObserver p).Alike 0 s.bus s.bus := rfl
  have hpurge := (pathObserver p).purge hsame (fun c _ => Nat.zero_le c.now) hord
  rw [hbus]
  exact hpurge.2 t.clock (Nat.zero_le _) hle

end Agorabus.Interference
