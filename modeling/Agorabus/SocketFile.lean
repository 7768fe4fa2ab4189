import Agorabus.Library.StepSystem

namespace Agorabus.SocketFile

open StepSystem

/-- What is at the socket path: a file left behind by a process that is gone from the model, or the
one an instance has bound. -/
inductive File where
  | stale
  | boundBy (i : Nat)
  deriving DecidableEq

inductive Phase where
  | starting
  | removing
  | binding
  | settingMode
  | serving
  | stopping
  | draining
  | exited
  deriving DecidableEq

structure Instance where
  phase : Phase
  terminated : Bool
  deriving DecidableEq

structure World where
  path : Option File
  instances : List Instance

/-- `launch` starts an instance at any time: `run_reload` waits for the old process only up to its
timeout, and then launches the new one anyway. -/
inductive Action where
  | launch
  | sigterm (i : Nat)
  | metadata (i : Nat)
  | removeStale (i : Nat)
  | bind (i : Nat)
  | setMode (i : Nat)
  | shutdown (i : Nat)
  | removeFile (i : Nat)
  | exit (i : Nat)
  | crash (i : Nat)

namespace Phase

def holdsSocket : Phase → Bool
  | .settingMode | .serving | .stopping => true
  | _ => false

def isUp : Phase → Bool
  | .settingMode | .serving => true
  | _ => false

def isStarting : Phase → Bool
  | .starting | .removing | .binding => true
  | _ => false

end Phase

namespace World

def start (leftover : Bool) : World := ⟨if leftover then some .stale else none, []⟩

def phase (w : World) (i : Nat) : Option Phase := w.instances[i]?.map Instance.phase

def enter (w : World) (i : Nat) (p : Phase) : World :=
  { w with instances := w.instances.modify i (fun x => { x with phase := p }) }

def launched (w : World) : World := { w with instances := w.instances ++ [⟨.starting, false⟩] }

def signalled (w : World) (i : Nat) : World :=
  { w with instances := w.instances.modify i (fun x => { x with terminated := true }) }

def advance (w : World) (i : Nat) (here : Phase) (next : World) : Option World :=
  if w.phase i = some here then some next else none

def step (w : World) : Action → Option World
  | .launch => some w.launched
  | .sigterm i => some (w.signalled i)
  | .metadata i =>
      w.advance i .starting (w.enter i (if w.path.isSome then .removing else .binding))
  | .removeStale i => w.advance i .removing { w.enter i .binding with path := none }
  -- a path that exists cannot be bound, and the error ends the process
  | .bind i => w.advance i .binding
      (if w.path.isSome then w.enter i .exited
        else { w.enter i .settingMode with path := some (.boundBy i) })
  | .setMode i =>
      w.advance i .settingMode (w.enter i (if w.path.isSome then .serving else .exited))
  | .shutdown i =>
      if w.instances[i]?.any (·.terminated) then w.advance i .serving (w.enter i .stopping)
      else none
  | .removeFile i => w.advance i .stopping { w.enter i .draining with path := none }
  | .exit i => w.advance i .draining (w.enter i .exited)
  | .crash i => some (w.enter i .exited)

end World

open World

def World.pathInUse (w : World) : Bool :=
  match w.path with
  | some (.boundBy j) => (w.phase j).any Phase.holdsSocket
  | _ => false

def Action.removesStale : Action → Bool
  | .removeStale _ => true
  | _ => false

/-- The removal at startup finds no file that is in use. -/
def RemovesOnlyStale (w : World) (a : Action) : Prop :=
  a.removesStale = true → w.pathInUse = false

instance (w : World) (a : Action) : Decidable (RemovesOnlyStale w a) :=
  inferInstanceAs (Decidable (a.removesStale = true → w.pathInUse = false))

/-- The removal at shutdown finds no file bound by another instance. -/
def RemovesOwn (w : World) (a : Action) : Prop :=
  ∀ i j, a = .removeFile i → w.phase i = some .stopping → w.path = some (.boundBy j) → j = i

def LeadsToSole (w : World) : Prop :=
  ∀ i p, w.phase i = some p → p.isUp = true →
    (∀ j q, j ≠ i → w.phase j = some q → q.isUp = false ∧ q.isStarting = false) →
    w.path = some (.boundBy i)

/-- Every instance that has bound the path and not removed it finds its file there. -/
def Exclusive (w : World) : Prop :=
  ∀ i p, w.phase i = some p → p.holdsSocket = true → w.path = some (.boundBy i)

variable {w v : World} {a : Action}

theorem phase_enter (i j : Nat) (p : Phase) :
    (w.enter i p).phase j = if j = i then (w.phase j).map (fun _ => p) else w.phase j := by
  simp only [phase, enter, List.getElem?_modify]
  cases w.instances[j]? with
  | none => simp
  | some x =>
    by_cases hj : j = i
    · simp [hj]
    · simp [hj, Ne.symm hj]

theorem phase_launched {j : Nat} {p : Phase} (h : w.launched.phase j = some p) :
    w.phase j = some p ∨ p = .starting := by
  simp only [phase, launched] at h
  by_cases hj : j < w.instances.length
  · rw [List.getElem?_append_left hj] at h
    exact Or.inl h
  · rw [List.getElem?_append_right (Nat.le_of_not_lt hj)] at h
    cases hn : j - w.instances.length with
    | zero =>
      rw [hn] at h
      exact Or.inr (Option.some.inj h).symm
    | succ n =>
      rw [hn] at h
      cases h

theorem phase_signalled (i j : Nat) : (w.signalled i).phase j = w.phase j := by
  simp only [phase, signalled, List.getElem?_modify]
  cases w.instances[j]? with
  | none => rfl
  | some x => by_cases hi : i = j <;> simp [hi]

theorem advance_eq_some {i : Nat} {p : Phase} {u : World} :
    w.advance i p u = some v ↔ w.phase i = some p ∧ u = v := by
  simp [advance]

theorem exclusive_enter (hw : Exclusive w) (i : Nat) {p : Phase} (hp : p.holdsSocket = true →
    w.path = some (.boundBy i)) : Exclusive (w.enter i p) := by
  intro j q hq hh
  rw [phase_enter] at hq
  split at hq
  · rename_i hj
    subst hj
    obtain ⟨_, _, rfl⟩ := Option.map_eq_some_iff.mp hq
    exact hp hh
  · exact hw j q hq hh

theorem exclusive_clear (i : Nat) {p : Phase} (hp : p.holdsSocket = false)
    (hfree : ∀ j q, j ≠ i → w.phase j = some q → q.holdsSocket = false) :
    Exclusive { w.enter i p with path := none } := by
  intro j q hq hh
  have hq' : (w.enter i p).phase j = some q := hq
  rw [phase_enter] at hq'
  split at hq'
  · obtain ⟨_, _, rfl⟩ := Option.map_eq_some_iff.mp hq'
    rw [hp] at hh
    cases hh
  · rename_i hj
    rw [hfree j q hj hq'] at hh
    cases hh

theorem Exclusive.others (hw : Exclusive w) {i j : Nat} (hi : w.path = some (.boundBy i))
    (hj : j ≠ i) {q : Phase} (hq : w.phase j = some q) : q.holdsSocket = false := by
  refine Bool.eq_false_iff.mpr (fun hh => hj ?_)
  have he := (hw j q hq hh).symm.trans hi
  cases he
  rfl

theorem exclusive_step (hw : Exclusive w) (ha : RemovesOnlyStale w a)
    (h : step w a = some v) : Exclusive v := by
  cases a with
  | launch =>
    cases h
    intro j q hq hh
    obtain hq | rfl := phase_launched hq
    · exact hw j q hq hh
    · cases hh
  | sigterm i =>
    cases h
    intro j q hq hh
    rw [phase_signalled] at hq
    exact hw j q hq hh
  | metadata i =>
    obtain ⟨_, rfl⟩ := advance_eq_some.mp h
    refine exclusive_enter hw i (fun hh => ?_)
    split at hh <;> cases hh
  | removeStale i =>
    obtain ⟨hi, rfl⟩ := advance_eq_some.mp h
    refine exclusive_clear i rfl (fun j q _ hq => Bool.eq_false_iff.mpr (fun hh => ?_))
    have hfree := ha rfl
    simp [pathInUse, hw j q hq hh, hq, hh] at hfree
  | bind i =>
    obtain ⟨hi, rfl⟩ := advance_eq_some.mp h
    split
    · exact exclusive_enter hw i nofun
    · rename_i hnone
      intro j q hq hh
      have hq' : (w.enter i .settingMode).phase j = some q := hq
      rw [phase_enter] at hq'
      split at hq'
      · rename_i hj
        rw [hj]
      · -- the path was free, so nobody else holds it
        rw [hw j q hq' hh] at hnone
        exact absurd rfl hnone
  | setMode i =>
    obtain ⟨hi, rfl⟩ := advance_eq_some.mp h
    exact exclusive_enter hw i (fun _ => hw i _ hi rfl)
  | shutdown i =>
    simp only [step, Option.ite_none_right_eq_some] at h
    obtain ⟨hi, rfl⟩ := advance_eq_some.mp h.2
    exact exclusive_enter hw i (fun _ => hw i _ hi rfl)
  | removeFile i =>
    obtain ⟨hi, rfl⟩ := advance_eq_some.mp h
    exact exclusive_clear i rfl (fun j q hj hq => hw.others (hw i _ hi rfl) hj hq)
  | exit i =>
    obtain ⟨_, rfl⟩ := advance_eq_some.mp h
    exact exclusive_enter hw i nofun
  | crash i =>
    cases h
    exact exclusive_enter hw i nofun

theorem Exclusive.leadsToSole (hw : Exclusive w) : LeadsToSole w := by
  intro i p hp hup _
  refine hw i p hp ?_
  cases p with
  | settingMode | serving => rfl
  | _ => cases hup

theorem Exclusive.removesOwn (hw : Exclusive w) : RemovesOwn w a := by
  intro i j _ hi hj
  have he := hj.symm.trans (hw i _ hi rfl)
  cases he
  rfl

/-- Instances that overlap remove no socket but their own, and the path leads to the only one that
is up, in every run in which a start removes no file but a stale one. -/
theorem removes_own_of_removes_only_stale (leftover : Bool) (as : List Action)
    (hstale : Along step RemovesOnlyStale (World.start leftover) as) :
    Along step RemovesOwn (World.start leftover) as ∧
      Always step LeadsToSole (World.start leftover) as := by
  have hstart : Exclusive (World.start leftover) := nofun
  have hinv : ∀ w a v, Exclusive w → RemovesOnlyStale w a → step w a = some v → Exclusive v :=
    fun _ _ _ hw ha h => exclusive_step hw ha h
  exact ⟨Along.of_invariant hinv (fun _ _ hw _ => hw.removesOwn) hstart hstale,
    always_of_along hinv (fun _ hw => hw.leadsToSole) hstart hstale⟩

def bounceActions : List Action :=
  [.launch, .metadata 0, .removeStale 0, .bind 0, .setMode 0, .sigterm 0, .shutdown 0,
    .removeFile 0, .launch, .metadata 1, .bind 1, .setMode 1]

theorem removes_own_bounce :
    ∃ w, run step (World.start true) bounceActions = some w ∧ LeadsToSole w := by
  have hrun : (run step (World.start true) bounceActions).isSome = true := by decide
  obtain ⟨w, hw⟩ := Option.isSome_iff_exists.mp hrun
  have hr := removes_own_of_removes_only_stale true bounceActions (by decide)
  exact ⟨w, hw, hr.2 _ w (List.prefix_refl _) hw⟩

/-- The new instance of a reload that does not wait any longer takes the socket of the old one,
which then removes the socket of the new one. -/
theorem slow_shutdown_removes_new_socket :
    ¬ ∀ (leftover : Bool) (as : List Action),
      Along step RemovesOwn (World.start leftover) as ∧
        Always step LeadsToSole (World.start leftover) as := by
  intro h
  let up (i : Nat) : List Action := [.bind i, .setMode i]
  let as : List Action := [.launch, .metadata 0] ++ up 0 ++ [.sigterm 0, .shutdown 0, .launch,
    .metadata 1, .removeStale 1] ++ up 1 ++ [.removeFile 0]
  have hr : (run step (World.start false) as).map (fun w => (w.path, w.phase 0, w.phase 1,
      w.instances.length)) = some (none, some .draining, some .serving, 2) := by decide
  obtain ⟨w, hw, hr⟩ := Option.map_eq_some_iff.mp hr
  simp only [Prod.mk.injEq] at hr
  obtain ⟨hpath, h0, h1, hlen⟩ := hr
  have hsole := (h false as).2 as w (List.prefix_refl _) hw 1 .serving h1 rfl ?_
  · rw [hpath] at hsole
    cases hsole
  · intro j q hj hq
    have hlt : j < 2 := by
      rw [← hlen]
      by_contra hge
      rw [phase, List.getElem?_eq_none (Nat.le_of_not_lt hge)] at hq
      cases hq
    obtain rfl : j = 0 := by omega
    cases Option.some.inj (h0.symm.trans hq)
    exact ⟨rfl, rfl⟩

end Agorabus.SocketFile
