import Agorabus.ClaimGuard
import Agorabus.ClaimTable
import Agorabus.Library.Duration
import Agorabus.Library.PeriodicLease

namespace Agorabus.Renewal

open StepSystem PeriodicLease

/-- The wall clock in whole seconds; `t` is in nanoseconds. -/
def nowUnixSecs (t : Nat) : Nat := t / nanosPerSec

def renewInterval (ttl : Duration) : Duration :=
  (((ttl.checkedMul 2).bind (·.checkedDiv 3)).getD ttl).max (.ofMillis 10 (by decide))

structure Holding where
  sid : String
  path : String
  ttl : Duration
  start : Nat

namespace Holding

/-- Requests take no time, so the renew task sleeps from one acquire to the next. -/
def acquiredAt (g : Holding) : Nat → Nat
  | 0 => g.start
  | k + 1 => g.acquiredAt k + (renewInterval g.ttl).asNanos

def reason : Nat → String
  | 0 => "claim-guard"
  | _ + 1 => "claim-guard-renew"

def expiry (g : Holding) (k : Nat) : Nat :=
  ClaimGuard.expiry (nowUnixSecs (g.acquiredAt k)) g.ttl.secs

def acquire (g : Holding) (k : Nat) : Transaction :=
  .claimAcquire g.sid g.path (g.expiry k) (reason k) false

/-- What the other connections do: nobody acquires the path for the session of the guard or by
force, and the session does not release it. -/
def spares (g : Holding) : Transaction → Bool
  | .claimAcquire sid path _ _ force => path ≠ g.path || (sid ≠ g.sid && !force)
  | .claimRelease sid path => path ≠ g.path || sid ≠ g.sid
  | _ => true

end Holding

structure Timed where
  bus : BusState
  time : Nat
  acquires : Nat

inductive Event where
  | renew
  | other (time : Nat) (tr : Transaction)

variable (g : Holding)

def held (bus : BusState) : Timed :=
  ⟨(g.acquire 0).apply bus (nowUnixSecs g.start), g.start, 0⟩

def step (s : Timed) : Event → Option Timed
  | .renew =>
      let t := g.acquiredAt (s.acquires + 1)
      some ⟨(g.acquire (s.acquires + 1)).apply s.bus (nowUnixSecs t), t, s.acquires + 1⟩
  | .other t tr =>
      if s.time ≤ t ∧ t < g.acquiredAt (s.acquires + 1) ∧ g.spares tr then
        some ⟨tr.apply s.bus (nowUnixSecs t), t, s.acquires⟩
      else none

/-- At this instant the daemon sees the claim of the guard as active, and refuses the path to every
other session that does not use force. -/
def ActiveAt (bus : BusState) (t : Nat) : Prop :=
  (∃ c, liveClaim bus.claims (nowUnixSecs t) g.path = some c ∧ c.sessionId = g.sid) ∧
    ∀ sid ttl reason, sid ≠ g.sid → ∃ c,
      (bus.claimAcquire sid g.path ttl reason false (nowUnixSecs t)).2 = .conflict c

/-- From `hold` on, the claim of the guard is active at every instant, whatever the other sessions
do meanwhile. -/
def NeverLapses (ttl : Duration) (start : Nat) : Prop :=
  ∀ sid path bus, bus.grants (nowUnixSecs start) sid path false = true →
    let g : Holding := ⟨sid, path, ttl, start⟩
    ∀ es s, run (step g) (held g bus) es = some s →
      ∀ t, s.time ≤ t → t < g.acquiredAt (s.acquires + 1) → ActiveAt g s.bus t

variable {g}

theorem asNanos_renewInterval (ttl : Duration) : (renewInterval ttl).asNanos =
    max (if ttl.asNanos * 2 < 2 ^ 64 * nanosPerSec then ttl.asNanos * 2 / 3 else ttl.asNanos)
      10000000 := by
  have hmul := ttl.asNanos_checkedMul 2
  rw [renewInterval, Duration.asNanos_max, Duration.asNanos_ofMillis]
  congr 1
  cases hm : ttl.checkedMul 2 with
  | none =>
    rw [hm, Option.map_none] at hmul
    split at hmul
    · cases hmul
    · rename_i hfit
      rw [if_neg hfit]
      rfl
  | some d =>
    rw [hm, Option.map_some] at hmul
    split at hmul
    · rename_i hfit
      obtain ⟨e, he, hd⟩ := Option.map_eq_some_iff.mp (d.asNanos_checkedDiv (k := 3) (by decide))
      rw [if_pos hfit, ← Option.some.inj hmul, ← hd, Option.bind_some, he]
      rfl
    · cases hmul

theorem renewInterval_pos (ttl : Duration) : 0 < (renewInterval ttl).asNanos := by
  rw [asNanos_renewInterval]
  omega

theorem acquiredAt_eq (k : Nat) :
    g.acquiredAt k = renewedAt (renewInterval g.ttl).asNanos g.start k := by
  induction k with
  | zero => simp [Holding.acquiredAt, renewedAt]
  | succ k ih => rw [Holding.acquiredAt, ih, renewedAt_succ]

theorem acquiredAt_lt (k : Nat) : g.acquiredAt k < g.acquiredAt (k + 1) :=
  Nat.lt_add_of_pos_right (renewInterval_pos g.ttl)

def Holding.record (g : Holding) (k : Nat) : ClaimRecord :=
  ⟨g.path, g.sid, g.expiry k, nowUnixSecs (g.acquiredAt k), Holding.reason k⟩

theorem activeAt_iff {bus : BusState} {k t : Nat}
    (h : bus.claims.lookup g.path = some (g.record k)) :
    ActiveAt g bus t ↔ nowUnixSecs t < g.expiry k := by
  constructor
  · rintro ⟨⟨c, hc, _⟩, _⟩
    obtain ⟨hl, hlt⟩ := liveClaim_eq_some.mp hc
    obtain rfl : g.record k = c := Option.some.inj (h.symm.trans hl)
    exact hlt
  · intro hlt
    have hl : liveClaim bus.claims (nowUnixSecs t) g.path = some (g.record k) :=
      liveClaim_eq_some.mpr ⟨h, hlt⟩
    refine ⟨⟨_, hl, rfl⟩, fun sid ttl reason hne => ⟨g.record k, ?_⟩⟩
    rw [BusState.claimAcquire_decision, hl]
    simp [Holding.record, Ne.symm hne]

theorem grants_renew {bus : BusState} {k : Nat}
    (h : bus.claims.lookup g.path = some (g.record k)) (now : Nat) :
    bus.grants now g.sid g.path false = true := by
  rw [BusState.grants, liveClaim, h, Option.filter_some]
  split
  · rename_i hn
    split at hn
    · cases hn
    · rfl
  · rename_i c hc
    split at hc
    · cases hc
      simp [Holding.record]
    · cases hc

theorem lookup_acquire {bus : BusState} {k : Nat}
    (h : bus.grants (nowUnixSecs (g.acquiredAt k)) g.sid g.path false = true) :
    ((g.acquire k).apply bus (nowUnixSecs (g.acquiredAt k))).claims.lookup g.path =
      some (g.record k) :=
  BusState.lookup_claimAcquire h

structure Holds (g : Holding) (s : Timed) : Prop where
  record : s.bus.claims.lookup g.path = some (g.record s.acquires)
  past : g.acquiredAt s.acquires ≤ s.time
  due : s.time < g.acquiredAt (s.acquires + 1)

theorem holds_held {bus : BusState}
    (h : bus.grants (nowUnixSecs g.start) g.sid g.path false = true) : Holds g (held g bus) :=
  ⟨lookup_acquire (k := 0) h, Nat.le_refl _, acquiredAt_lt 0⟩

theorem holds_renew {s : Timed} (h : Holds g s) : ∃ s', step g s .renew = some s' ∧
    s'.acquires = s.acquires + 1 ∧ s'.time = g.acquiredAt (s.acquires + 1) ∧ Holds g s' :=
  ⟨_, rfl, rfl, rfl, lookup_acquire (grants_renew h.record _), Nat.le_refl _, acquiredAt_lt _⟩

theorem holds_other {s s' : Timed} {t : Nat} {tr : Transaction} (h : Holds g s)
    (hactive : nowUnixSecs t < g.expiry s.acquires) (hs : step g s (.other t tr) = some s') :
    Holds g s' := by
  simp only [step, Option.ite_none_right_eq_some, Option.some.injEq] at hs
  obtain ⟨⟨htime, hdue, hspares⟩, rfl⟩ := hs
  have hl : liveClaim s.bus.claims (nowUnixSecs t) g.path = some (g.record s.acquires) :=
    liveClaim_eq_some.mpr ⟨h.record, hactive⟩
  suffices hkept : liveClaim (tr.apply s.bus (nowUnixSecs t)).claims (nowUnixSecs t) g.path =
      some (g.record s.acquires) from
    ⟨(liveClaim_eq_some.mp hkept).1, Nat.le_trans h.past htime, hdue⟩
  rw [liveClaim_apply_unchanged (fun hp => ?_), hl]
  cases tr with
  | claimAcquire sid path ttl reason force =>
    obtain rfl : path = g.path := Option.some.inj hp
    simp only [Holding.spares, ne_eq, not_true_eq_false, decide_false, Bool.false_or,
      Bool.and_eq_true, decide_eq_true_eq, Bool.not_eq_true'] at hspares
    rw [changesDurable_claimAcquire, BusState.grants, hl]
    simp [Holding.record, hspares.2, Ne.symm hspares.1]
  | claimRelease sid path =>
    obtain rfl : path = g.path := Option.some.inj hp
    simp only [Holding.spares, ne_eq, not_true_eq_false, decide_false, Bool.false_or,
      decide_eq_true_eq] at hspares
    rw [changesDurable_claimRelease, hl]
    simp [Holding.record, Ne.symm hspares]
  | _ => cases hp

theorem run_renew {s : Timed} (h : Holds g s) (n : Nat) : ∃ s',
    run (step g) s (List.replicate n .renew) = some s' ∧ s'.acquires = s.acquires + n ∧
      Holds g s' ∧ (s.time = g.acquiredAt s.acquires → s'.time = g.acquiredAt s'.acquires) := by
  induction n generalizing s with
  | zero => exact ⟨s, rfl, rfl, h, id⟩
  | succ n ih =>
    obtain ⟨u, hu, hk, htime, hholds⟩ := holds_renew h
    obtain ⟨s', hr, hk', hholds', htime'⟩ := ih hholds
    refine ⟨s', ?_, by omega, hholds', fun _ => htime' (by rw [htime, hk])⟩
    rw [List.replicate_succ]
    exact (run_cons_eq_some _).mpr ⟨u, hu, hr⟩

theorem neverLapses_iff_covers (ttl : Duration) (start : Nat) : NeverLapses ttl start ↔
    Covers nanosPerSec (renewInterval ttl).asNanos start (max ttl.secs 1) := by
  constructor
  · intro h k t ht htk
    let g : Holding := ⟨"", "", ttl, start⟩
    have hg : (⟨∅, ∅, ∅, ∅⟩ : BusState).grants (nowUnixSecs start) "" "" false = true := rfl
    obtain ⟨s, hr, hk, hholds, htime⟩ := run_renew (g := g) (holds_held hg) k
    have hk : s.acquires = k := hk.trans (Nat.zero_add k)
    have hactive := h "" "" _ hg _ s hr t (by
      rw [htime rfl, hk, acquiredAt_eq]
      exact ht) (by
      rw [hk, acquiredAt_eq]
      exact htk)
    have hlt := (activeAt_iff hholds.record).mp hactive
    rw [hk, Holding.expiry, acquiredAt_eq] at hlt
    exact hlt
  · intro h sid path bus hg g es s hr
    have active {s : Timed} (hs : Holds g s) {t : Nat} (ht : s.time ≤ t)
        (hdue : t < g.acquiredAt (s.acquires + 1)) : nowUnixSecs t < g.expiry s.acquires := by
      have hk := h s.acquires t (by
        rw [← acquiredAt_eq (g := g)]
        exact Nat.le_trans hs.past ht) (by
        rw [← acquiredAt_eq (g := g)]
        exact hdue)
      rw [← acquiredAt_eq (g := g)] at hk
      exact hk
    have hholds : Holds g s := by
      refine run_invariant (fun u e v hu he => ?_) hr (holds_held hg)
      cases e with
      | renew =>
        obtain ⟨s', hs', _, _, hv⟩ := holds_renew hu
        exact Option.some.inj (hs'.symm.trans he) ▸ hv
      | other t tr =>
        have he' := he
        simp only [step, Option.ite_none_right_eq_some] at he'
        exact holds_other hu (active hu he'.1.1 he'.1.2.1) he
    exact fun t ht hdue => (activeAt_iff hholds.record).mpr (active hholds ht hdue)

/-- The renewal that comes latest in its second is still in time: the renew interval, two thirds of
the lease and at least 10 ms, ends within the whole seconds of the lease. -/
def RenewedInTime (ttl : Duration) (start : Nat) : Prop :=
  let interval := max (if ttl.asNanos * 2 < 2 ^ 64 * nanosPerSec then ttl.asNanos * 2 / 3
    else ttl.asNanos) 10000000
  let d := Nat.gcd interval nanosPerSec
  interval + start % d + nanosPerSec ≤ max ttl.secs 1 * nanosPerSec + d

instance (ttl : Duration) (start : Nat) : Decidable (RenewedInTime ttl start) :=
  inferInstanceAs (Decidable (_ ≤ _))

/-- With a daemon that is always there and nobody using force, the claim of a guard never lapses
if and only if its lease and the moment of its first acquire are such that it is renewed in
time. -/
theorem lease_never_lapses_iff (ttl : Duration) (start : Nat) :
    NeverLapses ttl start ↔ RenewedInTime ttl start := by
  rw [neverLapses_iff_covers, covers_iff (by decide) (renewInterval_pos ttl),
    asNanos_renewInterval, RenewedInTime]

def twoSeconds : Duration := ⟨2, 0, by decide, by decide⟩

/-- A lease of two seconds that begins late in a second ends before it is renewed, and then another
session gets the path. -/
theorem two_second_lease_lapses : ¬ NeverLapses twoSeconds 1700000000900000000 := by
  intro h
  have ha := h "s1" "/x" ⟨∅, ∅, ∅, ∅⟩ rfl [] _ rfl 1700000002000000000 (by decide) (by decide)
  obtain ⟨c, hc⟩ := ha.2 "s2" 1700000100 "" (by decide)
  have hgranted : ((held ⟨"s1", "/x", twoSeconds, 1700000000900000000⟩
      ⟨∅, ∅, ∅, ∅⟩).bus.claimAcquire "s2" "/x" 1700000100 "" false
        (nowUnixSecs 1700000002000000000)).2 = .granted none := rfl
  cases hgranted.symm.trans hc

end Agorabus.Renewal
