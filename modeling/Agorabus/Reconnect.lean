import Agorabus.Backoff
import Agorabus.InboundLine
import Agorabus.Library.StepSystem
import Mathlib.Data.List.Chain

namespace Agorabus.Reconnect

open Backoff StepSystem

structure ReconnectConfig where
  baseMs : UInt64
  capMs : UInt64
  maxAttempts : UInt64

/-- The arguments of a call. `onEvent` is told which events it has been handed before. -/
structure Subscription where
  sessionId : String
  maxEvents : UInt64
  reconnect : Bool
  cfg : ReconnectConfig
  fromStr : String → Option InboundLine
  onEvent : List ServerEvent → ServerEvent → Bool

/-- How a connection goes: it fails, or it delivers lines for some time and then ends. -/
inductive Outcome where
  | unreachable
  | hardError (e : String)
  | handshakeFailed
  | session (lines : List String) (elapsed : Duration)

/-- One iteration of the loop, with the clock at the backoff that ends it. -/
structure Iteration where
  outcome : Outcome
  clock : Option Duration

/-- The local variables of the loop, the events handed out so far, and what it has returned. -/
structure State where
  attempt : UInt32
  consecutiveFailures : UInt64
  received : UInt64
  handed : List ServerEvent
  result : Option (Except String Unit)

def State.start : State := ⟨0, 0, 0, [], none⟩

structure Sleep where
  attempt : UInt32
  delay : Duration
  line : String

def exhausted (maxAttempts : UInt64) (why : String) : String :=
  "subscribe: exhausted " ++ toString maxAttempts ++ " reconnect attempts" ++ why

def reconnecting (sessionId : String) (failures : UInt64) (delay : Duration) : String :=
  "\x7b\"reconnecting\":true,\"sid\":\"" ++ sessionId ++ "\",\"attempt\":" ++ toString failures ++
    ",\"delay_ms\":" ++ toString (delay.asNanos / 1000000) ++ "\x7d"

def survivedMs (elapsed : Duration) : UInt64 :=
  UInt64.ofNat (min (elapsed.asNanos / 1000000) (2 ^ 64 - 1))

/-- Count a failure; give up, or sleep and go on. -/
def backOff (sub : Subscription) (s : State) (attempt : UInt32) (why : String)
    (clock : Option Duration) : Option (State × Option Sleep) :=
  let failures := Word.saturatingAdd s.consecutiveFailures 1
  if sub.cfg.maxAttempts ≠ 0 ∧ sub.cfg.maxAttempts < failures then
    some ({ s with
      consecutiveFailures := failures
      result := some (.error (exhausted sub.cfg.maxAttempts why)) }, none)
  else do
    let delay ← backoffDelay sub.cfg.baseMs sub.cfg.capMs attempt clock
    return ({ s with consecutiveFailures := failures, attempt := Word.saturatingSucc attempt },
      some ⟨attempt, delay, reconnecting sub.sessionId failures delay⟩)

def hand (sub : Subscription) (s : State) (ev : ServerEvent) : State :=
  let cont := sub.onEvent s.handed ev
  let received := Word.saturatingAdd s.received 1
  { s with
    handed := s.handed ++ [ev]
    received := received
    result := if cont = false ∨ (sub.maxEvents ≠ 0 ∧ sub.maxEvents ≤ received) then some (.ok ())
      else none }

def readLoop (sub : Subscription) (s : State) : List String → State
  | [] => s
  | line :: lines =>
    match sub.fromStr line with
    | none => readLoop sub s lines
    | some (.reply _) => readLoop sub s lines
    | some (.event ev) =>
      if (hand sub s ev).result.isSome then hand sub s ev else readLoop sub (hand sub s ev) lines

def iterate (sub : Subscription) (s : State) (it : Iteration) : Option (State × Option Sleep) :=
  match it.outcome with
  | .unreachable =>
    if sub.reconnect then backOff sub s s.attempt " (daemon unreachable)" it.clock
    else some ({ s with result := some (.ok ()) }, none)
  | .hardError e =>
    -- treated as unreachable
    if sub.reconnect then backOff sub s s.attempt " (daemon unreachable)" it.clock
    else some ({ s with result := some (.error e) }, none)
  | .handshakeFailed =>
    if sub.reconnect then backOff sub s s.attempt " (handshake failed)" it.clock
    else some ({ s with
      result := some (.error "subscribe: announce or subscribe failed") }, none)
  | .session lines elapsed =>
    let t := readLoop sub { s with consecutiveFailures := 0, attempt := 0 } lines
    if t.result.isSome then some (t, none)
    else if sub.reconnect then
      backOff sub t (if sub.cfg.capMs ≤ survivedMs elapsed then 0 else t.attempt)
        " after connection loss" it.clock
    else some ({ t with result := some (.ok ()) }, none)

def step (sub : Subscription) (s : State) (it : Iteration) : Option State :=
  if s.result.isSome then none else (iterate sub s it).map Prod.fst

def sleeps (sub : Subscription) (s : State) (it : Iteration) : List (Iteration × Sleep) :=
  ((iterate sub s it).bind Prod.snd).toList.map (fun sleep => (it, sleep))

def Outcome.isSession : Outcome → Bool
  | .session _ _ => true
  | _ => false

/-- The iteration is a session of at least `capMs`. -/
def Iteration.survives (capMs : UInt64) (it : Iteration) : Bool :=
  match it.outcome with
  | .session _ elapsed => decide (capMs.toNat * 1000000 ≤ elapsed.asNanos)
  | _ => false

/-- The events after which the call returns: the first that `onEvent` refuses, and the last one
that is wanted. -/
def Subscription.Stops (sub : Subscription) (before : List ServerEvent) (ev : ServerEvent) : Prop :=
  sub.onEvent before ev = false ∨
    (sub.maxEvents ≠ 0 ∧ before.length + 1 = sub.maxEvents.toNat)

instance (sub : Subscription) (before : List ServerEvent) (ev : ServerEvent) :
    Decidable (sub.Stops before ev) :=
  inferInstanceAs (Decidable (_ ∨ _))

def Subscription.eventsOf (sub : Subscription) (lines : List String) : List ServerEvent :=
  lines.filterMap (fun line => match sub.fromStr line with
    | some (.event ev) => some ev
    | _ => none)

/-- The events that its daemon delivers in an iteration. -/
def Iteration.delivered (sub : Subscription) (it : Iteration) : List ServerEvent :=
  match it.outcome with
  | .session lines _ => sub.eventsOf lines
  | _ => []

/-- What comes after the events before, up to the first to stop at. -/
def Subscription.upToStop (sub : Subscription) (before : List ServerEvent) :
    List ServerEvent → List ServerEvent
  | [] => before
  | ev :: evs =>
    if sub.Stops before ev then before ++ [ev] else sub.upToStop (before ++ [ev]) evs

structure Counted (sub : Subscription) (s : State) : Prop where
  received : s.received.toNat = min s.handed.length (2 ^ 64 - 1)
  wanted : s.result = none → sub.maxEvents ≠ 0 → s.handed.length < sub.maxEvents.toNat
  stops : ∀ before ev rest, s.handed = before ++ ev :: rest → sub.Stops before ev →
    rest = [] ∧ s.result = some (.ok ())

variable {sub : Subscription} {s t : State} {it : Iteration} {its : List Iteration}

theorem toNat_ne_zero {x : UInt64} : x ≠ 0 ↔ 0 < x.toNat := by
  rw [Ne, ← UInt64.toNat_inj, UInt64.toNat_zero, Nat.pos_iff_ne_zero]

theorem hand_result (hs : Counted sub s) (hr : s.result = none) (ev : ServerEvent) :
    (hand sub s ev).result = if sub.Stops s.handed ev then some (.ok ()) else none := by
  have hmax := sub.maxEvents.toNat_lt
  have hcond : (sub.maxEvents ≠ 0 ∧ sub.maxEvents ≤ Word.saturatingAdd s.received 1) ↔
      (sub.maxEvents ≠ 0 ∧ s.handed.length + 1 = sub.maxEvents.toNat) := by
    refine and_congr_right (fun h0 => ?_)
    have hlt := hs.wanted hr h0
    have := hs.received
    rw [UInt64.le_iff_toNat_le, Word.toNat_saturatingAdd, UInt64.toNat_one]
    omega
  exact if_congr (or_congr_right hcond) rfl rfl

theorem counted_hand (hs : Counted sub s) (hr : s.result = none) (ev : ServerEvent) :
    Counted sub (hand sub s ev) := by
  have hres := hand_result hs hr ev
  refine ⟨?_, fun hnone h0 => ?_, fun before e rest he hstop => ?_⟩
  · have := hs.received
    change (Word.saturatingAdd s.received 1).toNat = min (s.handed ++ [ev]).length _
    rw [Word.toNat_saturatingAdd, UInt64.toNat_one, List.length_append, List.length_singleton]
    omega
  · rw [hres] at hnone
    split at hnone
    · cases hnone
    · rename_i hno
      have hlt := hs.wanted hr h0
      have hne : s.handed.length + 1 ≠ sub.maxEvents.toNat := fun he => hno (Or.inr ⟨h0, he⟩)
      change (s.handed ++ [ev]).length < _
      rw [List.length_append, List.length_singleton]
      omega
  · change s.handed ++ [ev] = before ++ e :: rest at he
    obtain rfl | ⟨rest', x, rfl⟩ := rest.eq_nil_or_concat
    · obtain ⟨rfl, hlast⟩ := List.append_inj' he rfl
      cases hlast
      exact ⟨rfl, by rw [hres, if_pos hstop]⟩
    · rw [List.concat_eq_append, ← List.cons_append, ← List.append_assoc] at he
      obtain ⟨hpre, _⟩ := List.append_inj' he rfl
      have := (hs.stops before e rest' hpre hstop).2
      rw [hr] at this
      cases this

structure Reads (sub : Subscription) (s t : State) : Prop where
  attempt : t.attempt = s.attempt
  consecutiveFailures : t.consecutiveFailures = s.consecutiveFailures
  counted : Counted sub t
  result : t.result = none ∨ t.result = some (.ok ()) ∧
    ∃ before ev, t.handed = before ++ [ev] ∧ sub.Stops before ev

theorem readLoop_reads (hs : Counted sub s) (hr : s.result = none) (lines : List String) :
    Reads sub s (readLoop sub s lines) := by
  induction lines generalizing s with
  | nil => exact ⟨rfl, rfl, hs, Or.inl hr⟩
  | cons line lines ih =>
    rw [readLoop]
    split
    · exact ih hs hr
    · exact ih hs hr
    · rename_i ev _
      have hres := hand_result hs hr ev
      split
      · rename_i hsome
        refine ⟨rfl, rfl, counted_hand hs hr ev, Or.inr ?_⟩
        split at hres
        · rename_i hstop
          exact ⟨hres, s.handed, ev, rfl, hstop⟩
        · rw [hres] at hsome
          cases hsome
      · rename_i hnone
        have hnone : (hand sub s ev).result = none := Option.not_isSome_iff_eq_none.mp hnone
        have h := ih (counted_hand hs hr ev) hnone
        exact ⟨h.attempt, h.consecutiveFailures, h.counted, h.result⟩

theorem readLoop_handed (hs : Counted sub s) (hr : s.result = none) (lines : List String) :
    (readLoop sub s lines).handed = sub.upToStop s.handed (sub.eventsOf lines) ∧
      ((readLoop sub s lines).result = none → ∀ evs,
        sub.upToStop s.handed (sub.eventsOf lines ++ evs) =
          sub.upToStop (readLoop sub s lines).handed evs) := by
  induction lines generalizing s with
  | nil => exact ⟨rfl, fun _ _ => rfl⟩
  | cons line lines ih =>
    rw [readLoop, Subscription.eventsOf, List.filterMap_cons]
    cases sub.fromStr line with
    | none => exact ih hs hr
    | some l =>
      cases l with
      | reply r => exact ih hs hr
      | event ev =>
        have hres := hand_result hs hr ev
        simp only [List.cons_append, Subscription.upToStop]
        by_cases hstop : sub.Stops s.handed ev
        · rw [if_pos hstop] at hres
          simp only [hres, Option.isSome_some, if_true, if_pos hstop]
          exact ⟨rfl, fun h => by cases h⟩
        · rw [if_neg hstop] at hres
          simp only [hres, Option.isSome_none, Bool.false_eq_true, if_false, if_neg hstop]
          exact ih (counted_hand hs hr ev) hres

theorem Counted.of_handed (hs : Counted sub s) (hr : s.result = none) (hh : t.handed = s.handed)
    (hrec : t.received = s.received) : Counted sub t where
  received := by rw [hrec, hh, hs.received]
  wanted := fun _ h0 => by rw [hh]; exact hs.wanted hr h0
  stops := fun before ev rest he hstop => by
    rw [hh] at he
    have := (hs.stops before ev rest he hstop).2
    rw [hr] at this
    cases this

def failuresWith (s : State) (it : Iteration) : UInt64 :=
  Word.saturatingAdd (if it.outcome.isSession then 0 else s.consecutiveFailures) 1

def exponentOf (s : State) (it : Iteration) : UInt32 :=
  if it.outcome.isSession then 0 else s.attempt

inductive Goes (sub : Subscription) (s : State) (it : Iteration) (t : State) :
    Option Sleep → Prop
  | single (hrec : sub.reconnect = false) (hres : t.result.isSome) : Goes sub s it t none
  | stopped (before : List ServerEvent) (ev : ServerEvent) (hsession : it.outcome.isSession = true)
      (hres : t.result = some (.ok ())) (hhanded : t.handed = before ++ [ev])
      (hstop : sub.Stops before ev) : Goes sub s it t none
  | exhausted (why : String) (hrec : sub.reconnect = true) (h0 : sub.cfg.maxAttempts ≠ 0)
      (hlt : sub.cfg.maxAttempts < failuresWith s it)
      (hres : t.result = some (.error (exhausted sub.cfg.maxAttempts why))) : Goes sub s it t none
  | slept (sleep : Sleep) (hrec : sub.reconnect = true)
      (hle : sub.cfg.maxAttempts = 0 ∨ failuresWith s it ≤ sub.cfg.maxAttempts)
      (hres : t.result = none) (hfail : t.consecutiveFailures = failuresWith s it)
      (hattempt : t.attempt = Word.saturatingSucc sleep.attempt)
      (hexp : sleep.attempt = exponentOf s it) : Goes sub s it t (some sleep)

theorem backOff_goes (s : State) (it : Iteration) {u : State} (hu : Counted sub u)
    (hr : u.result = none) (hrec : sub.reconnect = true) (why : String) (clock : Option Duration)
    (hfail : Word.saturatingAdd u.consecutiveFailures 1 = failuresWith s it) :
    ∃ t o, backOff sub u (exponentOf s it) why clock = some (t, o) ∧ Counted sub t ∧
      Goes sub s it t o := by
  rw [backOff, hfail]
  split
  · rename_i h
    exact ⟨_, none, rfl, hu.of_handed hr rfl rfl, .exhausted why hrec h.1 h.2 rfl⟩
  · rename_i h
    obtain ⟨ms, hms, _⟩ :=
      backoffDelay_eq sub.cfg.baseMs sub.cfg.capMs (exponentOf s it) clock
    have hle : sub.cfg.maxAttempts = 0 ∨ failuresWith s it ≤ sub.cfg.maxAttempts := by
      by_cases h0 : sub.cfg.maxAttempts = 0
      · exact Or.inl h0
      · exact Or.inr (UInt64.not_lt.mp (fun hlt => h ⟨h0, hlt⟩))
    rw [hms]
    exact ⟨_, _, rfl, hu.of_handed hr rfl rfl, .slept _ hrec hle hr rfl rfl rfl⟩

theorem iterate_goes (hs : Counted sub s) (hr : s.result = none) (it : Iteration) :
    ∃ t o, iterate sub s it = some (t, o) ∧ Counted sub t ∧ Goes sub s it t o := by
  -- a call that does not reconnect returns
  have once {u : State} (hu : Counted sub u) (hnone : u.result = none)
      (r : Except String Unit) (hrec : sub.reconnect = false) :
      Counted sub { u with result := some r } ∧ Goes sub s it { u with result := some r } none :=
    ⟨hu.of_handed hnone rfl rfl, .single hrec rfl⟩
  have failed (why : String) (hf : it.outcome.isSession = false) (r : Except String Unit) :
      ∃ t o, (if sub.reconnect then backOff sub s s.attempt why it.clock
        else some ({ s with result := some r }, none)) = some (t, o) ∧ Counted sub t ∧
        Goes sub s it t o := by
    cases hrec : sub.reconnect with
    | false => exact ⟨_, none, rfl, once hs hr r hrec⟩
    | true =>
      have h := backOff_goes s it hs hr hrec why it.clock
        (by rw [failuresWith, hf]; rfl)
      rw [exponentOf, hf] at h
      exact h
  obtain ⟨outcome, clock⟩ := it
  cases outcome with
  | unreachable => exact failed _ rfl _
  | hardError e => exact failed _ rfl _
  | handshakeFailed => exact failed _ rfl _
  | session lines elapsed =>
    have hu : Counted sub { s with consecutiveFailures := 0, attempt := 0 } :=
      hs.of_handed hr rfl rfl
    have hread := readLoop_reads hu hr lines
    rw [iterate]
    dsimp only
    obtain hnone | ⟨hok, before, ev, hhanded, hstop⟩ := hread.result
    · rw [hnone]
      cases hrec : sub.reconnect with
      | false => exact ⟨_, none, rfl, once hread.counted hnone _ hrec⟩
      | true =>
        have h := backOff_goes s ⟨.session lines elapsed, clock⟩ hread.counted hnone hrec
          " after connection loss" clock (by rw [hread.consecutiveFailures]; rfl)
        rw [hread.attempt, ite_self]
        exact h
    · rw [hok]
      exact ⟨_, none, rfl, hread.counted, .stopped before ev rfl hok hhanded hstop⟩

theorem backOff_handed {attempt : UInt32} {why : String} {clock : Option Duration}
    {o : Option Sleep} (h : backOff sub s attempt why clock = some (t, o)) :
    t.handed = s.handed := by
  rw [backOff] at h
  split at h
  · cases h
    rfl
  · obtain ⟨delay, _, h⟩ := Option.bind_eq_some_iff.mp h
    cases h
    rfl

theorem iterate_handed (hs : Counted sub s) (hr : s.result = none) {o : Option Sleep}
    (h : iterate sub s it = some (t, o)) :
    t.handed = sub.upToStop s.handed (it.delivered sub) ∧
      (t.result = none → ∀ evs, sub.upToStop s.handed (it.delivered sub ++ evs) =
        sub.upToStop t.handed evs) := by
  have failed {why : String} {r : Except String Unit}
      (h : (if sub.reconnect then backOff sub s s.attempt why it.clock
        else some ({ s with result := some r }, none)) = some (t, o)) :
      t.handed = s.handed ∧ (t.result = none → ∀ evs,
        sub.upToStop s.handed evs = sub.upToStop t.handed evs) := by
    have hsame : t.handed = s.handed := by
      split at h
      · exact backOff_handed h
      · cases h
        rfl
    exact ⟨hsame, fun _ evs => by rw [hsame]⟩
  obtain ⟨outcome, clock⟩ := it
  cases outcome with
  | unreachable => exact failed h
  | hardError e => exact failed h
  | handshakeFailed => exact failed h
  | session lines elapsed =>
    have hu : Counted sub { s with consecutiveFailures := 0, attempt := 0 } :=
      hs.of_handed hr rfl rfl
    obtain ⟨hread, hmore⟩ := readLoop_handed hu hr lines
    rw [iterate] at h
    dsimp only at h
    split at h
    · rename_i hsome
      cases h
      refine ⟨hread, fun hnone => ?_⟩
      rw [hnone] at hsome
      cases hsome
    · rename_i hnone
      have hnone := Option.not_isSome_iff_eq_none.mp hnone
      have hsame : t.handed = (readLoop sub { s with consecutiveFailures := 0, attempt := 0 }
          lines).handed := by
        split at h
        · exact backOff_handed h
        · cases h
          rfl
      rw [hsame]
      exact ⟨hread, fun _ => hmore hnone⟩

theorem step_goes (hs : Counted sub s) (h : step sub s it = some t) :
    s.result = none ∧ Counted sub t ∧ ∃ o, iterate sub s it = some (t, o) ∧ Goes sub s it t o := by
  unfold step at h
  split at h
  · cases h
  · rename_i hr
    have hr : s.result = none := Option.not_isSome_iff_eq_none.mp hr
    obtain ⟨t', o, hit, ht, hgoes⟩ := iterate_goes hs hr it
    rw [hit] at h
    cases h
    exact ⟨hr, ht, o, hit, hgoes⟩

theorem counted_start : Counted sub .start where
  received := rfl
  wanted := fun _ h0 => toNat_ne_zero.mp h0
  stops := fun before ev rest he _ => by
    have hnil : before ++ ev :: rest = [] := he.symm
    simp at hnil

theorem run_counted (hr : run (step sub) .start its = some s) : Counted sub s :=
  run_invariant (fun _ _ _ hs h => (step_goes hs h).2.1) hr counted_start

theorem run_concat : run (step sub) .start (its ++ [it]) = some t ↔
    ∃ s, run (step sub) .start its = some s ∧ step sub s it = some t := by
  simp only [run_append_eq_some, run_cons, run_nil, Option.bind_fun_some]

theorem run_handed (hr : run (step sub) .start its = some s) :
    s.handed = sub.upToStop [] (its.flatMap (·.delivered sub)) ∧
      (s.result = none → ∀ evs, sub.upToStop [] (its.flatMap (·.delivered sub) ++ evs) =
        sub.upToStop s.handed evs) := by
  induction its using List.reverseRecOn generalizing s with
  | nil =>
    cases hr
    exact ⟨rfl, fun _ _ => rfl⟩
  | append_singleton its it ih =>
    obtain ⟨u, hu, h⟩ := run_concat.mp hr
    obtain ⟨hnone, _, o, hit, _⟩ := step_goes (run_counted hu) h
    obtain ⟨hhanded, hmore⟩ := iterate_handed (run_counted hu) hnone hit
    have hearlier := (ih hu).2 hnone
    rw [List.flatMap_append, List.flatMap_singleton]
    refine ⟨by rw [hearlier, hhanded], fun hres evs => ?_⟩
    rw [List.append_assoc, hearlier, hmore hres]

def losses (its : List Iteration) : Nat :=
  its.foldl (fun n it => if it.outcome.isSession then 1 else n + 1) 0

/-- At the end `m` attempts in a row have failed, after a loss: the end of a session, or a first
attempt that has failed. -/
def GivesUp (m : Nat) (its : List Iteration) : Prop :=
  ∃ before loss fails, its = before ++ loss :: fails ∧
    (before = [] ∨ loss.outcome.isSession = true) ∧ fails.length = m ∧
    ∀ it ∈ fails, it.outcome.isSession = false

theorem losses_concat (its : List Iteration) (it : Iteration) :
    losses (its ++ [it]) = if it.outcome.isSession then 1 else losses its + 1 := by
  rw [losses, List.foldl_append]
  rfl

theorem losses_concat_le (its : List Iteration) (it : Iteration) :
    losses (its ++ [it]) ≤ losses its + 1 := by
  rw [losses_concat]
  split <;> omega

theorem losses_loss {before fails : List Iteration} {loss : Iteration}
    (hloss : before = [] ∨ loss.outcome.isSession = true)
    (hf : ∀ it ∈ fails, it.outcome.isSession = false) :
    losses (before ++ loss :: fails) = fails.length + 1 := by
  induction fails using List.reverseRecOn with
  | nil =>
    rw [losses_concat]
    obtain rfl | h := hloss
    · exact ite_self _
    · rw [if_pos h]
      rfl
  | append_singleton fails it ih =>
    have hit : it.outcome.isSession = false := hf it (by simp)
    rw [← List.cons_append, ← List.append_assoc, losses_concat, hit,
      ih (fun j hj => hf j (List.mem_append_left _ hj)), List.length_append]
    rfl

theorem exists_loss (h : its ≠ []) : ∃ before loss fails, its = before ++ loss :: fails ∧
    (before = [] ∨ loss.outcome.isSession = true) ∧
    ∀ it ∈ fails, it.outcome.isSession = false := by
  induction its using List.reverseRecOn with
  | nil => exact absurd rfl h
  | append_singleton its it ih =>
    cases hit : it.outcome.isSession with
    | true => exact ⟨its, it, [], rfl, Or.inr hit, by simp⟩
    | false =>
      by_cases hnil : its = []
      · subst hnil
        exact ⟨[], it, [], rfl, Or.inl rfl, by simp⟩
      · obtain ⟨before, loss, fails, rfl, hloss, hf⟩ := ih hnil
        refine ⟨before, loss, fails ++ [it], by simp, hloss, fun j hj => ?_⟩
        obtain hj | hj := List.mem_append.mp hj
        · exact hf j hj
        · rw [List.mem_singleton.mp hj]
          exact hit

theorem losses_eq_iff {m : Nat} : losses its = m + 1 ↔ GivesUp m its := by
  constructor
  · intro h
    have hne : its ≠ [] := fun h0 => by
      rw [h0] at h
      cases h
    obtain ⟨before, loss, fails, rfl, hloss, hf⟩ := exists_loss hne
    rw [losses_loss hloss hf] at h
    exact ⟨before, loss, fails, rfl, hloss, Nat.succ.inj h, hf⟩
  · rintro ⟨before, loss, fails, rfl, hloss, rfl, hf⟩
    exact losses_loss hloss hf

structure Tallied (sub : Subscription) (its : List Iteration) (s : State) : Prop where
  counter : s.result = none → s.consecutiveFailures.toNat = losses its ∧
    losses its ≤ sub.cfg.maxAttempts.toNat
  error : (∃ e, s.result = some (.error e)) ↔ losses its = sub.cfg.maxAttempts.toNat + 1
  text : ∀ e, s.result = some (.error e) → ∃ why, e = exhausted sub.cfg.maxAttempts why
  ok : s.result = some (.ok ()) → ∃ before ev, s.handed = before ++ [ev] ∧ sub.Stops before ev

theorem tallied_goes (hrec : sub.reconnect = true) (h0 : 0 < sub.cfg.maxAttempts.toNat)
    (hmax : sub.cfg.maxAttempts.toNat < 2 ^ 64 - 1) (hs : Tallied sub its s)
    (hnone : s.result = none) {o : Option Sleep} (hgoes : Goes sub s it t o) :
    Tallied sub (its ++ [it]) t := by
  obtain ⟨hcount, hle⟩ := hs.counter hnone
  -- the counter does not saturate
  have hfail : (failuresWith s it).toNat = losses (its ++ [it]) := by
    rw [failuresWith, Word.toNat_saturatingAdd, losses_concat, UInt64.toNat_one]
    cases it.outcome.isSession with
    | true => rfl
    | false =>
      simp only [Bool.false_eq_true, if_false]
      omega
  cases hgoes with
  | single hno _ =>
    rw [hrec] at hno
    cases hno
  | stopped before ev hsession hres hhanded hstop =>
    have hone : losses (its ++ [it]) = 1 := by rw [losses_concat, if_pos hsession]
    refine ⟨by simp [hres], ?_, by simp [hres], fun _ => ⟨before, ev, hhanded, hstop⟩⟩
    simp only [hres, Option.some.injEq, reduceCtorEq, exists_false, false_iff]
    omega
  | exhausted why _ _ hlt hres =>
    refine ⟨by simp [hres], ?_, fun e he => ⟨why, ?_⟩, by simp [hres]⟩
    · refine iff_of_true ⟨_, hres⟩ ?_
      rw [UInt64.lt_iff_toNat_lt, hfail] at hlt
      have := losses_concat_le its it
      omega
    · rw [hres] at he
      cases he
      rfl
  | slept sleep _ hm hres hf _ _ =>
    have hle : losses (its ++ [it]) ≤ sub.cfg.maxAttempts.toNat := by
      rw [← hfail]
      obtain hm | hm := hm
      · rw [hm] at h0
        cases h0
      · exact UInt64.le_iff_toNat_le.mp hm
    refine ⟨fun _ => ⟨by rw [hf, hfail], hle⟩, ?_, by simp [hres], by simp [hres]⟩
    simp only [hres, reduceCtorEq, exists_false, false_iff]
    omega

theorem run_tallied (hrec : sub.reconnect = true) (h0 : 0 < sub.cfg.maxAttempts.toNat)
    (hmax : sub.cfg.maxAttempts.toNat < 2 ^ 64 - 1)
    (hr : run (step sub) .start its = some s) : Tallied sub its s := by
  induction its using List.reverseRecOn generalizing s with
  | nil =>
    cases hr
    exact ⟨fun _ => ⟨rfl, Nat.zero_le _⟩, by simp [State.start, losses], by simp [State.start],
      by simp [State.start]⟩
  | append_singleton its it ih =>
    obtain ⟨u, hu, h⟩ := run_concat.mp hr
    obtain ⟨hnone, _, o, _, hgoes⟩ := step_goes (run_counted hu) h
    exact tallied_goes hrec h0 hmax (ih hu) hnone hgoes

theorem handed_le (hs : Counted sub s) (h0 : 0 < sub.maxEvents.toNat) :
    s.handed.length ≤ sub.maxEvents.toNat := by
  by_contra hlt
  have hn : sub.maxEvents.toNat - 1 < s.handed.length := by omega
  have hsplit := List.take_append_drop (sub.maxEvents.toNat - 1) s.handed
  rw [List.drop_eq_getElem_cons hn] at hsplit
  have hstop : sub.Stops (s.handed.take (sub.maxEvents.toNat - 1))
      s.handed[sub.maxEvents.toNat - 1] := by
    refine Or.inr ⟨toNat_ne_zero.mpr h0, ?_⟩
    rw [List.length_take]
    omega
  have hnil := (hs.stops _ _ _ hsplit.symm hstop).1
  have := congrArg List.length hnil
  rw [List.length_drop, List.length_nil] at this
  omega

theorem run_once (hrec : sub.reconnect = false) (hr : run (step sub) .start its = some s)
    (hne : its ≠ []) : its.length = 1 ∧ s.result.isSome := by
  obtain ⟨it, its, rfl⟩ := List.exists_cons_of_ne_nil hne
  obtain ⟨u, hu, hr⟩ := (run_cons_eq_some _).mp hr
  obtain ⟨_, _, o, _, hgoes⟩ := step_goes counted_start hu
  have hsome : u.result.isSome := by
    cases hgoes with
    | single _ hres => exact hres
    | stopped _ _ _ hres => rw [hres]; rfl
    | exhausted _ hno => rw [hrec] at hno; cases hno
    | slept _ hno => rw [hrec] at hno; cases hno
  cases its with
  | nil =>
    cases hr
    exact ⟨rfl, hsome⟩
  | cons next its =>
    rw [run_cons, step, if_pos hsome] at hr
    cases hr

/-- The call gives up exactly when as many attempts in a row as allowed have failed after a loss,
and returns without an error exactly with an event to stop at. Up to that one it hands out all that
its connections deliver. -/
theorem reconnect_bounded (sub : Subscription) (its : List Iteration) (s : State)
    (hr : run (step sub) .start its = some s) :
    (sub.reconnect = true → 0 < sub.cfg.maxAttempts.toNat →
      sub.cfg.maxAttempts.toNat < 2 ^ 64 - 1 →
        ((∃ e, s.result = some (.error e)) ↔ GivesUp sub.cfg.maxAttempts.toNat its) ∧
        (∀ e, s.result = some (.error e) → ∃ why, e = exhausted sub.cfg.maxAttempts why) ∧
        (s.result = some (.ok ()) → ∃ before ev, s.handed = before ++ [ev] ∧
          sub.Stops before ev)) ∧
    (0 < sub.maxEvents.toNat → s.handed.length ≤ sub.maxEvents.toNat) ∧
    (∀ before ev rest, s.handed = before ++ ev :: rest → sub.Stops before ev →
      rest = [] ∧ s.result = some (.ok ())) ∧
    s.handed = sub.upToStop [] (its.flatMap (·.delivered sub)) ∧
    (s.result = none → ∀ it, ∃ t, step sub s it = some t) ∧
    (sub.reconnect = false → its ≠ [] → its.length = 1 ∧ s.result.isSome) := by
  have hs := run_counted hr
  refine ⟨fun hrec h0 hmax => ?_, handed_le hs, hs.stops, (run_handed hr).1, fun hnone it => ?_,
    fun hrec hne => run_once hrec hr hne⟩
  · have ht := run_tallied hrec h0 hmax hr
    exact ⟨ht.error.trans losses_eq_iff, ht.text, ht.ok⟩
  · obtain ⟨t, o, hit, _⟩ := iterate_goes hs hnone it
    exact ⟨t, by rw [step, hnone, hit]; rfl⟩

def clockless (outcome : Outcome) : Iteration := ⟨outcome, none⟩

def subscription (maxEvents maxAttempts : UInt64) : Subscription where
  sessionId := "s1"
  maxEvents := maxEvents
  reconnect := true
  cfg := ⟨100, 5000, maxAttempts⟩
  fromStr := fun text => some (.event ⟨text, .null, "s2"⟩)
  onEvent := fun _ _ => true

def shortSession : Iteration := clockless (.session ["a", "b"] (.ofMillis 20 (by decide)))

def mixedIterations : List Iteration :=
  [clockless .unreachable, clockless .handshakeFailed, shortSession,
    clockless (.hardError "refused"), clockless .unreachable]

theorem reconnect_bounded_mixed : ∃ s,
    run (step (subscription 9 2)) .start mixedIterations = some s ∧
    ∃ e, s.result = some (.error e) := by
  obtain ⟨s, hs⟩ := Option.isSome_iff_exists.mp
    (show (run (step (subscription 9 2)) .start mixedIterations).isSome = true by decide +kernel)
  refine ⟨s, hs, ((reconnect_bounded _ _ s hs).1 rfl (by decide) (by decide)).1.mpr ?_⟩
  refine ⟨[clockless .unreachable, clockless .handshakeFailed], shortSession,
    [clockless (.hardError "refused"), clockless .unreachable], rfl, Or.inr rfl, rfl, ?_⟩
  simp [clockless, Outcome.isSession]

/-- From each sleep to the next the exponent grows by one, except that it is zero after a session
that has survived for `capMs`. The first is zero. -/
def Escalates (capMs : UInt64) (ps : List (Iteration × Sleep)) : Prop :=
  (∀ p ∈ ps.head?, p.2.attempt = 0) ∧
    ps.IsChain (fun p q => q.2.attempt.toNat =
      if q.1.survives capMs then 0 else p.2.attempt.toNat + 1)

def sleepsSince (capMs : UInt64) (its : List Iteration) : Nat :=
  its.foldl (fun n it => if it.survives capMs then 1 else n + 1) 0

/-- After the first iteration every session survives for `capMs`, and before the exponent is full
there is one. -/
def Steady (capMs : UInt64) (its : List Iteration) : Prop :=
  ∀ before it after, its = before ++ it :: after → before = [] ∨ it.survives capMs = true ∨
    (it.outcome.isSession = false ∧ sleepsSince capMs before < 2 ^ 32)

theorem isSession_of_survives {capMs : UInt64} (h : it.survives capMs = true) :
    it.outcome.isSession = true := by
  obtain ⟨outcome, clock⟩ := it
  cases outcome with
  | session => rfl
  | unreachable | hardError | handshakeFailed => cases h

theorem sleepsSince_concat (capMs : UInt64) (its : List Iteration) (it : Iteration) :
    sleepsSince capMs (its ++ [it]) =
      if it.survives capMs then 1 else sleepsSince capMs its + 1 := by
  rw [sleepsSince, List.foldl_append]
  rfl

theorem steady_concat {capMs : UInt64} : Steady capMs (its ++ [it]) ↔ Steady capMs its ∧
    (its = [] ∨ it.survives capMs = true ∨
      (it.outcome.isSession = false ∧ sleepsSince capMs its < 2 ^ 32)) := by
  constructor
  · intro h
    refine ⟨fun before j after he => ?_, h its it [] rfl⟩
    exact h before j (after ++ [it]) (by rw [he]; simp)
  · rintro ⟨h, hlast⟩ before j after he
    obtain rfl | ⟨after', x, rfl⟩ := after.eq_nil_or_concat
    · obtain ⟨rfl, hj⟩ := List.append_inj' he rfl
      cases hj
      exact hlast
    · rw [List.concat_eq_append, ← List.cons_append, ← List.append_assoc] at he
      obtain ⟨hpre, _⟩ := List.append_inj' he rfl
      exact h before j after' hpre

theorem trace_sleeps_concat (hu : run (step sub) .start its = some s) (h : step sub s it = some t)
    (ht : t.result = none) : ∃ sleep, sleep.attempt = exponentOf s it ∧
      t.attempt = Word.saturatingSucc sleep.attempt ∧
      trace (step sub) (sleeps sub) .start (its ++ [it]) =
        trace (step sub) (sleeps sub) .start its ++ [(it, sleep)] := by
  obtain ⟨_, _, o, hit, hgoes⟩ := step_goes (run_counted hu) h
  cases hgoes with
  | single _ hres | stopped _ _ _ hres | exhausted _ _ _ _ hres =>
    rw [ht] at hres
    cases hres
  | slept sleep _ _ _ _ hattempt hexp =>
    refine ⟨sleep, hexp, hattempt, ?_⟩
    rw [trace_append, hu, Option.elim_some, trace, h, Option.elim_some, sleeps, hit]
    rfl

structure Exponents (sub : Subscription) (its : List Iteration) (s : State)
    (ps : List (Iteration × Sleep)) : Prop where
  escalates : Escalates sub.cfg.capMs ps ↔ Steady sub.cfg.capMs its
  first : its = [] → s.attempt = 0 ∧ ps = []
  later : its ≠ [] → ∃ p, ps.getLast? = some p ∧ s.attempt = Word.saturatingSucc p.2.attempt ∧
    (Escalates sub.cfg.capMs ps → p.2.attempt.toNat + 1 = sleepsSince sub.cfg.capMs its)

theorem escalates_concat {capMs : UInt64} {ps : List (Iteration × Sleep)} {p q : Iteration × Sleep}
    (hp : ps.getLast? = some p) : Escalates capMs (ps ++ [q]) ↔ Escalates capMs ps ∧
      q.2.attempt.toNat = if q.1.survives capMs then 0 else p.2.attempt.toNat + 1 := by
  have hne : ps ≠ [] := fun h => by
    rw [h] at hp
    cases hp
  rw [Escalates, Escalates, List.isChain_append, List.head?_append_of_ne_nil _ hne, hp]
  simp [and_assoc]

theorem exponents_sleep {ps : List (Iteration × Sleep)} (hi : Exponents sub its s ps)
    {sleep : Sleep} (hexp : sleep.attempt = exponentOf s it)
    (hattempt : t.attempt = Word.saturatingSucc sleep.attempt) :
    Exponents sub (its ++ [it]) t (ps ++ [(it, sleep)]) := by
  -- the new sleep is the last one
  have last (hsince : Escalates sub.cfg.capMs (ps ++ [(it, sleep)]) → sleep.attempt.toNat + 1 =
      sleepsSince sub.cfg.capMs (its ++ [it]))
      (hiff : Escalates sub.cfg.capMs (ps ++ [(it, sleep)]) ↔
        Steady sub.cfg.capMs (its ++ [it])) :
      Exponents sub (its ++ [it]) t (ps ++ [(it, sleep)]) :=
    ⟨hiff, by simp, fun _ => ⟨(it, sleep), List.getLast?_concat, hattempt, hsince⟩⟩
  rw [exponentOf] at hexp
  rw [sleepsSince_concat, steady_concat] at last
  by_cases hnil : its = []
  · obtain ⟨h0, rfl⟩ := hi.first hnil
    subst hnil
    rw [h0, ite_self] at hexp
    refine last (fun _ => ?_) (iff_of_true ?_ ⟨?_, Or.inl rfl⟩)
    · rw [hexp]
      exact (ite_self _).symm
    · exact ⟨by simp [hexp], List.IsChain.singleton _⟩
    · intro before j after he
      simp at he
  · obtain ⟨p, hp, hs, hsince⟩ := hi.later hnil
    have hpmax := p.2.attempt.toNat_lt
    rw [escalates_concat hp, hi.escalates] at last
    simp only [hnil, false_or] at last
    cases hsurvives : it.survives sub.cfg.capMs with
    | true =>
      rw [if_pos (isSession_of_survives hsurvives)] at hexp
      simp only [hsurvives, hexp, if_true] at last
      exact last (fun _ => rfl) (by simp)
    | false =>
      cases hsession : it.outcome.isSession with
      | true =>
        rw [hsession, if_pos rfl] at hexp
        refine last ?_ ?_ <;> simp [hsurvives, hsession, hexp]
      | false =>
        rw [hsession, hs] at hexp
        have hfull : sleep.attempt.toNat = min (p.2.attempt.toNat + 1) (2 ^ 32 - 1) := by
          rw [hexp]
          exact Word.toNat_saturatingSucc _
        simp only [hsurvives, hsession, Bool.false_eq_true, if_false, true_and, false_or] at last
        rw [← hi.escalates] at last
        refine last ?_ (and_congr_right fun he => ?_)
        · rintro ⟨he, heq⟩
          rw [heq, hsince he]
        · rw [← hsince he]
          omega

theorem run_exponents (hr : run (step sub) .start its = some s) (hnone : s.result = none) :
    Exponents sub its s (trace (step sub) (sleeps sub) .start its) := by
  induction its using List.reverseRecOn generalizing s with
  | nil =>
    cases hr
    refine ⟨iff_of_true ⟨by simp [trace], List.IsChain.nil⟩ ?_, fun _ => ⟨rfl, rfl⟩, by simp⟩
    intro before it after he
    simp at he
  | append_singleton its it ih =>
    obtain ⟨u, hu, h⟩ := run_concat.mp hr
    obtain ⟨sleep, hexp, hattempt, htrace⟩ := trace_sleeps_concat hu h hnone
    rw [htrace]
    exact exponents_sleep (ih hu (step_goes (run_counted hu) h).1) hexp hattempt

/-- While the call goes on, its exponent grows with every sleep up to a session that survives if
and only if it is a steady one; and the iteration that it returns with ends without a sleep. -/
theorem escalates_iff_steady (sub : Subscription) (its : List Iteration) (s : State)
    (hr : run (step sub) .start its = some s) (hnone : s.result = none) :
    (Escalates sub.cfg.capMs (trace (step sub) (sleeps sub) .start its) ↔
      Steady sub.cfg.capMs its) ∧
    ∀ it t, step sub s it = some t → t.result ≠ none →
      trace (step sub) (sleeps sub) .start (its ++ [it]) =
        trace (step sub) (sleeps sub) .start its := by
  refine ⟨(run_exponents hr hnone).escalates, fun it t h ht => ?_⟩
  obtain ⟨_, _, o, hit, hgoes⟩ := step_goes (run_counted hr) h
  rw [trace_append, hr, Option.elim_some, trace, h, Option.elim_some, sleeps, hit]
  cases hgoes with
  | single | stopped | exhausted => simp [trace]
  | slept sleep _ _ hres => exact absurd hres ht

def steadyIterations : List Iteration :=
  [clockless .unreachable, clockless .handshakeFailed,
    clockless (.session [] (.ofMillis 5000 (by decide))), clockless .unreachable]

theorem escalates_away : ∃ s,
    run (step (subscription 0 0)) .start steadyIterations = some s ∧
    Escalates 5000 (trace (step (subscription 0 0)) (sleeps (subscription 0 0)) .start
      steadyIterations) := by
  have hrun : (run (step (subscription 0 0)) .start steadyIterations).map
      (fun s => s.result.isNone) = some true := by decide +kernel
  obtain ⟨s, hs, hnone⟩ := Option.map_eq_some_iff.mp hrun
  have hsteady : Steady 5000 ([] ++ [clockless .unreachable] ++ [clockless .handshakeFailed] ++
      [clockless (.session [] (.ofMillis 5000 (by decide)))] ++ [clockless .unreachable]) := by
    simp only [steady_concat]
    refine ⟨⟨⟨⟨?_, Or.inl trivial⟩, ?_⟩, Or.inr (Or.inl (by decide))⟩, ?_⟩
    · intro before it after he
      simp at he
    · exact Or.inr (Or.inr ⟨rfl, by decide⟩)
    · exact Or.inr (Or.inr ⟨rfl, by decide⟩)
  exact ⟨s, hs, (escalates_iff_steady _ _ s hs (Option.isNone_iff_eq_none.mp hnone)).1.mpr hsteady⟩

/-- Two sessions that end at once leave the exponent where it was. -/
theorem flapping_not_escalates : ¬ ∀ (sub : Subscription) (its : List Iteration) (s : State),
    sub.reconnect = true → run (step sub) .start its = some s →
    Escalates sub.cfg.capMs (trace (step sub) (sleeps sub) .start its) := by
  intro h
  have hrun : (run (step (subscription 0 0)) .start [shortSession, shortSession]).map
      (fun s => s.result.isNone) = some true := by decide +kernel
  obtain ⟨s, hs, hnone⟩ := Option.map_eq_some_iff.mp hrun
  have hsteady := (run_exponents hs (Option.isNone_iff_eq_none.mp hnone)).escalates.mp
    (h (subscription 0 0) _ s rfl hs)
  obtain hnil | hsurvives | ⟨hsession, _⟩ := hsteady [shortSession] shortSession [] rfl
  · cases hnil
  · exact absurd hsurvives (by decide)
  · cases hsession

end Agorabus.Reconnect
