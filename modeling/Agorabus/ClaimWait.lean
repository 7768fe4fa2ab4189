import Agorabus.ClaimEvents
import Agorabus.Lease
import Agorabus.Listener

namespace Agorabus

open Daemon StepSystem ClaimEvents Lease
open Subscriber (events events_append)

/-- A release of the path, as the waiting acquire looks for it. -/
def ServerEvent.releases (path : String) (e : ServerEvent) : Bool :=
  e.topic = "claim.release" && (e.data.get? "path").bind Json.asStr? = some path

def Reply.markTimedOut (r : Reply) : Reply :=
  { r with data := r.data.map (·.insert "timed_out" (.bool true)) }

def u64Max : Nat := 2 ^ 64 - 1

def saturatingAdd (a b : Nat) : Nat := min (a + b) u64Max

/-- The arguments of `claim acquire`, with the path as it is canonicalized, and its process. -/
structure AcquireCommand where
  sessionId : String
  path : String
  ttl : Nat
  reason : String
  force : Bool
  wait : Nat
  pid : Nat
  cwd : String

/-- What the wait loop works with: the two clients, the deadline and the last reply. -/
structure Wait where
  client : Nat
  sub : Nat
  deadline : Nat
  reply : Reply

inductive Exit where
  | noBus
  | failed
  | printed (r : Reply)
  | timedOut (r : Reply)

inductive AcquirePc where
  | start
  | connected (i : Nat)
  | announcing (i : Nat)
  | announced (i : Nat)
  | acquiring (i : Nat)
  | refused (i deadline : Nat) (r : Reply)
  | subConnected (x : Wait)
  | subAnnouncing (x : Wait)
  | subAnnounced (x : Wait)
  | subscribing (x : Wait)
  | looping (x : Wait)
  | waiting (x : Wait)
  | matched (x : Wait)
  | retrying (x : Wait)
  | ended (e : Exit)

/-- Every step of the command goes up to the next point where it awaits. -/
inductive AcquireAction where
  | connect
  | sendAnnounce
  | announceReply
  | sendAcquire
  | acquireReply
  | connectSub
  | sendSubAnnounce
  | subAnnounceReply
  | sendSubscribe
  | subscribeReply
  | checkDeadline
  | nextEvent
  | timeout
  | sendRetry
  | retryReply

namespace AcquireCommand

def acquire (v : AcquireCommand) (now : Nat) : ClientMessage :=
  .claimAcquire v.path (saturatingAdd now v.ttl) v.reason v.force

def announce (v : AcquireCommand) : ClientMessage :=
  .announce v.sessionId v.pid v.cwd "claim-client" none

def subAnnounce (v : AcquireCommand) : ClientMessage :=
  .announce (v.sessionId ++ "-wait") v.pid v.cwd "claim-wait" none

def done (pc : AcquirePc) (r : Option Reply) : AcquirePc :=
  if r.isSome then pc else .ended .failed

def afterAcquire (v : AcquireCommand) (now i : Nat) : Option Reply → AcquirePc
  | some r =>
      if r.ok = false ∧ r.error = some "claim_conflict" ∧ 0 < v.wait then
        .refused i (now + v.wait) r
      else .ended (.printed r)
  | none => .ended .failed

def afterRetry (x : Wait) : Option Reply → AcquirePc
  | some r =>
      if r.ok = true ∨ r.error ≠ some "claim_conflict" then .ended (.printed r)
      else .looping { x with reply := r }
  | none => .ended .failed

/-- `next_event` skips replies, and a line that is neither one nor an event ends the wait. -/
def afterLine (v : AcquireCommand) (x : Wait) : OutLine → AcquirePc
  | .reply _ => .waiting x
  | .event e => if e.releases v.path then .matched x else .looping x
  | .notice _ => .ended (.printed x.reply)

/-- A step of the command, with what it does to one of its clients. The daemon's clock is its own
as well. -/
def step (n : Net) (v : AcquireCommand) :
    AcquireAction → AcquirePc → Option (Option NetAction × AcquirePc)
  | .connect, .start =>
      some (if n.daemon.main.isServing then (some .connect, .connected n.clients.length)
        else (none, .ended .noBus))
  | .sendAnnounce, .connected i =>
      some (n.sending i v.announce (.announcing i) (.ended .failed))
  | .announceReply, .announcing i => n.reading i (done (.announced i))
  | .sendAcquire, .announced i =>
      some (n.sending i (v.acquire n.daemon.clock) (.acquiring i) (.ended .failed))
  | .acquireReply, .acquiring i => n.reading i (v.afterAcquire n.daemon.clock i)
  | .connectSub, .refused i deadline r =>
      some (if n.daemon.main.isServing then
          (some .connect, .subConnected ⟨i, n.clients.length, deadline, r⟩)
        else (none, .ended .failed))
  | .sendSubAnnounce, .subConnected x =>
      some (n.sending x.sub v.subAnnounce (.subAnnouncing x) (.ended .failed))
  | .subAnnounceReply, .subAnnouncing x => n.reading x.sub (done (.subAnnounced x))
  | .sendSubscribe, .subAnnounced x =>
      some (n.sending x.sub (.subscribe "claim.release") (.subscribing x) (.ended .failed))
  | .subscribeReply, .subscribing x => n.reading x.sub (done (.looping x))
  | .checkDeadline, .looping x =>
      some (none, if x.deadline ≤ n.daemon.clock then .ended (.timedOut x.reply.markTimedOut)
        else .waiting x)
  | .nextEvent, .waiting x => do
      let l ← n.clients[x.sub]?
      match l.incoming with
      | line :: _ => some (some (.read x.sub), v.afterLine x line)
      | [] => if l.alive n.daemon then none else some (none, .ended (.printed x.reply))
  | .timeout, .waiting x => do
      let l ← n.clients[x.sub]?
      if l.incoming = [] ∧ l.alive n.daemon ∧ x.deadline ≤ n.daemon.clock then
        some (none, .ended (.timedOut x.reply.markTimedOut))
      else none
  | .sendRetry, .matched x =>
      some (n.sending x.client (v.acquire n.daemon.clock) (.retrying x) (.ended .failed))
  | .retryReply, .retrying x => n.reading x.client (afterRetry x)
  | _, _ => none

end AcquireCommand

structure Waiter where
  net : Net
  pc : AcquirePc

inductive WaiterAction where
  | net (a : NetAction)
  | acquire (a : AcquireAction)

def WaiterAction.daemon? : WaiterAction → Option Action
  | .net a => a.daemon?
  | .acquire _ => none

def WaiterAction.takes : WaiterAction → Option Nat
  | .net (.serve (.line c _ _)) => some c
  | _ => none

namespace AcquirePc

def clients : AcquirePc → List Nat
  | .connected i | .announcing i | .announced i | .acquiring i | .refused i _ _ => [i]
  | .subConnected x | .subAnnouncing x | .subAnnounced x | .subscribing x | .looping x
  | .waiting x | .matched x | .retrying x => [x.client, x.sub]
  | .start | .ended _ => []

def main : AcquirePc → Option (Nat × Phase)
  | .connected i => some (i, .silent)
  | .announcing i | .acquiring i => some (i, .asked)
  | .announced i | .refused i _ _ => some (i, .idle)
  | .subConnected x | .subAnnouncing x | .subAnnounced x | .subscribing x | .looping x
  | .waiting x | .matched x => some (x.client, .idle)
  | .retrying x => some (x.client, .asked)
  | .start | .ended _ => none

def sub : AcquirePc → Option (Nat × Phase)
  | .subConnected x => some (x.sub, .silent)
  | .subAnnouncing x | .subscribing x => some (x.sub, .asked)
  | .subAnnounced x | .looping x | .waiting x | .matched x | .retrying x => some (x.sub, .idle)
  | _ => none

def listens : AcquirePc → Option Wait
  | .subscribing x | .looping x | .waiting x | .matched x | .retrying x => some x
  | _ => none

def timedOut : AcquirePc → Bool
  | .ended (.timedOut _) => true
  | _ => false

end AcquirePc

namespace Waiter

def start (file : DurableState) (log : List BroadcastMsg) (now : Nat) : Waiter :=
  ⟨.start file log now, .start⟩

def acts (v : AcquireCommand) (w : Waiter) : WaiterAction → Option (Option NetAction × AcquirePc)
  | .net a => if a.client.any (· ∈ w.pc.clients) then none else some (some a, w.pc)
  | .acquire a => v.step w.net a w.pc

def step (cfg : Config) (fromStr : String → Option ClientMessage) (v : AcquireCommand) (w : Waiter)
    (a : WaiterAction) : Option Waiter := do
  let (b, pc) ← w.acts v a
  let n ← b.elim (some w.net) (w.net.step cfg fromStr)
  some ⟨n, pc⟩

end Waiter

namespace ClaimWait

variable {cfg : Config} {fromStr : String → Option ClientMessage} {s t : Daemon} {b : Action}
  {sid path : String}

def isRelease (path : String) : ClaimEvent → Bool
  | .release p _ => p = path
  | .acquire .. => false

/-- A task is about to broadcast the release of the path. -/
def Announcing (s : Daemon) (path : String) : Prop :=
  ∃ k ∈ s.conns, k.status = .running ∧ (pendingEvents k.pending).any (isRelease path) = true

instance (s : Daemon) (path : String) : Decidable (Announcing s path) :=
  inferInstanceAs (Decidable (∃ _ ∈ _, _))

instance (bus : BusState) (now : Nat) (sid path : String) :
    Decidable (HeldByOther bus now sid path) :=
  decidable_of_iff _ heldByOther_iff.symm

theorem releases_of_ofMsg {m : BroadcastMsg} {e : ClaimEvent} (h : ClaimEvent.ofMsg m = some e)
    (he : isRelease path e = true) : m.toEvent.releases path = true := by
  simp only [ClaimEvent.ofMsg, Option.bind_eq_bind, Option.bind_eq_some_iff] at h
  obtain ⟨v, hv, p, hp, w, hw, sid, hsid, h⟩ := h
  split at h
  · simp only [Option.bind_eq_some_iff] at h
    obtain ⟨_, _, _, _, h⟩ := h
    cases h
    cases he
  · split at h
    · rename_i htopic
      cases h
      obtain rfl : p = path := by simpa [isRelease] using he
      simp [ServerEvent.releases, BroadcastMsg.toEvent, htopic, hv, hp]
    · cases h

theorem releases_claimReleaseMsg (path sid source : String) :
    (claimReleaseMsg path sid source).toEvent.releases path = true :=
  releases_of_ofMsg (ofMsg_claimReleaseMsg path sid source) (by simp [isRelease])

theorem announcing_step (ho : Orderly s) (h : s.step cfg fromStr b = some t)
    (hb : ∀ now, b ≠ .boot now) (ha : Announcing s path) :
    Announcing t path ∨ ∃ m ∈ s.sends cfg fromStr b, m.toEvent.releases path = true := by
  obtain ⟨k, hmem, hrun, hany⟩ := ha
  obtain ⟨c, hk⟩ := List.mem_iff_getElem?.mp hmem
  obtain ⟨k', hk', hst⟩ := step_conn h hb hk
  have hne : k.pending ≠ [] := by
    intro he
    rw [he] at hany
    cases hany
  have hidle : k.idle ≠ true := fun hi => hne (Conn.idle_iff.mp hi).2
  have stays (hr : k'.status = .running) (hp : pendingEvents k'.pending = pendingEvents k.pending) :
      Announcing t path := ⟨k', List.mem_of_getElem? hk', hr, by rw [hp]; exact hany⟩
  cases hst with
  | other hc => exact Or.inl (stays hrun rfl)
  | line hi | hangup hi | lag hi | event hi | drain hi => exact absurd hi hidle
  | abort hr hw =>
    -- a task does not wait between the claim and its event
    exfalso
    obtain hp | ⟨m, fs, hp, _⟩ | ⟨m, fs, hp, _⟩ := ho.2 c k hk
    · rw [hp] at hany
      cases hany
    · rw [Conn.atAwait, hp] at hw
      cases hw
    · rw [Conn.atAwait, hp] at hw
      cases hw
  | @proceed e es now ok hp hr =>
    obtain hpe | ⟨m, fs, he, hfs⟩ | ⟨m, fs, he, hfs⟩ := ho.2 c k hk
    · rw [hpe] at hany
      cases hany
    · obtain ⟨rfl, rfl⟩ := List.cons.inj (hp.symm.trans he)
      refine Or.inr ⟨m, by simp [sends, hk, hp], ?_⟩
      have hcons : pendingEvents (.broadcast m :: es) = (ClaimEvent.ofMsg m).toList := by
        cases hof : ClaimEvent.ofMsg m with
        | none => simpa [pendingEvents, hof] using hfs
        | some e => simpa [pendingEvents, hof] using hfs
      rw [hp, hcons] at hany
      cases hof : ClaimEvent.ofMsg m with
      | none =>
        rw [hof] at hany
        cases hany
      | some e =>
        rw [hof] at hany
        exact releases_of_ofMsg hof (by simpa using hany)
    · obtain ⟨rfl, rfl⟩ := List.cons.inj (hp.symm.trans he)
      exact Or.inl (stays hrun (by rw [hp]; rfl))

theorem evicted_told (hk : Keyed s.bus.claims) {now ttl : Nat} {reason : String} {force : Bool}
    {r : ClaimRecord}
    (htr : s.transaction cfg fromStr b = some (.claimAcquire sid path ttl reason force))
    (hnow : now = b.time) (hlive : liveClaim s.bus.claims now path = some r)
    (hne : r.sessionId ≠ sid) (hforce : force = true) :
    claimReleaseMsg path r.sessionId sid ∈ s.sends cfg fromStr b := by
  cases transaction_section htr with
  | @message c time text k sid' msg _ hk₀ hs ht hm hmt =>
    obtain ⟨rfl, rfl⟩ := ClientMessage.transaction_claimAcquire hmt
    obtain rfl : now = time := hnow
    have hdec : (s.bus.claimAcquire sid path ttl reason force now).2 = .granted (some r) := by
      simp [BusState.claimAcquire, lookup_prune, hlive, hne, hforce]
    have hpath : r.path = path := hk path r (liveClaim_eq_some.mp hlive).1
    simp [sends, hk₀, handleLine, ht, hm, hs, handleMessage_claimAcquire, hdec, hpath]

theorem released_pending {now : Nat} (h : s.step cfg fromStr b = some t)
    (htr : s.transaction cfg fromStr b = some (.claimRelease sid path)) (hnow : now = b.time)
    (hown : (liveClaim s.bus.claims now path).any (·.sessionId = sid) = true) :
    Announcing t path := by
  cases transaction_section htr with
  | @message c time text k sid' msg _ hk hs ht hm hmt =>
    obtain ⟨rfl, rfl⟩ := ClientMessage.transaction_claimRelease hmt
    obtain rfl : now = time := hnow
    obtain ⟨k₀, hk₀, ⟨hi, _⟩, rfl⟩ := step_line.mp h
    obtain rfl : k = k₀ := Option.some.inj (hk.symm.trans hk₀)
    have hdec : (s.bus.claimRelease sid path now).2 = true :=
      (@changesDurable_claimRelease s.bus now sid path).trans hown
    refine ⟨_, List.mem_of_getElem? (getElem?_set_conn hk _), ?_, ?_⟩
    · exact (handleLine_conn ..).1.trans (Conn.idle_iff.mp hi).1
    · simp [handleLine, ht, hm, hs, handleMessage, hdec, pendingEvents, isRelease]

theorem held_of_conflict {c now ttl : Nat} {text reason : String} {force : Bool} {r : Reply}
    (h : s.step cfg fromStr (.line c text now) = some t)
    (htr : s.transaction cfg fromStr (.line c text now) =
      some (.claimAcquire sid path ttl reason force))
    (hr : s.answer cfg fromStr (.line c text now) = some r)
    (hc : r.error = some "claim_conflict") : HeldByOther t.bus t.clock sid path := by
  have hclock : t.clock = now := clock_of_transaction h htr
  have hg := @changesDurable_claimAcquire s.bus now sid path reason ttl force
  obtain ⟨_, he⟩ | hbus := step_bus h
  · cases he
  rw [htr, hclock] at hbus
  rw [Transaction.changesDurable] at hg
  cases transaction_section htr with
  | @message _ _ _ k sid' msg _ hk hs ht hm hmt =>
    obtain ⟨rfl, rfl⟩ := ClientMessage.transaction_claimAcquire hmt
    cases hd : (s.bus.claimAcquire sid path ttl reason force now).2 with
    | granted evicted =>
      -- the reply says so
      exfalso
      simp only [Daemon.answer, hk, handleLine, ht, hm, hs, handleMessage_claimAcquire, hd,
        Option.bind_eq_bind, Option.bind_some] at hr
      cases hr
      cases hc
    | conflict c' =>
      rw [hd] at hg
      obtain hl | ⟨r', hl⟩ := Option.eq_none_or_eq_some (liveClaim s.bus.claims now path)
      · simp [BusState.grants, hl] at hg
      · have hne : r'.sessionId ≠ sid := by
          intro he
          simp [BusState.grants, hl, he] at hg
        have happly := liveClaim_apply s.bus now (.claimAcquire sid path ttl reason force) path
        simp only [← hg, Bool.false_eq_true, and_false, ↓reduceIte, hl] at happly
        obtain ⟨hr', hlt⟩ := liveClaim_eq_some.mp happly
        exact ⟨r', by rw [hbus]; exact hr', hclock ▸ hlt, hne⟩

def Unexpired (bus : BusState) (now : Nat) (sid path : String) : Prop :=
  ∀ r ∈ bus.claims.lookup path, r.sessionId ≠ sid → now < r.ttlUnixSecs

instance (bus : BusState) (now : Nat) (sid path : String) :
    Decidable (Unexpired bus now sid path) :=
  inferInstanceAs (Decidable (∀ _ ∈ _, _))

theorem held_step (ho : Orderly s) (h : s.step cfg fromStr b = some t)
    (hb : ∀ now, b ≠ .boot now) (hheld : HeldByOther s.bus s.clock sid path)
    (hbefore : Unexpired s.bus t.clock sid path) (hafter : Unexpired t.bus t.clock sid path) :
    HeldByOther t.bus t.clock sid path ∨ Announcing t path ∨
      ∃ m ∈ s.sends cfg fromStr b, m.toEvent.releases path = true := by
  obtain ⟨r, hr, _, hne⟩ := hheld
  have hlive : liveClaim s.bus.claims t.clock path = some r :=
    liveClaim_eq_some.mpr ⟨hr, hbefore r hr hne⟩
  obtain ⟨now, rfl⟩ | hbus := step_bus h
  · exact absurd rfl (hb now)
  have same (hl : liveClaim t.bus.claims t.clock path = liveClaim s.bus.claims t.clock path) :
      HeldByOther t.bus t.clock sid path := by
    obtain ⟨hr', hlt⟩ := liveClaim_eq_some.mp (hl.trans hlive)
    exact ⟨r, hr', hlt, hne⟩
  cases htr : s.transaction cfg fromStr b with
  | none =>
    refine Or.inl (same ?_)
    rw [hbus, htr]
    rfl
  | some tr =>
    rw [htr] at hbus
    have happly := liveClaim_apply s.bus t.clock tr path
    have hclock := clock_of_transaction h htr
    cases tr with
    | claimAcquire sid' path' ttl reason force =>
      by_cases hp : path = path' ∧ s.bus.grants t.clock sid' path' force = true
      · obtain ⟨rfl, hg⟩ := hp
        have hnew : t.bus.claims.lookup path = some ⟨path, sid', ttl, t.clock, reason⟩ := by
          rw [hbus]
          exact BusState.lookup_claimAcquire hg
        by_cases hsid : sid' = sid
        · -- the session itself takes the path by force
          subst hsid
          have hforce : force = true := by simpa [BusState.grants, hlive, hne] using hg
          exact Or.inr (Or.inr ⟨_, evicted_told ho.1 htr hclock hlive hne hforce,
            releases_claimReleaseMsg ..⟩)
        · exact Or.inl ⟨_, hnew, hafter _ hnew hsid, hsid⟩
      · exact Or.inl (same (by rw [hbus]; exact happly.trans (if_neg hp)))
    | claimRelease sid' path' =>
      by_cases hp : path = path' ∧ (liveClaim s.bus.claims t.clock path').any (·.sessionId = sid')
      · obtain ⟨rfl, hown⟩ := hp
        exact Or.inr (Or.inl (released_pending h htr hclock hown))
      · exact Or.inl (same (by rw [hbus]; exact happly.trans (if_neg hp)))
    | _ => exact Or.inl (same (by rw [hbus]; exact happly))

/-- What is left of a client that listens. -/
def Hears (s : Daemon) (l : Client) : Prop :=
  l.outgoing = [] ∧ (l.Gone s ∨ l.Subscribed s "claim.release")

/-- A client that listens, and would learn that the path is free. -/
def Alert (s : Daemon) (sid path : String) (l : Client) : Prop :=
  l.outgoing = [] ∧ (l.Gone s ∨ (l.Subscribed s "claim.release" ∧
    (HeldByOther s.bus s.clock sid path ∨ Announcing s path ∨
      l.Coming s (ServerEvent.releases path))))

theorem Alert.hears {l : Client} (h : Alert s sid path l) : Hears s l :=
  ⟨h.1, h.2.imp_right And.left⟩

section serve

variable {l : Client} (hn : ∀ (c : Nat) (k : Conn), s.conns[c]? = some k → NoticeLast k)
  (hatt : ∀ c, l.conn = some c → ∃ k, s.conns[c]? = some k)
  (hfit : l.fits fromStr b = true) (h : s.step cfg fromStr b = some t)

include hn hatt hfit h

theorem served_quiet (ho : l.outgoing = []) :
    (l.served s b).outgoing = [] ∧ (l.Gone s → (l.served s b).Gone t) := by
  cases Client.carries hn hatt hfit h with
  | same ho' hf hg => exact ⟨ho'.trans ho, hg⟩
  | took ha hc hm hout hr hf hg =>
    rw [ho] at hout
    cases hout
  | event ha hc he ho' hf hg => exact ⟨ho'.trans ho, fun hgone => absurd hgone hg⟩
  | leaves ho' hg hf => exact ⟨ho'.trans ho, fun _ => hg⟩

theorem hears_step (hlag : l.NoLag cfg s b) (hl : Hears s l) : Hears t (l.served s b) := by
  obtain ⟨ho, hl⟩ := hl
  obtain ⟨ho', hgone⟩ := served_quiet hn hatt hfit h ho
  refine ⟨ho', ?_⟩
  obtain hl | hl := hl
  · exact Or.inl (hgone hl)
  · exact Client.subscribed_step ho hlag hfit h hl

theorem alert_step (horder : Orderly s) (hlag : l.NoLag cfg s b)
    (hbefore : Unexpired s.bus t.clock sid path) (hafter : Unexpired t.bus t.clock sid path)
    (hl : Alert s sid path l) : Alert t sid path (l.served s b) := by
  obtain ⟨ho, hl⟩ := hl
  obtain ⟨ho', hgone⟩ := served_quiet hn hatt hfit h ho
  refine ⟨ho', ?_⟩
  obtain hl | ⟨hsub, hl⟩ := hl
  · exact Or.inl (hgone hl)
  by_cases hboot : ∃ now, b = .boot now
  · obtain ⟨now, rfl⟩ := hboot
    obtain ⟨c, _, _, hc, _⟩ := hsub
    exact Or.inl (Or.inl (by simp [Client.served, hc]))
  have hboot : ∀ now, b ≠ .boot now := fun now he => hboot ⟨now, he⟩
  obtain hg | hsub' := Client.subscribed_step ho hlag hfit h hsub
  · exact Or.inl hg
  have told (hs : ∃ m ∈ s.sends cfg fromStr b, m.toEvent.releases path = true) :
      (l.served s b).Gone t ∨ (l.served s b).Coming t (ServerEvent.releases path) := by
    obtain ⟨m, hm, hrel⟩ := hs
    exact Client.coming_of_sends ho hlag hfit h hsub hm hrel
  have comes (hs : (l.served s b).Gone t ∨
      (l.served s b).Coming t (ServerEvent.releases path)) : (l.served s b).Gone t ∨
      ((l.served s b).Subscribed t "claim.release" ∧ (HeldByOther t.bus t.clock sid path ∨
        Announcing t path ∨ (l.served s b).Coming t (ServerEvent.releases path))) :=
    hs.imp_right (fun hc => ⟨hsub', Or.inr (Or.inr hc)⟩)
  obtain hl | hl | hl := hl
  · obtain hh | hh | hh := held_step horder h hboot hl hbefore hafter
    · exact Or.inr ⟨hsub', Or.inl hh⟩
    · exact Or.inr ⟨hsub', Or.inr (Or.inl hh)⟩
    · exact comes (told hh)
  · obtain hh | hh := announcing_step horder h hboot hl
    · exact Or.inr ⟨hsub', Or.inr (Or.inl hh)⟩
    · exact comes (told hh)
  · refine comes (Client.coming_step hn ho hlag hfit h hsub (fun e he => ?_) hl)
    simp only [ServerEvent.releases, Bool.and_eq_true, decide_eq_true_eq] at he
    rw [he.1]
    decide

end serve

inductive Goes (v : AcquireCommand) (n : Net) : AcquirePc → Option NetAction → AcquirePc → Prop
  | ends (pc : AcquirePc) (b : Option NetAction) (e : Exit)
      (ht : AcquirePc.timedOut (.ended e) = false) : Goes v n pc b (.ended e)
  | expires (pc : AcquirePc) (x : Wait) (r : Reply) (hpc : pc = .looping x ∨ pc = .waiting x)
      (hd : x.deadline ≤ n.daemon.clock) : Goes v n pc none (.ended (.timedOut r))
  | connect : Goes v n .start (some .connect) (.connected n.clients.length)
  | sendAnnounce (i : Nat) : Goes v n (.connected i) (some (.send i v.announce)) (.announcing i)
  | announceReply (i : Nat) (r : Reply) (hr : n.readReply i = some (some (.read i), some r)) :
      Goes v n (.announcing i) (some (.read i)) (.announced i)
  | sendAcquire (i : Nat) :
      Goes v n (.announced i) (some (.send i (v.acquire n.daemon.clock))) (.acquiring i)
  | acquireReply (i deadline : Nat) (r : Reply)
      (hr : n.readReply i = some (some (.read i), some r)) :
      Goes v n (.acquiring i) (some (.read i)) (.refused i deadline r)
  | connectSub (i deadline : Nat) (r : Reply) :
      Goes v n (.refused i deadline r) (some .connect)
        (.subConnected ⟨i, n.clients.length, deadline, r⟩)
  | sendSubAnnounce (x : Wait) :
      Goes v n (.subConnected x) (some (.send x.sub v.subAnnounce)) (.subAnnouncing x)
  | subAnnounceReply (x : Wait) (r : Reply)
      (hr : n.readReply x.sub = some (some (.read x.sub), some r)) :
      Goes v n (.subAnnouncing x) (some (.read x.sub)) (.subAnnounced x)
  | sendSubscribe (x : Wait) :
      Goes v n (.subAnnounced x) (some (.send x.sub (.subscribe "claim.release"))) (.subscribing x)
  | subscribeReply (x : Wait) (r : Reply)
      (hr : n.readReply x.sub = some (some (.read x.sub), some r)) :
      Goes v n (.subscribing x) (some (.read x.sub)) (.looping x)
  | wait (x : Wait) : Goes v n (.looping x) none (.waiting x)
  | skip (x : Wait) (l : Client) (line : OutLine) (ls : List OutLine) (pc : AcquirePc)
      (hl : n.clients[x.sub]? = some l) (hx : l.incoming = line :: ls)
      (hline : ∀ e, line = .event e → e.releases v.path = false)
      (hpc : pc = .waiting x ∨ pc = .looping x) : Goes v n (.waiting x) (some (.read x.sub)) pc
  | told (x : Wait) : Goes v n (.waiting x) (some (.read x.sub)) (.matched x)
  | sendRetry (x : Wait) :
      Goes v n (.matched x) (some (.send x.client (v.acquire n.daemon.clock))) (.retrying x)
  | retryReply (x : Wait) (r : Reply)
      (hr : n.readReply x.client = some (some (.read x.client), some r))
      (hc : r.error = some "claim_conflict") :
      Goes v n (.retrying x) (some (.read x.client)) (.looping { x with reply := r })

section step

variable {v : AcquireCommand} {n n' : Net} {pc pc' : AcquirePc} {a : Option NetAction}
  {e : AcquireAction}

theorem goes_sending {i : Nat} {m : ClientMessage} {sent : AcquirePc}
    (h : n.sending i m sent (.ended .failed) = (a, pc'))
    (hg : Goes v n pc (some (.send i m)) sent) : Goes v n pc a pc' := by
  obtain ⟨rfl, rfl⟩ | ⟨rfl, rfl⟩ := Net.sending_eq h
  · exact hg
  · exact .ends _ _ _ rfl

theorem goes_reading {i : Nat} {next : Option Reply → AcquirePc}
    (h : n.reading i next = some (a, pc')) (hnone : next none = .ended .failed)
    (hg : ∀ r, n.readReply i = some (some (.read i), some r) →
      Goes v n pc (some (.read i)) (next (some r))) : Goes v n pc a pc' := by
  obtain ⟨r, hr, rfl⟩ := Net.reading_eq.mp h
  cases r with
  | none =>
    rw [hnone]
    exact .ends _ _ _ rfl
  | some r =>
    obtain ⟨rfl, _⟩ := Net.readReply_some hr
    exact hg r hr

theorem goes (h : v.step n e pc = some (a, pc')) : Goes v n pc a pc' := by
  unfold AcquireCommand.step at h
  split at h
  · -- connect
    split at h <;> cases h
    · exact .connect
    · exact .ends _ _ _ rfl
  · exact goes_sending (Option.some.inj h) (.sendAnnounce _)
  · exact goes_reading h rfl (fun r hr => .announceReply _ r hr)
  · exact goes_sending (Option.some.inj h) (.sendAcquire _)
  · refine goes_reading h rfl (fun r hr => ?_)
    rw [AcquireCommand.afterAcquire]
    split
    · exact .acquireReply _ _ r hr
    · exact .ends _ _ _ rfl
  · -- connectSub
    split at h <;> cases h
    · exact .connectSub _ _ _
    · exact .ends _ _ _ rfl
  · exact goes_sending (Option.some.inj h) (.sendSubAnnounce _)
  · exact goes_reading h rfl (fun r hr => .subAnnounceReply _ r hr)
  · exact goes_sending (Option.some.inj h) (.sendSubscribe _)
  · exact goes_reading h rfl (fun r hr => .subscribeReply _ r hr)
  · -- checkDeadline
    rename_i x
    split at h <;> cases h
    · exact .expires _ x _ (Or.inl rfl) (by assumption)
    · exact .wait x
  · -- nextEvent
    rename_i x
    simp only [Option.bind_eq_bind, Option.bind_eq_some_iff] at h
    obtain ⟨l, hl, h⟩ := h
    split at h
    · rename_i line ls hx
      cases h
      cases line with
      | reply r => exact .skip x l _ ls _ hl hx nofun (Or.inl rfl)
      | event ev =>
        rw [AcquireCommand.afterLine]
        split
        · exact .told x
        · rename_i hrel
          refine .skip x l _ ls _ hl hx (fun e' he => ?_) (Or.inr rfl)
          cases he
          exact Bool.eq_false_iff.mpr hrel
      | notice d => exact .ends _ _ _ rfl
    · split at h <;> cases h
      exact .ends _ _ _ rfl
  · -- timeout
    rename_i x
    simp only [Option.bind_eq_bind, Option.bind_eq_some_iff] at h
    obtain ⟨l, hl, h⟩ := h
    split at h <;> cases h
    rename_i hd
    exact .expires _ x _ (Or.inr rfl) hd.2.2
  · exact goes_sending (Option.some.inj h) (.sendRetry _)
  · refine goes_reading h rfl (fun r hr => ?_)
    rw [AcquireCommand.afterRetry]
    split
    · exact .ends _ _ _ rfl
    · rename_i hne
      exact .retryReply _ r hr (by simpa using (not_or.mp hne).2)
  · cases h

theorem clients_eq (pc : AcquirePc) :
    pc.clients = pc.main.toList.map Prod.fst ++ pc.sub.toList.map Prod.fst := by
  cases pc <;> rfl

end step

structure Sound (v : AcquireCommand) (n : Net) (pc : AcquirePc) : Prop where
  wired : n.Wired
  filed : Filed n.daemon
  behind : Behind n.daemon
  apart : ∀ i ph j ph', pc.main = some (i, ph) → pc.sub = some (j, ph') → i ≠ j
  main : ∀ i ph, pc.main = some (i, ph) → n.Stands v.sessionId i ph
  sub : ∀ i ph, pc.sub = some (i, ph) → n.Stands (v.sessionId ++ "-wait") i ph

/-- What the wait relies on, from the `Subscribe` on: as long as it listens it would learn that the
path is free, and while it tries again the refusal says that it is not. -/
def Ready (v : AcquireCommand) (n : Net) : AcquirePc → Prop
  | .subscribing x => ∃ l, n.clients[x.sub]? = some l ∧
      (l.outgoing = [.subscribe "claim.release"] ∨ Alert n.daemon v.sessionId v.path l)
  | .looping x | .waiting x =>
      ∃ l, n.clients[x.sub]? = some l ∧ Alert n.daemon v.sessionId v.path l
  | .matched x => ∃ l, n.clients[x.sub]? = some l ∧ Hears n.daemon l
  | .retrying x => ∃ l m, n.clients[x.sub]? = some l ∧ n.clients[x.client]? = some m ∧
      Hears n.daemon l ∧ ((∃ ttl, m.outgoing = [.claimAcquire v.path ttl v.reason v.force]) ∨
        (m.outgoing = [] ∧ ((∃ r ∈ replies (m.flight n.daemon), r.error = some "claim_conflict") →
          Alert n.daemon v.sessionId v.path l)))
  | _ => True

/-- The receiver of the command does not lag. -/
def NoLag (cfg : Config) (w : Waiter) (a : WaiterAction) : Prop :=
  ∀ x ∈ w.pc.listens, ∀ l ∈ w.net.clients[x.sub]?, ∀ d ∈ a.daemon?, l.NoLag cfg w.net.daemon d

/-- The daemon takes a request of the client that listens. -/
def Subscribing (w : Waiter) (a : WaiterAction) : Prop :=
  ∃ x ∈ w.pc.listens, ∃ l ∈ w.net.clients[x.sub]?, ∃ c ∈ a.takes, l.conn = some c

def Settled (w : Waiter) (path : String) : Prop :=
  ∀ x ∈ w.pc.listens, ∀ l ∈ w.net.clients[x.sub]?, ¬ l.Gone w.net.daemon ∧
    ¬ Announcing w.net.daemon path ∧ ¬ l.Coming w.net.daemon (ServerEvent.releases path)

/-- What tells the command that the path is free: while it listens no claim of another session on
the path runs out, the daemon takes its `Subscribe` before the path is free or the release has been
broadcast, and it does not time out with a release on its way. -/
structure Told (cfg : Config) (fromStr : String → Option ClientMessage) (v : AcquireCommand)
    (w : Waiter) (a : WaiterAction) : Prop where
  unexpired : ∀ w' ∈ w.step cfg fromStr v a, w.pc.listens.isSome →
    Unexpired w.net.daemon.bus w'.net.daemon.clock v.sessionId v.path ∧
      Unexpired w'.net.daemon.bus w'.net.daemon.clock v.sessionId v.path
  subscribed : ∀ w' ∈ w.step cfg fromStr v a, Subscribing w a →
    HeldByOther w'.net.daemon.bus w'.net.daemon.clock v.sessionId v.path ∨
      Announcing w'.net.daemon v.path
  deadline : ∀ w' ∈ w.step cfg fromStr v a, w'.pc.timedOut → Settled w v.path

instance (w : Waiter) (a : WaiterAction) : Decidable (NoLag cfg w a) :=
  inferInstanceAs (Decidable (∀ _ ∈ _, _))

instance (w : Waiter) (a : WaiterAction) : Decidable (Subscribing w a) :=
  inferInstanceAs (Decidable (∃ _ ∈ _, _))

instance (w : Waiter) (path : String) : Decidable (Settled w path) :=
  inferInstanceAs (Decidable (∀ _ ∈ _, _))

instance (v : AcquireCommand) (w : Waiter) (a : WaiterAction) :
    Decidable (Told cfg fromStr v w a) :=
  decidable_of_iff (_ ∧ _ ∧ _)
    ⟨fun ⟨hu, hs, hd⟩ => ⟨hu, hs, hd⟩, fun h => ⟨h.unexpired, h.subscribed, h.deadline⟩⟩

section sound

variable {v : AcquireCommand} {n n' : Net} {pc pc' : AcquirePc} {a : Option NetAction}

theorem sound_start (v : AcquireCommand) {file : DurableState} (hfile : Keyed file.claims)
    (log : List BroadcastMsg) (now : Nat) : Sound v (.start file log now) .start :=
  ⟨Net.wired_start file log now, filed_start hfile log now, behind_start file log now, nofun,
    nofun, nofun⟩

theorem net_kept (hs : Sound v n pc) (h : a.elim (some n) (n.step cfg fromStr) = some n') :
    n'.Wired ∧ Filed n'.daemon ∧ Behind n'.daemon :=
  ⟨Net.elim_wired hs.wired h, Net.elim_invariant h (fun _ _ _ hi ht => filed_step hi ht) hs.filed,
    Net.elim_invariant h (fun _ _ _ hi ht => behind_step hi ht) hs.behind⟩

theorem sound_main {i : Nat} {ph : Phase} (hn : n.Wired ∧ Filed n.daemon ∧ Behind n.daemon)
    (hm : pc.main = some (i, ph)) (hs : pc.sub = none) (hst : n.Stands v.sessionId i ph) :
    Sound v n pc := by
  refine ⟨hn.1, hn.2.1, hn.2.2, fun _ _ _ _ _ he => ?_, fun j ph' he => ?_, fun _ _ he => ?_⟩
  · rw [hs] at he
    cases he
  · cases hm.symm.trans he
    exact hst
  · rw [hs] at he
    cases he

theorem sound_pair {i j : Nat} {ph ph' : Phase} (hn : n.Wired ∧ Filed n.daemon ∧ Behind n.daemon)
    (hm : pc.main = some (i, ph)) (hs : pc.sub = some (j, ph')) (hne : i ≠ j)
    (hst : n.Stands v.sessionId i ph) (hst' : n.Stands (v.sessionId ++ "-wait") j ph') :
    Sound v n pc := by
  refine ⟨hn.1, hn.2.1, hn.2.2, fun _ _ _ _ he he' => ?_, fun _ _ he => ?_, fun _ _ he => ?_⟩
  · cases hm.symm.trans he
    cases hs.symm.trans he'
    exact hne
  · cases hm.symm.trans he
    exact hst
  · cases hs.symm.trans he
    exact hst'

theorem sound_goes (hs : Sound v n pc) (hg : Goes v n pc a pc')
    (h : a.elim (some n) (n.step cfg fromStr) = some n') : Sound v n' pc' := by
  have hn := net_kept hs h
  have taken {b : NetAction} (ha : a = some b) : n.step cfg fromStr b = some n' :=
    Net.elim_some h ha
  have other {b : NetAction} (ha : a = some b) {sid : String} {i j : Nat} {ph : Phase}
      (hb : b.client = some j) (hne : j ≠ i) (hst : n.Stands sid i ph) : n'.Stands sid i ph :=
    Net.stands_other hs.wired (taken ha) (fun he => hne (Option.some.inj (hb.symm.trans he))) hst
  have apart {x : Wait} {ph ph' : Phase} (hm : pc.main = some (x.client, ph))
      (hsub : pc.sub = some (x.sub, ph')) : x.client ≠ x.sub := hs.apart _ _ _ _ hm hsub
  cases hg with
  | ends _ _ e ht => exact ⟨hn.1, hn.2.1, hn.2.2, nofun, nofun, nofun⟩
  | expires _ x r hpc hd => exact ⟨hn.1, hn.2.1, hn.2.2, nofun, nofun, nofun⟩
  | connect => exact sound_main hn rfl rfl (Net.stands_connect (taken rfl))
  | sendAnnounce i =>
    exact sound_main hn rfl rfl (Net.stands_introduce (taken rfl) (hs.main i _ rfl))
  | announceReply i r hr =>
    exact sound_main hn rfl rfl (Net.stands_reply (taken rfl) hr (hs.main i _ rfl))
  | sendAcquire i => exact sound_main hn rfl rfl (Net.stands_ask (taken rfl) (hs.main i _ rfl))
  | acquireReply i deadline r hr =>
    exact sound_main hn rfl rfl (Net.stands_reply (taken rfl) hr (hs.main i _ rfl))
  | connectSub i deadline r =>
    obtain ⟨l, hl, _⟩ := hs.main i _ rfl
    exact sound_pair hn rfl rfl (List.getElem?_eq_some_iff.mp hl).1.ne
      (Net.stands_other hs.wired (taken rfl) nofun (hs.main i _ rfl))
      (Net.stands_connect (taken rfl))
  | sendSubAnnounce x =>
    have hne := @apart x _ _ rfl rfl
    exact sound_pair hn rfl rfl hne (other rfl rfl hne.symm (hs.main _ _ rfl))
      (Net.stands_introduce (taken rfl) (hs.sub _ _ rfl))
  | subAnnounceReply x r hr | subscribeReply x r hr =>
    have hne := @apart x _ _ rfl rfl
    exact sound_pair hn rfl rfl hne (other rfl rfl hne.symm (hs.main _ _ rfl))
      (Net.stands_reply (taken rfl) hr (hs.sub _ _ rfl))
  | sendSubscribe x =>
    have hne := @apart x _ _ rfl rfl
    exact sound_pair hn rfl rfl hne (other rfl rfl hne.symm (hs.main _ _ rfl))
      (Net.stands_ask (taken rfl) (hs.sub _ _ rfl))
  | wait x =>
    have hne := @apart x _ _ rfl rfl
    cases h
    exact sound_pair hn rfl rfl hne (hs.main _ _ rfl) (hs.sub _ _ rfl)
  | skip x l line ls _ hl hx hline hpc =>
    have hne := @apart x _ _ rfl rfl
    have hm := other rfl rfl hne.symm (hs.main _ _ rfl)
    have hsub := Net.stands_read (taken rfl) (hs.sub _ _ rfl)
    obtain rfl | rfl := hpc
    · exact sound_pair hn rfl rfl hne hm hsub
    · exact sound_pair hn rfl rfl hne hm hsub
  | told x =>
    have hne := @apart x _ _ rfl rfl
    exact sound_pair hn rfl rfl hne (other rfl rfl hne.symm (hs.main _ _ rfl))
      (Net.stands_read (taken rfl) (hs.sub _ _ rfl))
  | sendRetry x =>
    have hne := @apart x _ _ rfl rfl
    exact sound_pair hn rfl rfl hne (Net.stands_ask (taken rfl) (hs.main _ _ rfl))
      (other rfl rfl hne (hs.sub _ _ rfl))
  | retryReply x r hr hc =>
    have hne := @apart x _ _ rfl rfl
    exact sound_pair hn rfl rfl hne (Net.stands_reply (taken rfl) hr (hs.main _ _ rfl))
      (other rfl rfl hne (hs.sub _ _ rfl))

theorem sound_other (hs : Sound v n pc) {b : NetAction} (h : n.step cfg fromStr b = some n')
    (hb : b.client.any (· ∈ pc.clients) = false) : Sound v n' pc := by
  obtain ⟨hw, hf, hbehind⟩ := net_kept (a := some b) hs h
  have ne {i : Nat} (hi : i ∈ pc.clients) : b.client ≠ some i := by
    intro he
    simp [he, hi] at hb
  refine ⟨hw, hf, hbehind, hs.apart, fun i ph hm => ?_, fun i ph hsub => ?_⟩
  · refine Net.stands_other hs.wired h (ne ?_) (hs.main i ph hm)
    simp [clients_eq, hm]
  · refine Net.stands_other hs.wired h (ne ?_) (hs.sub i ph hsub)
    simp [clients_eq, hsub]

end sound

section ready

variable {v : AcquireCommand} {n n' : Net} {pc pc' : AcquirePc} {b : NetAction} {i : Nat}
  {l : Client} (hw : n.Wired) (h : n.step cfg fromStr b = some n') (hb : b.client ≠ some i)
  (hl : n.clients[i]? = some l) (hlag : ∀ d ∈ b.daemon?, l.NoLag cfg n.daemon d)

include hw h hb hl hlag

theorem hears_other (hh : Hears n.daemon l) :
    ∃ l', n'.clients[i]? = some l' ∧ Hears n'.daemon l' := by
  obtain ⟨d, hd, ht, hfit, hl'⟩ | ⟨_, hd, hl'⟩ := Net.step_client h hb hl
  · exact ⟨_, hl', hears_step hw.notices (hw.attached l (List.mem_of_getElem? hl)) hfit ht
      (hlag d hd) hh⟩
  · exact ⟨l, hl', hd ▸ hh⟩

theorem alert_other (hf : Filed n.daemon)
    (hbefore : Unexpired n.daemon.bus n'.daemon.clock sid path)
    (hafter : Unexpired n'.daemon.bus n'.daemon.clock sid path)
    (ha : Alert n.daemon sid path l) :
    ∃ l', n'.clients[i]? = some l' ∧ Alert n'.daemon sid path l' := by
  obtain ⟨d, hd, ht, hfit, hl'⟩ | ⟨_, hd, hl'⟩ := Net.step_client h hb hl
  · exact ⟨_, hl', alert_step hw.notices (hw.attached l (List.mem_of_getElem? hl)) hfit ht
      hf.orderly (hlag d hd) hbefore hafter ha⟩
  · exact ⟨l, hl', hd ▸ ha⟩

end ready

section ready

variable {v : AcquireCommand} {n n' : Net} {x : Wait} {b : NetAction} {l m : Client}
  (h : n.step cfg fromStr b = some n')

include h

theorem subscribing_other (hs : Sound v n (.subscribing x)) (hb : b.client ≠ some x.sub)
    (hl : n.clients[x.sub]? = some l) (ho : l.outgoing = [.subscribe "claim.release"])
    (htold : ∀ c text now, b.daemon? = some (.line c text now) → l.conn = some c →
      HeldByOther n'.daemon.bus n'.daemon.clock v.sessionId v.path ∨
        Announcing n'.daemon v.path) : Ready v n' (.subscribing x) := by
  obtain ⟨l₁, hl₁, hin, _⟩ := hs.sub x.sub _ rfl
  obtain rfl : l = l₁ := Option.some.inj (hl.symm.trans hl₁)
  have hatt := hs.wired.attached l (List.mem_of_getElem? hl)
  obtain ⟨d, hd, ht, hfit, hl'⟩ | ⟨_, hd, hl'⟩ := Net.step_client h hb hl
  · refine ⟨_, hl', ?_⟩
    cases Client.carries hs.wired.notices hatt hfit ht with
    | same ho' hf hg => exact Or.inl (ho'.trans ho)
    | @took c now text m r ha hc hm hout hr hf hg =>
      subst ha
      obtain ⟨k, hk⟩ := hatt c hc
      have hout' := (List.cons.inj (ho.symm.trans hout)).2
      have hsub := Client.subscribed_took hs.behind hin hc hk hfit ho ht
      exact Or.inr ⟨hout'.symm, Or.inr ⟨hsub, (htold c text now hd hc).imp_right Or.inl⟩⟩
    | event ha hc he ho' hf hg => exact Or.inl (ho'.trans ho)
    | leaves ho' hg hf => exact Or.inl (ho'.trans ho)
  · exact ⟨l, hl', Or.inl ho⟩

theorem retrying_other (hs : Sound v n (.retrying x)) (hb : b.client ≠ some x.sub)
    (hb' : b.client ≠ some x.client)
    (hlag : ∀ l ∈ n.clients[x.sub]?, ∀ d ∈ b.daemon?, l.NoLag cfg n.daemon d)
    (hbefore : Unexpired n.daemon.bus n'.daemon.clock v.sessionId v.path)
    (hafter : Unexpired n'.daemon.bus n'.daemon.clock v.sessionId v.path)
    (hr : Ready v n (.retrying x)) : Ready v n' (.retrying x) := by
  obtain ⟨l, m, hl, hm, hh, hr⟩ := hr
  obtain ⟨l', hl', hh'⟩ := hears_other hs.wired h hb hl (hlag l hl) hh
  have alert (ha : Alert n.daemon v.sessionId v.path l) :
      Alert n'.daemon v.sessionId v.path l' := by
    obtain ⟨l₁, hl₁, ha'⟩ := alert_other hs.wired h hb hl (hlag l hl) hs.filed hbefore hafter ha
    obtain rfl : l₁ = l' := Option.some.inj (hl₁.symm.trans hl')
    exact ha'
  obtain ⟨m₁, hm₁, hin, howed⟩ := hs.main x.client _ rfl
  obtain rfl : m = m₁ := Option.some.inj (hm.symm.trans hm₁)
  have hatt := hs.wired.attached m (List.mem_of_getElem? hm)
  obtain ⟨d, hd, ht, hfit, hm'⟩ | ⟨_, hd, hm'⟩ := Net.step_client h hb' hm
  · refine ⟨l', _, hl', hm', hh', ?_⟩
    obtain ⟨ttl, ho⟩ | ⟨ho, himp⟩ := hr
    · cases Client.carries hs.wired.notices hatt hfit ht with
      | same ho' hf hg => exact Or.inl ⟨ttl, ho'.trans ho⟩
      | @took c now text msg r ha hc hmsg hout hans hf hg =>
        subst ha
        refine Or.inr ⟨(List.cons.inj (ho.symm.trans hout)).2.symm, ?_⟩
        have hnone : replies (m.flight n.daemon) = [] := by
          rw [Client.owed, ho, List.length_singleton] at howed
          exact List.eq_nil_of_length_eq_zero (by omega)
        rintro ⟨r', hr', hconf⟩
        rw [hf, replies_append, hnone] at hr'
        obtain rfl : r' = r := List.mem_singleton.mp hr'
        obtain ⟨k, hk⟩ := hatt c hc
        have htr : n.daemon.transaction cfg fromStr (.line c text now) =
            some (.claimAcquire v.sessionId v.path ttl v.reason v.force) :=
          hin.takes hc hk hfit ho (fun _ _ _ _ _ h => by cases h)
        have hheld := held_of_conflict ht htr hans hconf
        exact ⟨hh'.1, hh'.2.imp_right (fun hsub => ⟨hsub, Or.inl hheld⟩)⟩
      | event ha hc he ho' hf hg => exact Or.inl ⟨ttl, ho'.trans ho⟩
      | leaves ho' hg hf => exact Or.inl ⟨ttl, ho'.trans ho⟩
    · have later (ho' : (m.served n.daemon d).outgoing = m.outgoing)
          (hf : ∀ r ∈ replies ((m.served n.daemon d).flight n'.daemon),
            r ∈ replies (m.flight n.daemon)) :
          (m.served n.daemon d).outgoing = [] ∧
            ((∃ r ∈ replies ((m.served n.daemon d).flight n'.daemon),
              r.error = some "claim_conflict") → Alert n'.daemon v.sessionId v.path l') := by
        refine ⟨ho'.trans ho, ?_⟩
        rintro ⟨r, hr, hc⟩
        exact alert (himp ⟨r, hf r hr, hc⟩)
      cases Client.carries hs.wired.notices hatt hfit ht with
      | same ho' hf hg => exact Or.inr (later ho' (fun r hr => by rwa [hf] at hr))
      | took ha hc hmsg hout hans hf hg =>
        rw [ho] at hout
        cases hout
      | event ha hc he ho' hf hg =>
        refine Or.inr (later ho' (fun r hr => ?_))
        rw [hf, replies_append] at hr
        exact (List.mem_append.mp hr).resolve_right List.not_mem_nil
      | leaves ho' hg hf =>
        obtain ⟨ns, hns, _, hf⟩ := hf
        exact Or.inr (later ho' (fun r hr => mem_replies_of_initial hf hns hr))
  · refine ⟨l', m, hl', hm', hh', hr.imp_right (fun hr => ⟨hr.1, fun hex => ?_⟩)⟩
    rw [hd] at hex
    exact alert (hr.2 hex)

end ready

section ready

variable {v : AcquireCommand} {n n' : Net} {pc pc' : AcquirePc} {a : Option NetAction}
  {x : Wait} {l : Client}

theorem Hears.read (hh : Hears s l) (ls : List OutLine) : Hears s { l with incoming := ls } := hh

theorem Alert.read {line : OutLine} {ls : List OutLine} (ha : Alert s sid path l)
    (hx : l.incoming = line :: ls) (hline : ∀ e, line = .event e → e.releases path = false) :
    Alert s sid path { l with incoming := ls } := by
  refine ⟨ha.1, ha.2.imp_right (fun ⟨hsub, hh⟩ => ⟨hsub, ?_⟩)⟩
  obtain hh | hh | hrx | ⟨e, he, hf⟩ := hh
  · exact Or.inl hh
  · exact Or.inr (Or.inl hh)
  · exact Or.inr (Or.inr (Or.inl hrx))
  · refine Or.inr (Or.inr (Or.inr ⟨e, ?_, hf⟩))
    rw [Client.flight_read hx, Client.mem_events, List.mem_cons] at he
    obtain he | he := he
    · rw [hline e he.symm] at hf
      cases hf
    · exact Client.mem_events.mpr he

theorem taken_of_reply {i : Nat} {r : Reply} {sid : String} {b : Option NetAction}
    (hl : n.clients[i]? = some l) (hst : n.Stands sid i .asked)
    (hr : n.readReply i = some (b, some r)) :
    l.outgoing = [] ∧ ∃ ls, l.incoming = .reply r :: ls := by
  obtain ⟨l₁, hl₁, _, howed⟩ := hst
  obtain rfl : l = l₁ := Option.some.inj (hl.symm.trans hl₁)
  obtain ⟨_, l₂, ls, hl₂, hx⟩ := Net.readReply_some hr
  obtain rfl : l = l₂ := Option.some.inj (hl.symm.trans hl₂)
  refine ⟨List.eq_nil_of_length_eq_zero ?_, ls, hx⟩
  have hread := Client.owed_read (s := n.daemon) hx
  have hle : l.outgoing.length ≤ Client.owed n.daemon { l with incoming := ls } :=
    Nat.le_add_right ..
  change _ + 1 = _ at hread
  omega

theorem clients_read {i : Nat} {line : OutLine} {ls : List OutLine}
    (h : n.step cfg fromStr (.read i) = some n') (hl : n.clients[i]? = some l)
    (hx : l.incoming = line :: ls) : n'.daemon = n.daemon ∧
      n'.clients[i]? = some { l with incoming := ls } ∧
        ∀ j, j ≠ i → n'.clients[j]? = n.clients[j]? := by
  obtain ⟨l₁, x, xs, hl₁, hx₁, rfl⟩ := Net.step_read.mp h
  obtain rfl : l = l₁ := Option.some.inj (hl.symm.trans hl₁)
  obtain ⟨_, rfl⟩ := List.cons.inj (hx.symm.trans hx₁)
  exact ⟨rfl, Net.getElem?_setClient hl _, fun j hj => List.getElem?_set_ne hj.symm⟩

theorem ready_goes (hs : Sound v n pc) (hr : Ready v n pc) (hg : Goes v n pc a pc')
    (h : a.elim (some n) (n.step cfg fromStr) = some n') : Ready v n' pc' := by
  have taken {b : NetAction} (ha : a = some b) : n.step cfg fromStr b = some n' :=
    Net.elim_some h ha
  cases hg with
  | sendSubscribe x =>
    obtain ⟨l, hl, hph⟩ := hs.sub x.sub .idle rfl
    obtain ⟨l₁, hl₁, _, rfl⟩ := Net.step_send.mp (taken rfl)
    obtain rfl : l = l₁ := Option.some.inj (hl.symm.trans hl₁)
    exact ⟨_, Net.getElem?_setClient hl _, Or.inl (by rw [Phase.outgoing hph]; rfl)⟩
  | subscribeReply x r hreply =>
    obtain ⟨l, hl, hr⟩ := hr
    obtain ⟨ho, ls, hx⟩ := taken_of_reply hl (hs.sub x.sub _ rfl) hreply
    obtain ⟨hd, hl', _⟩ := clients_read (taken rfl) hl hx
    obtain hsub | ha := hr
    · rw [ho] at hsub
      cases hsub
    · exact ⟨_, hl', hd ▸ ha.read hx nofun⟩
  | wait x =>
    cases h
    exact hr
  | skip x l line ls _ hl hx hline hpc =>
    obtain ⟨l₁, hl₁, ha⟩ := hr
    obtain rfl : l = l₁ := Option.some.inj (hl.symm.trans hl₁)
    obtain ⟨hd, hl', _⟩ := clients_read (taken rfl) hl hx
    obtain rfl | rfl := hpc
    · exact ⟨_, hl', hd ▸ ha.read hx hline⟩
    · exact ⟨_, hl', hd ▸ ha.read hx hline⟩
  | told x =>
    obtain ⟨l, hl, ha⟩ := hr
    obtain ⟨l₁, line, ls, hl₁, hx, rfl⟩ := Net.step_read.mp (taken rfl)
    obtain rfl : l = l₁ := Option.some.inj (hl.symm.trans hl₁)
    exact ⟨_, Net.getElem?_setClient hl _, ha.hears.read ls⟩
  | sendRetry x =>
    obtain ⟨l, hl, hh⟩ := hr
    obtain ⟨m, hm, hph⟩ := hs.main x.client .idle rfl
    obtain ⟨m₁, hm₁, _, rfl⟩ := Net.step_send.mp (taken rfl)
    obtain rfl : m = m₁ := Option.some.inj (hm.symm.trans hm₁)
    have hne : x.client ≠ x.sub := hs.apart _ _ _ _ rfl rfl
    refine ⟨l, _, (List.getElem?_set_ne hne).trans hl, Net.getElem?_setClient hm _, hh,
      Or.inl ⟨saturatingAdd n.daemon.clock v.ttl, ?_⟩⟩
    rw [Phase.outgoing hph]
    rfl
  | retryReply x r hreply hc =>
    obtain ⟨l, m, hl, hm, hh, hr⟩ := hr
    obtain ⟨ho, ls, hx⟩ := taken_of_reply hm (hs.main x.client _ rfl) hreply
    obtain ⟨hd, _, hother⟩ := clients_read (taken rfl) hm hx
    have hne : x.client ≠ x.sub := hs.apart _ _ _ _ rfl rfl
    refine ⟨l, (hother x.sub hne.symm).trans hl, ?_⟩
    obtain ⟨ttl, hacq⟩ | ⟨_, himp⟩ := hr
    · rw [ho] at hacq
      cases hacq
    · rw [hd]
      refine himp ⟨r, ?_, hc⟩
      rw [Client.flight_read hx]
      exact List.mem_cons_self
  | _ => trivial

end ready

section waiter

variable {v : AcquireCommand} {w w' : Waiter} {a : WaiterAction}

theorem step_acts (h : Waiter.step cfg fromStr v w a = some w') :
    ∃ b, w.acts v a = some (b, w'.pc) ∧ b.elim (some w.net) (w.net.step cfg fromStr) =
      some w'.net := by
  simp only [Waiter.step, Option.bind_eq_bind, Option.bind_eq_some_iff, Prod.exists] at h
  obtain ⟨b, pc, hb, n, hn, h⟩ := h
  cases h
  exact ⟨b, hb, hn⟩

theorem step_cases (h : Waiter.step cfg fromStr v w a = some w') :
    (∃ b, a = .net b ∧ b.client.any (· ∈ w.pc.clients) = false ∧
      w.net.step cfg fromStr b = some w'.net ∧ w'.pc = w.pc) ∨
    (∃ e b, a = .acquire e ∧ Goes v w.net w.pc b w'.pc ∧
      b.elim (some w.net) (w.net.step cfg fromStr) = some w'.net) := by
  obtain ⟨b, hb, hn⟩ := step_acts h
  cases a with
  | net c =>
    rw [Waiter.acts] at hb
    split at hb
    · cases hb
    · rename_i hc
      obtain ⟨rfl, hpc⟩ := Prod.mk.inj (Option.some.inj hb)
      exact Or.inl ⟨c, rfl, Bool.eq_false_iff.mpr hc, hn, hpc.symm⟩
  | acquire e => exact Or.inr ⟨e, b, rfl, goes hb, hn⟩

theorem sound_step (hs : Sound v w.net w.pc) (h : Waiter.step cfg fromStr v w a = some w') :
    Sound v w'.net w'.pc := by
  obtain ⟨b, rfl, hb, hn, hpc⟩ | ⟨e, b, rfl, hg, hn⟩ := step_cases h
  · rw [hpc]
    exact sound_other hs hn hb
  · exact sound_goes hs hg hn

theorem ready_step (hs : Sound v w.net w.pc) (hr : Ready v w.net w.pc) (hlag : NoLag cfg w a)
    (ht : Told cfg fromStr v w a) (h : w.step cfg fromStr v a = some w') :
    Ready v w'.net w'.pc := by
  obtain ⟨b, rfl, hb, hn, hpc⟩ | ⟨e, b, rfl, hg, hn⟩ := step_cases h
  · have ne {i : Nat} (hi : i ∈ w.pc.clients) : b.client ≠ some i := by
      intro he
      simp [he, hi] at hb
    have hun (hl : w.pc.listens.isSome) := ht.unexpired w' h hl
    obtain ⟨n, pc⟩ := w
    dsimp only at *
    rw [hpc]
    cases pc with
    | subscribing x =>
      obtain ⟨l, hl, ho | ha⟩ := hr
      · refine subscribing_other hn hs (ne (by simp [AcquirePc.clients])) hl ho ?_
        intro c text now hd hc
        refine ht.subscribed w' h ⟨x, rfl, l, hl, c, ?_, hc⟩
        cases b with
        | serve d =>
          cases hd
          rfl
        | _ => cases hd
      · obtain ⟨hbefore, hafter⟩ := hun rfl
        obtain ⟨l', hl', ha'⟩ := alert_other hs.wired hn (ne (by simp [AcquirePc.clients])) hl
          (hlag x rfl l hl) hs.filed hbefore hafter ha
        exact ⟨l', hl', Or.inr ha'⟩
    | looping x | waiting x =>
      obtain ⟨l, hl, ha⟩ := hr
      obtain ⟨hbefore, hafter⟩ := hun rfl
      exact alert_other hs.wired hn (ne (by simp [AcquirePc.clients])) hl (hlag x rfl l hl)
        hs.filed hbefore hafter ha
    | matched x =>
      obtain ⟨l, hl, hh⟩ := hr
      exact hears_other hs.wired hn (ne (by simp [AcquirePc.clients])) hl (hlag x rfl l hl) hh
    | retrying x =>
      obtain ⟨hbefore, hafter⟩ := hun rfl
      exact retrying_other hn hs (ne (by simp [AcquirePc.clients]))
        (ne (by simp [AcquirePc.clients])) (hlag x rfl) hbefore hafter hr
    | _ => trivial
  · exact ready_goes hs hr hg hn

/-- When the command times out, another session holds the path. -/
def HeldAtDeadline (cfg : Config) (fromStr : String → Option ClientMessage) (v : AcquireCommand)
    (w : Waiter) (a : WaiterAction) : Prop :=
  ∀ w' ∈ w.step cfg fromStr v a, w.pc.timedOut = false → w'.pc.timedOut = true →
    HeldByOther w'.net.daemon.bus w'.net.daemon.clock v.sessionId v.path

instance (v : AcquireCommand) (w : Waiter) (a : WaiterAction) :
    Decidable (HeldAtDeadline cfg fromStr v w a) :=
  inferInstanceAs (Decidable (∀ _ ∈ _, _))

theorem held_of_ready (hr : Ready v w.net w.pc) (ht : Told cfg fromStr v w a) :
    HeldAtDeadline cfg fromStr v w a := by
  intro w' h hbefore hafter
  obtain ⟨b, rfl, hb, hn, hpc⟩ | ⟨e, b, rfl, hg, hn⟩ := step_cases h
  · rw [hpc, hbefore] at hafter
    cases hafter
  · obtain ⟨n, pc⟩ := w
    obtain ⟨n', pc'⟩ := w'
    have hquiet := ht.deadline _ h hafter
    dsimp only at *
    cases hg with
    | ends _ _ e hend =>
      rw [hend] at hafter
      cases hafter
    | expires _ x r hpc hd =>
      cases hn
      obtain rfl | rfl := hpc
      all_goals
        obtain ⟨l, hl, -, hh⟩ := hr
        obtain ⟨hgone, hann, hcome⟩ := hquiet x rfl l hl
        obtain hh | ⟨_, hh | hh | hh⟩ := hh
        · exact absurd hh hgone
        · exact hh
        · exact absurd hh hann
        · exact absurd hh hcome
    | skip x l line ls _ hl hx hline hpc' => obtain rfl | rfl := hpc' <;> cases hafter
    | _ => cases hafter

/-- A waiting acquire that times out finds the path held by another session, in any interleaving
with the other sessions' releases and acquires, as long as it is told when the path is free. -/
theorem held_at_deadline_of_told (cfg : Config) (fromStr : String → Option ClientMessage)
    (v : AcquireCommand) (file : DurableState) (hfile : Keyed file.claims) (log : List BroadcastMsg)
    (now : Nat) (as : List WaiterAction)
    (hlag : Along (Waiter.step cfg fromStr v) (NoLag cfg) (.start file log now) as)
    (htold : Along (Waiter.step cfg fromStr v) (Told cfg fromStr v) (.start file log now) as) :
    Along (Waiter.step cfg fromStr v) (HeldAtDeadline cfg fromStr v) (.start file log now) as := by
  refine Along.of_invariant (J := fun w => Sound v w.net w.pc ∧ Ready v w.net w.pc) ?_ ?_ ?_
    (along_and.mpr ⟨hlag, htold⟩)
  · exact fun w a w' ⟨hs, hr⟩ ⟨hlag, htold⟩ h => ⟨sound_step hs h, ready_step hs hr hlag htold h⟩
  · exact fun w a ⟨_, hr⟩ ⟨_, htold⟩ => held_of_ready hr htold
  · exact ⟨sound_start v hfile log now, trivial⟩

end waiter

def waitConfig : Config := ⟨60, 1024, 3000, false, "carbon"⟩

def waitCommand : AcquireCommand := ⟨"s1", "/x", 60, "", false, 20, 7, "/"⟩

def firstLine : String :=
  "\x7b\"op\":\"claim_acquire\",\"path\":\"/x\",\"ttl_unix_secs\":63,\"reason\":\"\"," ++
    "\"force\":false\x7d"

def subscribeLine : String := "\x7b\"op\":\"subscribe\",\"prefix\":\"claim.release\"\x7d"

def shortLine : String :=
  "\x7b\"op\":\"claim_acquire\",\"path\":\"/x\",\"ttl_unix_secs\":10\x7d"

def waitLines : String → Option ClientMessage :=
  decodeFrom [(announceLine "s2", .announce "s2" 7 "/" "" none),
    (acquireLine, .claimAcquire "/x" 100 "" false), (shortLine, .claimAcquire "/x" 10 "" false),
    (clientLine "s1" "claim-client", .announce "s1" 7 "/" "claim-client" none),
    (firstLine, .claimAcquire "/x" 63 "" false), (releaseLine, .claimRelease "/x"),
    (clientLine "s1-wait" "claim-wait", .announce "s1-wait" 7 "/" "claim-wait" none),
    (subscribeLine, .subscribe "claim.release")]

def refusedActions (text : String) : List WaiterAction :=
  [.net (.serve .connect), .net (.serve (.line 0 (announceLine "s2") 3)),
    .net (.serve (.proceed 0 3 true)), .net (.serve (.line 0 text 3)),
    .net (.serve (.proceed 0 3 true)), .net (.serve (.proceed 0 3 true)),
    .net (.serve (.proceed 0 3 true)), .acquire .connect, .acquire .sendAnnounce,
    .net (.serve (.line 1 (clientLine "s1" "claim-client") 3)), .net (.serve (.proceed 1 3 true)),
    .acquire .announceReply, .acquire .sendAcquire, .net (.serve (.line 1 firstLine 3)),
    .net (.serve (.proceed 1 3 true)), .acquire .acquireReply]

def subscribeActions : List WaiterAction :=
  [.acquire .connectSub, .acquire .sendSubAnnounce,
    .net (.serve (.line 2 (clientLine "s1-wait" "claim-wait") 3)),
    .net (.serve (.proceed 2 3 true)), .acquire .subAnnounceReply, .acquire .sendSubscribe,
    .net (.serve (.line 2 subscribeLine 3)), .net (.serve (.proceed 2 3 true)),
    .acquire .subscribeReply]

def timeoutActions : List WaiterAction :=
  [.acquire .checkDeadline, .net (.serve (.tick 23)), .acquire .timeout]

def keptActions : List WaiterAction :=
  refusedActions acquireLine ++ subscribeActions ++ timeoutActions

theorem held_at_deadline_kept : Along (Waiter.step waitConfig waitLines waitCommand)
      (HeldAtDeadline waitConfig waitLines waitCommand) (.start .default [] 0) keptActions ∧
    ∃ w, run (Waiter.step waitConfig waitLines waitCommand) (.start .default [] 0) keptActions =
      some w ∧ w.pc.timedOut = true := by
  -- one evaluation of the run for both
  obtain ⟨h, hp⟩ : (run (Waiter.step waitConfig waitLines waitCommand) (.start .default [] 0)
        keptActions).map (fun w => w.pc.timedOut) = some true ∧
      Along (Waiter.step waitConfig waitLines waitCommand) (fun w a =>
        NoLag waitConfig w a ∧ Told waitConfig waitLines waitCommand w a) (.start .default [] 0)
        keptActions := by decide +kernel
  obtain ⟨w, hw, h⟩ := Option.map_eq_some_iff.mp h
  obtain ⟨hlag, htold⟩ := along_and.mp hp
  exact ⟨held_at_deadline_of_told waitConfig waitLines waitCommand .default
    (fun p c hc => by cases hc) [] 0 keptActions hlag htold, w, hw, h⟩

/-- `s2` releases the path before the second client subscribes. -/
def missedActions : List WaiterAction :=
  refusedActions acquireLine ++ [.net (.serve (.line 0 releaseLine 3)),
    .net (.serve (.proceed 0 3 true)), .net (.serve (.proceed 0 3 true)),
    .net (.serve (.proceed 0 3 true))] ++ subscribeActions ++ timeoutActions

/-- The claim of `s2` runs out while the command waits. -/
def expiredActions : List WaiterAction :=
  refusedActions shortLine ++ subscribeActions ++ timeoutActions

/-- A release before the `Subscribe` is not heard, and a claim that runs out is not told: in both
cases the command waits for its deadline while nobody holds the path. -/
theorem waits_for_free_path :
    (Along (Waiter.step waitConfig waitLines waitCommand) (NoLag waitConfig)
        (.start .default [] 0) missedActions ∧
      ¬ Along (Waiter.step waitConfig waitLines waitCommand)
        (HeldAtDeadline waitConfig waitLines waitCommand) (.start .default [] 0) missedActions) ∧
    Along (Waiter.step waitConfig waitLines waitCommand) (NoLag waitConfig)
      (.start .default [] 0) expiredActions ∧
    ¬ Along (Waiter.step waitConfig waitLines waitCommand)
      (HeldAtDeadline waitConfig waitLines waitCommand) (.start .default [] 0) expiredActions := by
  decide +kernel

end ClaimWait

end Agorabus
