import Agorabus.ClaimEvents

namespace Agorabus

def Transaction.takes (st : BusState) (now : Nat) (p A : String) (tr : Transaction) : Bool :=
  (liveClaim st.claims now p).any (fun c => decide (c.sessionId = A)) &&
    !((tr.apply st now).claims.lookup p).any (fun c => decide (c.sessionId = A))

namespace ClaimLosses

open Agorabus Daemon StepSystem ClaimEvents

variable {cfg : Config} {fromStr : String → Option ClientMessage} {s t : Daemon} {a : Action}
  {p A : String}

theorem takes_of_kept {st : BusState} {now : Nat} {tr : Transaction}
    (h : ∀ c, liveClaim st.claims now p = some c → (tr.apply st now).claims.lookup p = some c) :
    tr.takes st now p A = false := by
  cases hl : liveClaim st.claims now p with
  | none => simp [Transaction.takes, hl]
  | some c => simp [Transaction.takes, hl, h c hl]

theorem takes_claimAcquire (st : BusState) (now ttl : Nat) (sid path reason : String)
    (force : Bool) :
    Transaction.takes st now p A (.claimAcquire sid path ttl reason force) = true ↔
      p = path ∧ ∃ c, (st.claimAcquire sid path ttl reason force now).2 = .granted (some c) ∧
        c.sessionId = A := by
  have hprune : (st.pruneExpiredClaims now).claims.lookup p = liveClaim st.claims now p :=
    lookup_prune st now p
  rw [BusState.claimAcquire_decision]
  cases hg : st.grants now sid path force with
  | false =>
    have hnone : Transaction.takes st now p A (.claimAcquire sid path ttl reason force) =
        false := by
      refine takes_of_kept (fun c hc => ?_)
      rw [Transaction.apply, BusState.claimAcquire_refused hg, hprune, hc]
    rw [hnone]
    refine iff_of_false Bool.false_ne_true ?_
    rintro ⟨rfl, c, hc, _⟩
    rw [BusState.grants] at hg
    cases hl : liveClaim st.claims now p with
    | none => simp [hl] at hg
    | some d =>
      simp only [hl, Bool.or_eq_false_iff, decide_eq_false_iff_not] at hg
      simp [hl, hg.1, hg.2] at hc
  | true =>
    have hlookup : ((Transaction.claimAcquire sid path ttl reason force).apply st now).claims.lookup
        p = if p = path then some ⟨path, sid, ttl, now, reason⟩ else liveClaim st.claims now p := by
      rw [Transaction.apply, BusState.claimAcquire_granted hg, BusState.touch_claims,
        Table.lookup_insert, hprune]
    rw [Transaction.takes, hlookup]
    by_cases hp : p = path
    · subst hp
      rw [BusState.grants] at hg
      cases hl : liveClaim st.claims now p with
      | none => simp
      | some d =>
        simp only [hl, Bool.or_eq_true, decide_eq_true_eq] at hg
        by_cases hd : d.sessionId = sid
        · subst hd
          simp
        · obtain rfl : force = true := hg.resolve_left hd
          simp only [Option.any_some, ↓reduceIte, hd, Acquired.granted.injEq, Option.some.injEq,
            Bool.and_eq_true, decide_eq_true_eq, Bool.not_eq_true', decide_eq_false_iff_not,
            true_and, exists_eq_left']
          refine ⟨fun h => h.1, fun h => ⟨h, fun he => hd (h.trans he.symm)⟩⟩
    · rw [if_neg hp]
      simp [hp]

theorem takes_claimRelease (st : BusState) (now : Nat) (sid path : String) :
    Transaction.takes st now p A (.claimRelease sid path) = true ↔
      p = path ∧ A = sid ∧ (st.claimRelease sid path now).2 = true := by
  have hprune : (st.pruneExpiredClaims now).claims.lookup p = liveClaim st.claims now p :=
    lookup_prune st now p
  simp only [Transaction.takes, Transaction.apply, BusState.claimRelease, lookup_prune]
  cases hl : liveClaim st.claims now path with
  | none =>
    simp only [BusState.touch_claims, hprune, Bool.false_eq_true, and_false, iff_false]
    simp
  | some c =>
    dsimp only
    by_cases hc : c.sessionId = sid
    · subst hc
      simp only [↓reduceIte, BusState.touch_claims, Table.lookup_erase, hprune, and_true]
      by_cases hp : p = path
      · subst hp
        simp [hl, eq_comm]
      · simp [hp]
    · simp only [hc, ↓reduceIte, BusState.touch_claims, hprune, Bool.false_eq_true, and_false,
        iff_false]
      simp

theorem takes_other {tr : Transaction} (hc : tr.claimPath = none) (st : BusState) (now : Nat) :
    tr.takes st now p A = false := by
  refine takes_of_kept (fun c hl => ?_)
  have hlookup := (liveClaim_eq_some.mp hl).1
  cases tr with
  | announce d sid pid cwd intent node =>
    simp only [Transaction.apply, BusState.announce]
    split <;> exact hlookup
  | heartbeat sid tool skill prdSlug paths =>
    rw [Transaction.apply, (BusState.heartbeat_frame ..).2]
    exact hlookup
  | claimAcquire => cases hc
  | claimRelease => cases hc
  | claimList => exact (lookup_prune st now p).trans hl
  | disconnect d sid =>
    simp only [Transaction.apply, BusState.disconnect]
    split <;> exact hlookup
  | _ => exact hlookup

def lost (s t : Daemon) (p A : String) : Bool :=
  (liveClaim s.bus.claims t.clock p).any (fun c => decide (c.sessionId = A)) &&
    !(t.bus.claims.lookup p).any (fun c => decide (c.sessionId = A))

/-- The losses of a run of daemon processes: a fresh process has the claims of its journal. -/
def losses (cfg : Config) (fromStr : String → Option ClientMessage) (p A : String) (s : Daemon) :
    Action → List Daemon
  | .boot _ => []
  | a => ((step cfg fromStr s a).filter (fun t => lost s t p A)).toList

/-- The messages a step puts on the channel that are neither published by a client nor come
from another node. -/
def own (cfg : Config) (fromStr : String → Option ClientMessage) (s : Daemon) :
    Action → List BroadcastMsg
  | .uplinkInbound .. => []
  | .line c text now =>
      match s.request fromStr (.line c text now) with
      | some (_, .publish ..) => []
      | _ => s.sends cfg fromStr (.line c text now)
  | a => s.sends cfg fromStr a

/-- A `claim.release` of the path that names the session. -/
def tells (p A : String) (m : BroadcastMsg) : Bool :=
  decide (ClaimEvent.ofMsg m = some (.release p A))

def told (cfg : Config) (fromStr : String → Option ClientMessage) (p A : String) (s : Daemon)
    (a : Action) : List BroadcastMsg :=
  (own cfg fromStr s a).filter (tells p A)

def owes (p A : String) (k : Conn) : Nat := (pendingEvents k.pending).count (.release p A)

def owed (p A : String) (conns : List Conn) : Nat := (conns.map (owes p A)).sum

theorem lost_eq (h : step cfg fromStr s a = some t) (hb : ∀ now, a ≠ .boot now) :
    lost s t p A = (s.transaction cfg fromStr a).any (·.takes s.bus t.clock p A) := by
  obtain ⟨now, rfl⟩ | hbus := step_bus h
  · exact absurd rfl (hb now)
  rw [lost, hbus]
  cases s.transaction cfg fromStr a with
  | some tr => rfl
  | none =>
    cases hl : liveClaim s.bus.claims t.clock p with
    | none => simp
    | some c => simp [BusState.commit, (liveClaim_eq_some.mp hl).1]

theorem losses_length (h : step cfg fromStr s a = some t) (hb : ∀ now, a ≠ .boot now) :
    (losses cfg fromStr p A s a).length =
      ((s.transaction cfg fromStr a).any (·.takes s.bus t.clock p A)).toNat := by
  have hl : losses cfg fromStr p A s a = ((some t).filter (fun t => lost s t p A)).toList := by
    cases a with
    | boot now => exact absurd rfl (hb now)
    | _ => rw [← h]; rfl
  rw [hl, ← lost_eq h hb]
  cases hd : lost s t p A <;> simp [Option.filter, hd]

theorem claimAcquire_accounts (k : Conn) (sid : String) {bus : BusState} (hk : Keyed bus.claims)
    (uplink : UplinkStatus) (sent now : Nat) (path : String) (ttl : Nat) (reason : String)
    (force : Bool) (p A : String) :
    ((handleMessage cfg k sid bus uplink sent now
        (.claimAcquire path ttl reason force)).sent.filter (tells p A)).length +
      owes p A (handleMessage cfg k sid bus uplink sent now
        (.claimAcquire path ttl reason force)).conn =
      (Transaction.takes bus now p A (.claimAcquire sid path ttl reason force)).toNat := by
  have htakes := takes_claimAcquire (p := p) (A := A) bus now ttl sid path reason force
  have quiet (hd : ∀ c, (bus.claimAcquire sid path ttl reason force now).2 ≠ .granted (some c)) :
      Transaction.takes bus now p A (.claimAcquire sid path ttl reason force) = false := by
    rw [Bool.eq_false_iff]
    intro h
    obtain ⟨_, c, hc, _⟩ := htakes.mp h
    exact hd c hc
  rw [handleMessage_claimAcquire]
  cases hd : (bus.claimAcquire sid path ttl reason force now).2 with
  | conflict c =>
    rw [quiet (by rw [hd]; exact nofun)]
    rfl
  | granted evicted =>
    cases evicted with
    | none =>
      rw [quiet (by rw [hd]; exact nofun)]
      rfl
    | some c =>
      have hpath : c.path = path :=
        hk path c (liveClaim_eq_some.mp (BusState.claimAcquire_evicts hd).1).1
      have htold : tells p A (claimReleaseMsg c.path c.sessionId sid) =
          Transaction.takes bus now p A (.claimAcquire sid path ttl reason force) := by
        rw [Bool.eq_iff_iff, htakes, hd, hpath]
        simp only [tells, ofMsg_claimReleaseMsg, decide_eq_true_eq, Option.some.injEq,
          ClaimEvent.release.injEq, Acquired.granted.injEq, exists_eq_left']
        exact and_congr_left' eq_comm
      rw [← htold]
      change ([claimReleaseMsg c.path c.sessionId sid].filter (tells p A)).length + 0 = _
      cases ht : tells p A (claimReleaseMsg c.path c.sessionId sid) <;> simp [ht]

theorem claimRelease_accounts (k : Conn) (sid : String) (bus : BusState) (uplink : UplinkStatus)
    (sent now : Nat) (path p A : String) :
    ((handleMessage cfg k sid bus uplink sent now (.claimRelease path)).sent.filter
        (tells p A)).length +
      owes p A (handleMessage cfg k sid bus uplink sent now (.claimRelease path)).conn =
      (Transaction.takes bus now p A (.claimRelease sid path)).toNat := by
  have htakes := takes_claimRelease (p := p) (A := A) bus now sid path
  simp only [handleMessage, List.filter_nil, List.length_nil, Nat.zero_add, owes]
  cases hd : (bus.claimRelease sid path now).2 with
  | false =>
    rw [hd] at htakes
    have hno : Transaction.takes bus now p A (.claimRelease sid path) ≠ true :=
      fun h => by cases (htakes.mp h).2.2
    rw [Bool.eq_false_iff.mpr hno]
    rfl
  | true =>
    have htakes : Transaction.takes bus now p A (.claimRelease sid path) =
        decide (ClaimEvent.release path sid = .release p A) := by
      rw [Bool.eq_iff_iff, htakes, hd]
      simp only [and_true, decide_eq_true_eq, ClaimEvent.release.injEq]
      exact and_congr eq_comm eq_comm
    rw [htakes]
    change [ClaimEvent.release path sid].count (.release p A) = _
    by_cases he : ClaimEvent.release path sid = .release p A
    · simp [he]
    · rw [List.count_eq_zero_of_not_mem (by simpa using Ne.symm he)]
      simp [he]

theorem handleMessage_accounts (k : Conn) (sid : String) {bus : BusState} (hk : Keyed bus.claims)
    (uplink : UplinkStatus) (sent now : Nat) {msg : ClientMessage}
    (hpub : ∀ topic data, msg ≠ .publish topic data) (p A : String) :
    ((handleMessage cfg k sid bus uplink sent now msg).sent.filter (tells p A)).length +
        owes p A (handleMessage cfg k sid bus uplink sent now msg).conn =
      ((msg.transaction cfg sid).any (·.takes bus now p A)).toNat := by
  have quiet {tr : Transaction} (hc : tr.claimPath = none) :
      (some tr).any (·.takes bus now p A) = false := takes_other hc bus now
  cases msg with
  | claimAcquire path ttl reason force => exact claimAcquire_accounts k sid hk ..
  | claimRelease path => exact claimRelease_accounts k sid bus ..
  | publish topic data => exact absurd rfl (hpub topic data)
  | heartbeat tool skill prdSlug paths =>
    simp only [handleMessage, ClientMessage.transaction]
    split
    · rfl
    · rw [quiet rfl]
      dsimp only
      split <;> rfl
  | update cwd intent =>
    rw [ClientMessage.transaction, quiet rfl]
    rfl
  | peers =>
    rw [ClientMessage.transaction, quiet rfl]
    rfl
  | claimList =>
    rw [ClientMessage.transaction, quiet rfl]
    rfl
  | _ => rfl

theorem length_filter_tells (p A : String) (l : List BroadcastMsg) :
    (l.filter (tells p A)).length = (l.filterMap ClaimEvent.ofMsg).count (.release p A) := by
  rw [← List.countP_eq_length_filter, List.count_filterMap]
  refine List.countP_congr (fun m _ => ?_)
  simp [tells]

theorem owed_set {conns : List Conn} {c : Nat} {k : Conn} (hk : conns[c]? = some k) (k' : Conn) :
    owed p A (conns.set c k') + owes p A k = owed p A conns + owes p A k' :=
  sum_map_set hk k' (owes p A)

theorem owes_idle {k : Conn} (hi : k.idle = true) : owes p A k = 0 := by
  rw [owes, (Conn.idle_iff.mp hi).2]
  rfl

theorem own_line {c now : Nat} {text : String} {k : Conn} (hk : s.conns[c]? = some k)
    (hpub : ∀ o topic data, s.request fromStr (.line c text now) ≠ some (o, .publish topic data)) :
    own cfg fromStr s (.line c text now) =
      (handleLine cfg fromStr k c s.bus s.uplinkStatus s.log.length now text).sent := by
  have hsends : s.sends cfg fromStr (.line c text now) =
      (handleLine cfg fromStr k c s.bus s.uplinkStatus s.log.length now text).sent := by
    simp only [sends, hk]
  rw [← hsends, own]
  split
  · rename_i o topic data h
    exact absurd h (hpub o topic data)
  · rfl

theorem handleFirst_accounts (k : Conn) (c : Nat) (bus : BusState) (now : Nat)
    (msg : ClientMessage) (p A : String) :
    (handleFirst k c bus now msg).sent = [] ∧ owes p A (handleFirst k c bus now msg).conn = 0 := by
  cases msg <;> exact ⟨rfl, rfl⟩

theorem handleLine_accounts (hkeyed : Keyed s.bus.claims) {c now : Nat} {text : String} {k : Conn}
    (hk : s.conns[c]? = some k) (hi : k.idle = true)
    (h : step cfg fromStr s (.line c text now) = some t) :
    (told cfg fromStr p A s (.line c text now)).length +
        owes p A (handleLine cfg fromStr k c s.bus s.uplinkStatus s.log.length now text).conn =
      ((s.transaction cfg fromStr (.line c text now)).any
        (·.takes s.bus now p A)).toNat := by
  cases hreq : s.request fromStr (.line c text now) with
  | none =>
    rw [told, own_line hk (fun o topic data => by rw [hreq]; exact nofun), transaction, hreq]
    simp only [request, hk, Option.bind_eq_bind, Option.bind_some] at hreq
    unfold handleLine
    split
    · exact (Nat.zero_add _).trans (owes_idle hi)
    · rename_i he
      rw [if_neg he] at hreq
      cases hm : fromStr (trim text) with
      | none => rfl
      | some msg =>
        rw [hm] at hreq
        cases hreq
  | some om =>
    obtain ⟨o, msg⟩ := om
    obtain ⟨k₀, hk₀, _, _, hline, _⟩ := step_request h hreq
    obtain rfl : k = k₀ := Option.some.inj (hk.symm.trans hk₀)
    by_cases hpub : ∃ topic data, msg = .publish topic data
    · obtain ⟨topic, data, rfl⟩ := hpub
      rw [hline, transaction, told, own, hreq]
      cases o <;> rfl
    · have hpub : ∀ topic data, msg ≠ .publish topic data := fun topic data he =>
        hpub ⟨topic, data, he⟩
      rw [told, own_line hk (fun o topic data he => by
        rw [hreq] at he; cases he; exact hpub topic data rfl), hline, transaction, hreq]
      cases o with
      | none =>
        obtain ⟨hsent, howes⟩ := handleFirst_accounts k c s.bus now msg p A
        rw [Option.elim_none, hsent, howes]
        cases msg with
        | announce => rw [Option.any_some, takes_other rfl]; rfl
        | _ => rfl
      | some sid => exact handleMessage_accounts k sid hkeyed _ _ now hpub p A

theorem line_accounts (hkeyed : Keyed s.bus.claims) {c now : Nat} {text : String}
    (h : step cfg fromStr s (.line c text now) = some t) :
    (losses cfg fromStr p A s (.line c text now)).length + owed p A s.conns =
      (told cfg fromStr p A s (.line c text now)).length + owed p A t.conns := by
  rw [losses_length h nofun]
  obtain ⟨k, hk, ⟨hi, _⟩, ht⟩ := step_line.mp h
  have hset := owed_set (p := p) (A := A) hk
    (handleLine cfg fromStr k c s.bus s.uplinkStatus s.log.length now text).conn
  have hline := handleLine_accounts (p := p) (A := A) hkeyed hk hi h
  rw [owes_idle hi] at hset
  subst ht
  simp only [takeLine] at hset ⊢
  omega

theorem task_accounts (ho : Orderly s) {c : Nat} (h : step cfg fromStr s a = some t)
    (hc : a.conn = some c) (hl : ∀ text now, a ≠ .line c text now) :
    (losses cfg fromStr p A s a).length + owed p A s.conns =
      (told cfg fromStr p A s a).length + owed p A t.conns := by
  obtain ⟨k, k', hk, hconns, hs⟩ := step_task h hc
  have hevents := pendingEvents_task hk (ho.2 c k hk) hs hc hl
  have howes : owes p A k = (told cfg fromStr p A s a).length + owes p A k' := by
    rw [owes, hevents, List.count_append, ← length_filter_tells]
    congr 2
    cases a with
    | line d text now => cases hc; exact absurd rfl (hl text now)
    | _ => first | rfl | cases hc
  have hset := owed_set (p := p) (A := A) hk k'
  have hloss : (losses cfg fromStr p A s a).length = 0 := by
    rw [losses_length h (fun now he => by rw [he] at hc; cases hc)]
    cases htr : s.transaction cfg fromStr a with
    | none => rfl
    | some tr =>
      cases transaction_section htr with
      | first => cases hc; exact absurd rfl (hl _ _)
      | message => cases hc; exact absurd rfl (hl _ _)
      | touch => rw [Option.any_some, takes_other rfl]; rfl
      | cleanup => rw [Option.any_some, takes_other rfl]; rfl
  rw [hconns, hloss]
  omega

theorem step_accounts (ho : Orderly s) (h : step cfg fromStr s a = some t)
    (hb : ∀ now, a ≠ .boot now) :
    (losses cfg fromStr p A s a).length + owed p A s.conns =
      (told cfg fromStr p A s a).length + owed p A t.conns := by
  by_cases hc : ∃ c, a.conn = some c
  · obtain ⟨c, hc⟩ := hc
    by_cases hl : ∃ text now, a = .line c text now
    · obtain ⟨text, now, rfl⟩ := hl
      exact line_accounts ho.1 h
    · exact task_accounts ho h hc (fun text now he => hl ⟨text, now, he⟩)
  have htr : s.transaction cfg fromStr a = none := by
    cases htr : s.transaction cfg fromStr a with
    | none => rfl
    | some tr => cases transaction_section htr <;> exact absurd ⟨_, rfl⟩ hc
  rw [losses_length h hb, htr]
  cases a with
  | line c | hangup c | event c | drain c | proceed c | abort c => exact absurd ⟨c, rfl⟩ hc
  | connect =>
    obtain ⟨_, rfl⟩ := step_connect.mp h
    simp [owed, told, own, sends, owes, Conn.fresh, pendingEvents]
  | uplinkInbound topic data origin =>
    obtain ⟨_, rfl⟩ := step_uplinkInbound.mp h
    rfl
  | presenceSend now =>
    obtain ⟨q, qs, hq, _, rfl⟩ := step_presenceSend.mp h
    simp only [told, own, sends, hq, List.head?_cons, Option.map_some, Option.toList_some]
    rfl
  | boot now => exact absurd rfl (hb now)
  | _ =>
    rw [(step_internal h rfl).2.2.1]
    rfl

/-- A task that is no longer running has told every loss. -/
def Settled (k : Conn) : Prop :=
  Prompt k.pending ∧ (k.status ≠ .running → pendingEvents k.pending = [])

theorem settled_conn (hkeyed : Keyed s.bus.claims) {c : Nat} {k k' : Conn} (hs : Settled k)
    (h : ConnStep cfg fromStr s c k a k') : Settled k' := by
  refine ⟨prompt_conn hkeyed hs.1 h, fun hr => ?_⟩
  have running (hi : k.idle = true) : k.status = .running := (Conn.idle_iff.mp hi).1
  cases h with
  | other => exact hs.2 hr
  | @line text now hi =>
    rw [(handleLine_conn cfg fromStr k c s.bus s.uplinkStatus s.log.length now text).1] at hr
    exact absurd (running hi) hr
  | hangup hi => exact absurd (running hi) hr
  | lag hi => exact absurd (running hi) hr
  | event hi => exact absurd (running hi) hr
  | drain hi => exact absurd (running hi) hr
  | @proceed e es now ok hes hrun =>
    have hp := hs.1
    rw [hes] at hp
    cases e with
    | write l =>
      cases ok with
      | true => exact absurd hrun hr
      | false => rfl
    | writeNotice n => cases ok <;> exact absurd hrun hr
    | bail => rfl
    | cleanup => exact hp.last nofun nofun
    | _ => exact absurd hrun hr
  | abort => rfl

def Speaks (e : Effect) : Prop := ∀ m, e = .broadcast m → (ClaimEvent.ofMsg m).isSome = true

theorem handleMessage_speaks (k : Conn) (sid : String) (bus : BusState) (uplink : UplinkStatus)
    (sent now : Nat) (msg : ClientMessage) :
    (∀ e ∈ (handleMessage cfg k sid bus uplink sent now msg).conn.pending, Speaks e) ∧
      ((∀ topic data, msg ≠ .publish topic data) →
        ∀ m ∈ (handleMessage cfg k sid bus uplink sent now msg).sent,
          (ClaimEvent.ofMsg m).isSome = true) := by
  cases msg with
  | publish topic data =>
    exact ⟨by simp [handleMessage, Speaks], fun h => absurd rfl (h topic data)⟩
  | claimAcquire path ttl reason force =>
    rw [handleMessage_claimAcquire]
    cases (bus.claimAcquire sid path ttl reason force now).2 with
    | conflict c => simp [answer, Speaks]
    | granted evicted => cases evicted <;> simp [Speaks]
  | claimRelease path =>
    simp only [handleMessage]
    cases (bus.claimRelease sid path now).2 <;> simp [Speaks]
  | heartbeat tool skill prdSlug paths =>
    simp only [handleMessage]
    split
    · simp [answer, Speaks]
    · cases (bus.heartbeat sid tool skill prdSlug paths now).2 <;> simp [Speaks]
  | _ => simp [handleMessage, answer, Speaks]

theorem handleLine_speaks {k : Conn} (hp : k.pending = []) (c : Nat) (bus : BusState)
    (uplink : UplinkStatus) (sent now : Nat) (text : String) :
    ∀ e ∈ (handleLine cfg fromStr k c bus uplink sent now text).conn.pending, Speaks e := by
  unfold handleLine
  split
  · simp [hp]
  · split
    · simp [Speaks]
    · rename_i msg _
      split
      · cases msg <;> simp [handleFirst, answer, Speaks]
      · exact (handleMessage_speaks ..).1

structure Accountable (s : Daemon) : Prop where
  filed : Filed s
  settled : ∀ (c : Nat) (k : Conn), s.conns[c]? = some k → Settled k
  joined : s.main.uplinkAlive = false →
    ∀ (c : Nat) (k : Conn), s.conns[c]? = some k → k.status ≠ .running
  speaks : ∀ (c : Nat) (k : Conn), s.conns[c]? = some k → ∀ e ∈ k.pending, Speaks e

theorem accountable_start {file : DurableState} (hfile : Keyed file.claims)
    (log : List BroadcastMsg) (now : Nat) : Accountable (start file log now) :=
  ⟨filed_start hfile log now, fun _ _ hk => (nomatch hk), nofun, fun _ _ hk => (nomatch hk)⟩

theorem accountable_step (hs : Accountable s) (h : step cfg fromStr s a = some t) :
    Accountable t where
  filed := filed_step hs.filed h
  settled := conn_invariant ⟨Or.inl rfl, fun _ => rfl⟩
    (fun _ _ _ hk hc => settled_conn hs.filed.orderly.1 hk hc) h hs.settled
  joined := joined_step h hs.joined
  speaks := by
    refine pending_invariant (Q := fun _ e => Speaks e) (fun _ _ => nofun) (fun _ _ => nofun)
      (fun _ => nofun) ?_ hs.speaks h
    intro c k text now _ hi
    exact handleLine_speaks (Conn.idle_iff.mp hi).2 c _ _ _ now text

theorem Accountable.owed_stopped (hs : Accountable s) (hm : s.main = .stopped) :
    owed p A s.conns = 0 := by
  have hzero : s.conns.map (owes p A) = s.conns.map (fun _ => 0) := by
    refine List.map_congr_left (fun k hk => ?_)
    obtain ⟨c, hc⟩ := List.mem_iff_getElem?.mp hk
    rw [owes, (hs.settled c k hc).2 (hs.joined (by rw [hm]; rfl) c k hc)]
    rfl
  rw [owed, hzero]
  simp

theorem Accountable.owes_next (hs : Accountable s) {c : Nat} {k : Conn}
    (hk : s.conns[c]? = some k) (ho : owes p A k ≠ 0) :
    k.status = .running ∧ ∃ m es, tells p A m = true ∧
      (k.pending = .broadcast m :: es ∨ k.pending = .signal :: .broadcast m :: es) := by
  have hne : pendingEvents k.pending ≠ [] := by
    intro he
    rw [owes, he] at ho
    exact ho rfl
  obtain ⟨hp, hr⟩ := hs.settled c k hk
  refine ⟨by_contra (fun hn => hne (hr hn)), ?_⟩
  have tell {m : BroadcastMsg} {es : List Effect}
      (he : pendingEvents k.pending = pendingEvents (.broadcast m :: es))
      (hes : pendingEvents es = []) : tells p A m = true := by
    by_contra hm
    refine ho ?_
    have hm : ClaimEvent.ofMsg m ≠ some (.release p A) := by simpa [tells] using hm
    rw [owes, he]
    cases hev : ClaimEvent.ofMsg m with
    | none => simpa [pendingEvents, hev] using congrArg (List.count (.release p A)) hes
    | some ev =>
      have hcons : pendingEvents (.broadcast m :: es) = [ev] := by
        rw [← congrArg (List.cons ev) hes]
        simp [pendingEvents, hev]
      rw [hcons, List.count_eq_zero]
      simp only [List.mem_singleton]
      rintro rfl
      exact hm hev
  obtain he | ⟨m, es, he, hes⟩ | ⟨m, es, he, hes⟩ := hp
  · exact absurd he hne
  · exact ⟨m, es, tell (by rw [he]) hes, Or.inl he⟩
  · exact ⟨m, es, tell (by rw [he]; rfl) hes, Or.inr he⟩

theorem accountable_run {file : DurableState} (hfile : Keyed file.claims)
    {log : List BroadcastMsg} {now : Nat} {as : List Action}
    (ht : run (step cfg fromStr) (start file log now) as = some t) : Accountable t :=
  run_invariant (fun _ _ _ hs h => accountable_step hs h) ht (accountable_start hfile log now)

theorem accounts_balance (hs : Accountable s) (h : step cfg fromStr s a = some t) :
    (losses cfg fromStr p A s a).length + owed p A s.conns =
      (told cfg fromStr p A s a).length + owed p A t.conns := by
  by_cases hb : ∃ now, a = .boot now
  · obtain ⟨now, rfl⟩ := hb
    obtain ⟨hm, _, rfl⟩ := step_boot.mp h
    rw [hs.owed_stopped hm]
    rfl
  · exact step_accounts hs.filed.orderly h (fun now he => hb ⟨now, he⟩)

theorem tells_of_topic {m : BroadcastMsg} (hev : (ClaimEvent.ofMsg m).isSome = true)
    (ht : m.topic = "claim.release") : ∃ p A, tells p A m = true := by
  obtain ⟨ev, hev⟩ := Option.isSome_iff_exists.mp hev
  have hof := hev
  simp only [ClaimEvent.ofMsg, ht, Option.bind_eq_bind, Option.bind_eq_some_iff] at hof
  obtain ⟨_, _, path, _, _, _, sid, _, hof⟩ := hof
  rw [if_neg (by decide), if_pos trivial] at hof
  cases hof
  exact ⟨path, sid, by rw [tells, hev, decide_eq_true_eq]⟩

theorem own_release (hs : Accountable s) (h : step cfg fromStr s a = some t) {m : BroadcastMsg}
    (hm : m ∈ own cfg fromStr s a) (ht : m.topic = "claim.release") :
    ∃ p A, tells p A m = true := by
  refine tells_of_topic ?_ ht
  cases a with
  | line c text now =>
    obtain ⟨k, hk, _⟩ := step_line.mp h
    rw [own] at hm
    split at hm
    · cases hm
    · rename_i hpub
      simp only [sends, hk, handleLine] at hm
      split at hm
      · cases hm
      · rename_i he
        split at hm
        · cases hm
        · rename_i msg hmsg
          cases hsid : k.sessionId with
          | none =>
            rw [hsid] at hm
            cases msg <;> cases hm
          | some sid =>
            rw [hsid] at hm
            refine (handleMessage_speaks k sid s.bus _ _ now msg).2 (fun topic data hp => ?_) m hm
            refine hpub (some sid) topic data ?_
            simp [request, hk, he, hmsg, hsid, hp]
  | proceed c now ok =>
    obtain ⟨k, e, es, hk, hp, _, rfl⟩ := step_proceed.mp h
    simp only [own, sends, hk, hp] at hm
    cases e with
    | broadcast m' =>
      obtain rfl := List.mem_singleton.mp hm
      exact hs.speaks c k hk _ (by rw [hp]; exact List.mem_cons_self) _ rfl
    | _ => cases hm
  | presenceSend now =>
    obtain ⟨q, _, hq, _, rfl⟩ := step_presenceSend.mp h
    simp only [own, sends, hq, List.head?_cons, Option.map_some, Option.toList_some] at hm
    obtain rfl := List.mem_singleton.mp hm
    exact absurd (show fleetPresenceSubjectAnnounce = "claim.release" from ht) (by decide)
  | _ => cases hm

theorem evicts_in_order (hkeyed : Keyed s.bus.claims) {c now ttl : Nat}
    {text sid path reason : String} {force : Bool}
    (h : step cfg fromStr s (.line c text now) = some t)
    (htr : s.transaction cfg fromStr (.line c text now) =
      some (.claimAcquire sid path ttl reason force)) (hl : lost s t p A = true) :
    p = path ∧ A ≠ sid ∧ force = true ∧ t.log = s.log ++ [claimReleaseMsg p A sid] ∧
      ∃ k es, t.conns[c]? = some k ∧ k.status = .running ∧
        k.pending = .signal :: .broadcast (claimAcquireMsg p sid ttl reason) :: es := by
  have hclock : t.clock = now := clock_of_transaction h htr
  rw [lost_eq h nofun, htr, Option.any_some, takes_claimAcquire, hclock] at hl
  obtain ⟨rfl, e, hd, rfl⟩ := hl
  obtain ⟨hlive, hne, hforce⟩ := BusState.claimAcquire_evicts hd
  have hpath : e.path = p := hkeyed p e (liveClaim_eq_some.mp hlive).1
  cases transaction_section htr with
  | @message _ _ _ k sid' msg _ hk hs ht hm htm =>
    obtain ⟨rfl, rfl⟩ := ClientMessage.transaction_claimAcquire htm
    have hline : handleLine cfg fromStr k c s.bus s.uplinkStatus s.log.length now text =
        handleMessage cfg k sid s.bus s.uplinkStatus s.log.length now
          (.claimAcquire p ttl reason force) := by
      simp [handleLine, ht, hm, hs]
    rw [handleMessage_claimAcquire, hd] at hline
    obtain ⟨k₀, hk₀, ⟨hi, _⟩, rfl⟩ := step_line.mp h
    obtain rfl : k = k₀ := Option.some.inj (hk.symm.trans hk₀)
    rw [takeLine, hline]
    dsimp only
    rw [Option.map_some, Option.toList_some, hpath]
    exact ⟨rfl, hne, hforce, rfl, _, _, getElem?_set_conn hk _, (Conn.idle_iff.mp hi).1, rfl⟩

/-- In every run, over restarts too, the daemon tells one release for each loss of an unexpired
claim: it has told as many as there were losses, less those that a task is about to tell. Under
`claim.release` it tells nothing else, and it tells the release of an evicted holder before the
acquire that evicts it. -/
theorem losses_announced_once (cfg : Config) (fromStr : String → Option ClientMessage)
    (file : DurableState) (hfile : Keyed file.claims) (log : List BroadcastMsg) (now : Nat)
    (as : List Action) (t : Daemon)
    (ht : run (step cfg fromStr) (start file log now) as = some t) :
    (∀ p A, (trace (step cfg fromStr) (losses cfg fromStr p A) (start file log now) as).length =
      (trace (step cfg fromStr) (told cfg fromStr p A) (start file log now) as).length +
        owed p A t.conns) ∧
    (∀ (p A : String) (c : Nat) (k : Conn), t.conns[c]? = some k → owes p A k ≠ 0 →
      k.status = .running ∧
      ∃ m es, tells p A m = true ∧
        (k.pending = .broadcast m :: es ∨ k.pending = .signal :: .broadcast m :: es)) ∧
    (∀ m ∈ trace (step cfg fromStr) (own cfg fromStr) (start file log now) as,
      m.topic = "claim.release" → ∃ p A, tells p A m = true) ∧
    ∀ c text at' sid path ttl reason force u p A,
      step cfg fromStr t (.line c text at') = some u →
      t.transaction cfg fromStr (.line c text at') =
        some (.claimAcquire sid path ttl reason force) → lost t u p A = true →
      p = path ∧ A ≠ sid ∧ force = true ∧ u.log = t.log ++ [claimReleaseMsg p A sid] ∧
        ∃ k es, u.conns[c]? = some k ∧ k.status = .running ∧
          k.pending = .signal :: .broadcast (claimAcquireMsg p sid ttl reason) :: es := by
  have hacc : Accountable t := accountable_run hfile ht
  refine ⟨fun p A => ?_, fun p A c k hk ho => hacc.owes_next hk ho, fun m hm htopic => ?_,
    fun c text at' sid path ttl reason force u p A h htr hl =>
      evicts_in_order hacc.filed.orderly.1 h htr hl⟩
  · exact run_balance (losses cfg fromStr p A) (told cfg fromStr p A)
      (fun u : Daemon => owed p A u.conns)
      (fun _ _ _ hs h => accountable_step hs h) (fun _ _ _ hs h => accounts_balance hs h) ht
      (accountable_start hfile log now)
  · obtain ⟨bs, b, cs, u, v, rfl, hu, hv, hm⟩ := mem_trace hm
    exact own_release (accountable_run hfile hu) hv hm htopic

theorem losses_announced_once_force :
    ∃ t, run (step rivalConfig rivalLines) (start .default [] 0) (rivalActions ++
        [.line 0 acquireLine 2, .proceed 0 2 true, .proceed 0 2 true, .proceed 0 2 true,
          .line 1 forceLine 3]) = some t ∧
      (trace (step rivalConfig rivalLines) (told rivalConfig rivalLines "/x" "s1")
        (start .default [] 0) (rivalActions ++ [.line 0 acquireLine 2, .proceed 0 2 true,
          .proceed 0 2 true, .proceed 0 2 true, .line 1 forceLine 3])).length = 1 ∧
      (trace (step rivalConfig rivalLines) (losses rivalConfig rivalLines "/x" "s1")
        (start .default [] 0) (rivalActions ++ [.line 0 acquireLine 2, .proceed 0 2 true,
          .proceed 0 2 true, .proceed 0 2 true, .line 1 forceLine 3])).length =
        1 + owed "/x" "s1" t.conns := by
  let as : List Action := rivalActions ++ [.line 0 acquireLine 2, .proceed 0 2 true,
    .proceed 0 2 true, .proceed 0 2 true, .line 1 forceLine 3]
  obtain ⟨hsome, htold⟩ :
      (run (step rivalConfig rivalLines) (start .default [] 0) as).isSome = true ∧
      (trace (step rivalConfig rivalLines) (told rivalConfig rivalLines "/x" "s1")
        (start .default [] 0) as).length = 1 := by decide +kernel
  obtain ⟨t, ht⟩ := Option.isSome_iff_exists.mp hsome
  have hkeyed : Keyed DurableState.default.claims := fun p c hc => (by cases hc)
  refine ⟨t, ht, htold, ?_⟩
  have hlost := (losses_announced_once rivalConfig rivalLines .default hkeyed [] 0 as t ht).1
    "/x" "s1"
  rwa [htold] at hlost

end ClaimLosses

end Agorabus
