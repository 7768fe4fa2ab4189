import Agorabus.Activity
import Agorabus.FleetView

namespace Agorabus

/-- The session whose record the lock section stamps with its time. -/
def Transaction.refreshes (st : BusState) (now : Nat) : Transaction → Option String
  | .announce _ sid .. => if sid ∈ st.peerOwners then none else some sid
  | .update sid .. | .heartbeat sid .. | .touch sid | .claimRelease sid _ => some sid
  | .claimAcquire sid path _ _ force => if st.grants now sid path force then some sid else none
  | .peers _ | .claimList | .disconnect .. => none

theorem BusState.lastHeard_refreshes {st : BusState} {now : Nat} {tr : Transaction} {j : String}
    {m : Nat} (h : (tr.apply st now).lastHeard j = some m) :
    (tr.refreshes st now = some j ∧ m = now) ∨
      (tr.refreshes st now ≠ some j ∧ st.lastHeard j = some m) := by
  rw [BusState.lastHeard_apply] at h
  have stamped {sid : String}
      (h : (if j = sid then (st.lastHeard j).map (fun _ => now) else st.lastHeard j) = some m) :
      (some sid = some j ∧ m = now) ∨ (some sid ≠ some j ∧ st.lastHeard j = some m) := by
    split at h
    · rename_i hj
      obtain ⟨_, _, rfl⟩ := Option.map_eq_some_iff.mp h
      exact Or.inl ⟨congrArg some hj.symm, rfl⟩
    · rename_i hj
      exact Or.inr ⟨fun he => hj (Option.some.inj he).symm, h⟩
  cases tr with
  | announce c sid pid cwd intent node =>
    simp only [Transaction.refreshes]
    dsimp only at h
    by_cases ho : sid ∈ st.peerOwners
    · rw [if_neg (fun hj => hj.2 ho)] at h
      rw [if_pos ho]
      exact Or.inr ⟨nofun, h⟩
    · rw [if_neg ho]
      by_cases hj : j = sid
      · rw [if_pos ⟨hj, ho⟩] at h
        exact Or.inl ⟨congrArg some hj.symm, (Option.some.inj h).symm⟩
      · rw [if_neg (fun hn => hj hn.1)] at h
        exact Or.inr ⟨fun he => hj (Option.some.inj he).symm, h⟩
  | update | heartbeat | touch | claimRelease => exact stamped h
  | claimAcquire sid path ttl reason force =>
    simp only [Transaction.refreshes]
    cases hg : st.grants now sid path force with
    | false =>
      simp only [hg, Bool.false_eq_true, and_false, ↓reduceIte] at h
      exact Or.inr ⟨nofun, h⟩
    | true =>
      simp only [hg, and_true] at h
      exact stamped h
  | peers timeout => exact Or.inr ⟨nofun, (Option.filter_eq_some_iff.mp h).1⟩
  | claimList => exact Or.inr ⟨nofun, h⟩
  | disconnect c sid =>
    dsimp only at h
    split at h
    · cases h
    · exact Or.inr ⟨nofun, h⟩

namespace Presence

open Daemon StepSystem FleetView

variable {cfg : Config} {fromStr : String → Option ClientMessage} {s t : Daemon} {a : Action}

/-- A session that the broadcaster announces has a record which a `Peers` query would list. -/
def Vouched (cfg : Config) (s : Daemon) (a : Action) : Prop :=
  ∀ now p ps, a = .presenceSend now → s.presence = p :: ps →
    ∃ r, s.bus.peers.lookup p.sessionId = some r ∧
      now - r.lastHeartbeatUnixSecs ≤ cfg.heartbeatTimeoutSecs

def refreshing (cfg : Config) (fromStr : String → Option ClientMessage) (s : Daemon)
    (a : Action) : List (String × Nat) :=
  (((s.transaction cfg fromStr a).bind (·.refreshes s.bus a.time)).map
    (fun sid => (sid, a.time))).toList

def announcing (cfg : Config) (s : Daemon) : Action → List (BroadcastMsg × Nat)
  | .presenceSend now => (s.presence.head?.map (fun p => (presenceMsg cfg p now, now))).toList
  | _ => []

/-- Whenever the broadcaster announces a session, a message of it has come within the timeout and
its record has not been removed since. -/
def HeardInTime (cfg : Config) (fromStr : String → Option ClientMessage) (s : Daemon)
    (as : List Action) : Prop :=
  AlongHistory (step cfg fromStr) (refreshing cfg fromStr)
    (fun heard u a => ∀ now p ps, a = .presenceSend now → u.presence = p :: ps →
      p.sessionId ∈ u.bus.peers ∧
        ∃ n, (p.sessionId, n) ∈ heard ∧ now - n ≤ cfg.heartbeatTimeoutSecs) s as

def Dated (s : Daemon) (heard : List (String × Nat)) : Prop :=
  (∀ sid n, (sid, n) ∈ heard → n ≤ s.clock) ∧
    ∀ sid m, s.bus.lastHeard sid = some m →
      (sid, m) ∈ heard ∧ ∀ n, (sid, n) ∈ heard → n ≤ m

theorem dated_step {heard : List (String × Nat)} (hd : Dated s heard)
    (h : step cfg fromStr s a = some t) : Dated t (heard ++ refreshing cfg fromStr s a) := by
  have hclock := step_clock h
  obtain ⟨now, rfl⟩ | hbus := step_bus h
  · obtain ⟨_, _, rfl⟩ := step_boot.mp h
    refine ⟨fun sid n hn => ?_, nofun⟩
    obtain hn | hn := List.mem_append.mp hn
    · exact (hd.1 sid n hn).trans hclock
    · cases hn
  cases htr : s.transaction cfg fromStr a with
  | none =>
    rw [htr] at hbus
    have hnil : refreshing cfg fromStr s a = [] := by simp [refreshing, htr]
    rw [hnil, List.append_nil]
    refine ⟨fun sid n hn => (hd.1 sid n hn).trans hclock, fun sid m hm => hd.2 sid m ?_⟩
    rwa [hbus] at hm
  | some tr =>
    have htime : t.clock = a.time := clock_of_transaction h htr
    have hmem (sid : String) (n : Nat) : (sid, n) ∈ refreshing cfg fromStr s a ↔
        tr.refreshes s.bus t.clock = some sid ∧ n = t.clock := by
      simp [refreshing, htr, htime, eq_comm]
    refine ⟨fun sid n hn => ?_, fun sid m hm => ?_⟩
    · obtain hn | hn := List.mem_append.mp hn
      · exact (hd.1 sid n hn).trans hclock
      · exact ((hmem sid n).mp hn).2.le
    · rw [hbus, htr] at hm
      obtain ⟨hr, rfl⟩ | ⟨hr, hm⟩ := BusState.lastHeard_refreshes hm
      · refine ⟨List.mem_append_right _ ((hmem sid _).mpr ⟨hr, rfl⟩), fun n hn => ?_⟩
        obtain hn | hn := List.mem_append.mp hn
        · exact (hd.1 sid n hn).trans hclock
        · exact ((hmem sid n).mp hn).2.le
      · obtain ⟨hin, hmax⟩ := hd.2 sid m hm
        refine ⟨List.mem_append_left _ hin, fun n hn => ?_⟩
        obtain hn | hn := List.mem_append.mp hn
        · exact hmax n hn
        · exact absurd ((hmem sid n).mp hn).1 hr

theorem dated_start (file : DurableState) (log : List BroadcastMsg) (now : Nat) :
    Dated (start file log now) [] := ⟨nofun, nofun⟩

theorem vouched_iff {heard : List (String × Nat)} (hd : Dated s heard) :
    Vouched cfg s a ↔ ∀ now p ps, a = .presenceSend now → s.presence = p :: ps →
      p.sessionId ∈ s.bus.peers ∧
        ∃ n, (p.sessionId, n) ∈ heard ∧ now - n ≤ cfg.heartbeatTimeoutSecs := by
  have last {sid : String} {r : PeerRecord} (hr : s.bus.peers.lookup sid = some r) :
      s.bus.lastHeard sid = some r.lastHeartbeatUnixSecs := by rw [BusState.lastHeard, hr]; rfl
  constructor
  · intro h now p ps ha hp
    obtain ⟨r, hr, hle⟩ := h now p ps ha hp
    have hin : p.sessionId ∈ s.bus.peers := (Table.mem_iff_lookup _ _).mpr (by simp [hr])
    refine ⟨hin, r.lastHeartbeatUnixSecs, ?_, hle⟩
    exact (hd.2 _ _ (last hr)).1
  · intro h now p ps ha hp
    obtain ⟨hin, n, hn, hle⟩ := h now p ps ha hp
    obtain ⟨r, hr⟩ := Option.ne_none_iff_exists'.mp ((Table.mem_iff_lookup _ _).mp hin)
    have hmax : n ≤ r.lastHeartbeatUnixSecs := (hd.2 _ _ (last hr)).2 n hn
    exact ⟨r, hr, by omega⟩

theorem announces_presenceMsg {p : PeerRecord} {now : Nat} {n sid : String}
    (h : announces n sid (presenceMsg cfg p now).toEvent = true) :
    cfg.node = n ∧ p.sessionId = sid := by
  have hv : FleetPresenceEvent.fromValue (presenceMsg cfg p now).toEvent.data =
      if p.pid < 2 ^ 32 ∧ now < 2 ^ 64 then
        some ⟨p.sessionId, p.pid, p.cwd, cfg.node, now⟩ else none := rfl
  rw [announces, hv] at h
  split at h
  · simpa using (Bool.and_eq_true_iff.mp h).2
  · simp at h

theorem announces_congr {e e' : ServerEvent} (ht : e.topic = e'.topic) (hd : e.data = e'.data)
    (n sid : String) : announces n sid e = announces n sid e' := by
  rw [announces, announces, ht, hd]

theorem announced_by_timeout {as : List Action} (h : HeardInTime cfg fromStr s as) {sid : String}
    {last : Nat} (hlast : ∀ n, (sid, n) ∈ trace (step cfg fromStr) (refreshing cfg fromStr) s as →
      n ≤ last) {m : BroadcastMsg} {now : Nat}
    (hm : (m, now) ∈ trace (step cfg fromStr) (fun s a => announcing cfg s a) s as)
    (ha : announces cfg.node sid m.toEvent = true) : now ≤ last + cfg.heartbeatTimeoutSecs := by
  obtain ⟨bs, a, cs, u, t, rfl, hu, ht, hm⟩ := mem_trace hm
  cases a with
  | presenceSend now' =>
    obtain ⟨p, ps, hp, _, rfl⟩ := step_presenceSend.mp ht
    simp only [announcing, hp, List.head?_cons, Option.map_some, Option.toList_some,
      List.mem_singleton, Prod.mk.injEq] at hm
    obtain ⟨rfl, rfl⟩ := hm
    obtain ⟨_, rfl⟩ := announces_presenceMsg ha
    obtain ⟨_, n, hn, hle⟩ := h bs _ cs u _ rfl hu ht now p ps rfl hp
    have hin : (p.sessionId, n) ∈ trace (step cfg fromStr) (refreshing cfg fromStr) s
        (bs ++ .presenceSend now :: cs) := by
      rw [trace_append, hu]
      exact List.mem_append_left _ hn
    have := hlast n hin
    omega
  | _ => cases hm

theorem not_listed {events : List (ServerEvent × Nat)} {n sid : String} {last ttlSecs now : Nat}
    (h : ∀ e ∈ events, announces n sid e.1 = true → e.2 ≤ last) (hlate : last + ttlSecs < now) :
    ∀ r ∈ collectFleetPeers events ttlSecs now, ¬ (r.node = some n ∧ r.sessionId = sid) := by
  rintro r hr ⟨hn, hsid⟩
  obtain ⟨entry, hentry, hfresh⟩ := (mem_livePeers _ now n sid).mp ⟨r, hr, hn, hsid⟩
  have hfind := lookup_collectStore events ttlSecs n sid
  rw [hentry] at hfind
  obtain ⟨e, he, hseen⟩ := Option.map_eq_some_iff.mp hfind.symm
  have hmem : e ∈ events := List.mem_reverse.mp (List.mem_of_find?_eq_some he)
  have hold : e.2 ≤ last := h e hmem
    (List.find?_some (p := fun e : ServerEvent × Nat => announces n sid e.1) he)
  rw [collectStore_ttlSecs, ← hseen] at hfresh
  omega

/-- The broadcaster vouches for live sessions only, exactly in the runs in which every session it
announces has been heard of within the timeout and not been removed since. In these runs a
session that falls silent is announced no more when the timeout is over, and no node lists it
when the announcements it has got are past the TTL. -/
theorem vouches_iff_heard_in_time (cfg : Config) (fromStr : String → Option ClientMessage)
    (file : DurableState) (log : List BroadcastMsg) (now : Nat) (as : List Action) :
    (Along (step cfg fromStr) (Vouched cfg) (start file log now) as ↔
      HeardInTime cfg fromStr (start file log now) as) ∧
    (HeardInTime cfg fromStr (start file log now) as → ∀ sid last,
      (∀ n, (sid, n) ∈ trace (step cfg fromStr) (refreshing cfg fromStr) (start file log now) as →
        n ≤ last) →
      (∀ m at', (m, at') ∈ trace (step cfg fromStr) (fun s a => announcing cfg s a)
          (start file log now) as → announces cfg.node sid m.toEvent = true →
        at' ≤ last + cfg.heartbeatTimeoutSecs) ∧
      ∀ (events : List (ServerEvent × Nat)) (delay ttlSecs later : Nat),
        (∀ e ∈ events, announces cfg.node sid e.1 = true → ∃ m at',
          (m, at') ∈ trace (step cfg fromStr) (fun s a => announcing cfg s a)
            (start file log now) as ∧
          e.1.topic = m.topic ∧ e.1.data = m.data ∧ e.2 ≤ at' + delay) →
        last + cfg.heartbeatTimeoutSecs + delay + ttlSecs < later →
        ∀ r ∈ collectFleetPeers events ttlSecs later,
          ¬ (r.node = some cfg.node ∧ r.sessionId = sid)) := by
  refine ⟨along_iff_history (fun _ _ _ _ hd h => dated_step hd h)
    (fun _ _ _ _ hd _ => vouched_iff hd) (dated_start file log now), fun h sid last hlast => ?_⟩
  refine ⟨fun m at' hm ha => announced_by_timeout h hlast hm ha,
    fun events delay ttlSecs later he hlater => ?_⟩
  have hold : ∀ e ∈ events, announces cfg.node sid e.1 = true →
      e.2 ≤ last + cfg.heartbeatTimeoutSecs + delay := by
    intro e hmem ha
    obtain ⟨m, at', hm, htopic, hdata, hle⟩ := he e hmem ha
    have hsame : announces cfg.node sid e.1 = announces cfg.node sid m.toEvent :=
      announces_congr htopic hdata ..
    have hsent : at' ≤ last + cfg.heartbeatTimeoutSecs :=
      announced_by_timeout h hlast hm (hsame.symm.trans ha)
    omega
  exact not_listed hold hlater

/-- `s1` announces itself and is silent from then on; three minutes later, with a timeout of one
minute, the broadcaster announces it to the fleet. -/
theorem silent_session_is_announced :
    ¬ ∀ (cfg : Config) (fromStr : String → Option ClientMessage) (file : DurableState)
      (log : List BroadcastMsg) (now : Nat) (as : List Action), cfg.uplinkEnabled = true →
      Along (step cfg fromStr) (Vouched cfg) (start file log now) as := by
  intro h
  let bs : List Action := [.connect, .line 0 (announceLine "s1") 1, .proceed 0 1 true, .tick 180,
    .presenceTick]
  have hr : (run announceStep (start .default [] 0) bs).bind (fun u =>
      (step uplinkConfig (decodeFrom [(announceLine "s1", .announce "s1" 7 "/" "" none)]) u
        (.presenceSend 180)).map (fun _ => (u.presence.head?.map PeerRecord.sessionId,
          u.bus.lastHeard "s1"))) = some (some "s1", some 1) := by decide +kernel
  obtain ⟨u, hu, hr⟩ := Option.bind_eq_some_iff.mp hr
  obtain ⟨v, hv, hr⟩ := Option.map_eq_some_iff.mp hr
  simp only [Prod.mk.injEq] at hr
  obtain ⟨hhead, hlast⟩ := hr
  cases hp : u.presence with
  | nil => simp [hp] at hhead
  | cons p ps =>
    have hsid : p.sessionId = "s1" := by simpa [hp] using hhead
    obtain ⟨r, hl, hle⟩ := along_iff_forall.mp (h uplinkConfig _ .default [] 0
      (bs ++ [.presenceSend 180]) rfl) bs _ [] u v rfl hu hv 180 p ps rfl hp
    rw [BusState.lastHeard, ← hsid, hl] at hlast
    have hone : r.lastHeartbeatUnixSecs = 1 := Option.some.inj hlast
    rw [hone] at hle
    exact absurd hle (by decide)

end Presence

end Agorabus
