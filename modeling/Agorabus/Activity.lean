import Agorabus.ClaimTable
import Agorabus.Ownership

namespace Agorabus

namespace BusState

/-- When a session that has a record was last heard of. -/
def lastHeard (st : BusState) (sid : String) : Option Nat :=
  (st.peers.lookup sid).map PeerRecord.lastHeartbeatUnixSecs

theorem map_refreshed {now : Nat} {f : PeerRecord → PeerRecord}
    (hf : ∀ r, (f r).lastHeartbeatUnixSecs = now) (c : Prop) [Decidable c]
    (o : Option PeerRecord) :
    (if c then o.map f else o).map PeerRecord.lastHeartbeatUnixSecs =
      if c then (o.map PeerRecord.lastHeartbeatUnixSecs).map (fun _ => now)
      else o.map PeerRecord.lastHeartbeatUnixSecs := by
  split
  · cases o with
    | none => rfl
    | some r => exact congrArg some (hf r)
  · rfl

theorem lastHeard_touch (st : BusState) (sid : String) (now : Nat) (j : String) :
    (st.touch sid now).lastHeard j =
      if j = sid then (st.lastHeard j).map (fun _ => now) else st.lastHeard j := by
  rw [lastHeard, touch, Table.lookup_modify]
  refine map_refreshed ?_ (j = sid) _
  exact fun _ => rfl

theorem lastHeard_apply (st : BusState) (now : Nat) (tr : Transaction) (j : String) :
    (tr.apply st now).lastHeard j = match tr with
      | .announce _ sid .. =>
          if j = sid ∧ sid ∉ st.peerOwners then some now else st.lastHeard j
      | .update sid .. | .heartbeat sid .. | .touch sid | .claimRelease sid _ =>
          if j = sid then (st.lastHeard j).map (fun _ => now) else st.lastHeard j
      | .peers timeout => (st.lastHeard j).filter (fun n => decide (now - n ≤ timeout))
      | .claimAcquire sid path _ _ force =>
          if j = sid ∧ st.grants now sid path force then (st.lastHeard j).map (fun _ => now)
          else st.lastHeard j
      | .claimList => st.lastHeard j
      | .disconnect c sid =>
          if j = sid ∧ st.peerOwners.lookup sid = some c then none else st.lastHeard j := by
  cases tr with
  | announce c sid pid cwd intent node =>
    simp only [Transaction.apply, announce]
    by_cases ho : sid ∈ st.peerOwners
    · simp [ho]
    · rw [if_neg ho, lastHeard, Table.lookup_insert]
      by_cases hj : j = sid
      · simp [hj, ho, PeerRecord.announced]
      · simp [hj, lastHeard]
  | update sid cwd intent =>
    rw [Transaction.apply, lastHeard, update, Table.lookup_modify]
    refine map_refreshed ?_ (j = sid) _
    exact fun _ => rfl
  | heartbeat sid tool skill prdSlug paths =>
    rw [Transaction.apply, lastHeard, heartbeat_peers_lookup]
    refine map_refreshed ?_ (j = sid) _
    exact fun _ => rfl
  | touch sid => exact lastHeard_touch st sid now j
  | peers timeout =>
    rw [Transaction.apply, lastHeard, prunePeers, Table.lookup_retain, lastHeard]
    cases st.peers.lookup j with
    | none => rfl
    | some r =>
      by_cases hr : now - r.lastHeartbeatUnixSecs ≤ timeout <;> simp [Option.filter, hr]
  | claimAcquire sid path ttl reason force =>
    rw [Transaction.apply]
    cases hg : st.grants now sid path force with
    | false =>
      rw [claimAcquire_refused hg]
      exact (if_neg (fun h => Bool.noConfusion (hg.symm.trans h.2))).symm
    | true =>
      rw [claimAcquire_granted hg, lastHeard_touch]
      simp only [hg, and_true]
      rfl
  | claimRelease sid path =>
    rw [Transaction.apply, lastHeard, (claimRelease_frame st sid path now).2.2]
    exact lastHeard_touch st sid now j
  | claimList => rfl
  | disconnect c sid =>
    simp only [Transaction.apply, disconnect]
    by_cases ho : st.peerOwners.lookup sid = some c
    · rw [if_pos ho, lastHeard, Table.lookup_erase]
      by_cases hj : j = sid
      · simp [hj, ho]
      · simp [hj, lastHeard]
    · simp [ho]

end BusState

/-- The messages of an announced session that are answered with something else than a refusal of
the message. A publish is not done before the record has been touched. -/
def ClientMessage.accepted : ClientMessage → Bool
  | .announce .. | .publish .. => false
  | .heartbeat _ _ _ workingPaths =>
      !workingPaths.any (fun ps => decide (maxWorkingPaths < ps.length))
  | _ => true

def ClientMessage.passive (bus : BusState) (now : Nat) (sid : String) : ClientMessage → Bool
  | .subscribe _ | .peers | .claimList | .uplinkStatus => true
  | .claimAcquire path _ _ force => !bus.grants now sid path force
  | _ => false

namespace Activity

open Daemon StepSystem

def accepts (fromStr : String → Option ClientMessage) (s : Daemon) (a : Action) : Option String :=
  match a with
  | .line .. =>
      match s.request fromStr a with
      | some (some sid, msg) => if msg.accepted then some sid else none
      | _ => none
  | .proceed c _ _ => do
      let k ← s.conns[c]?
      match k.pending with
      | .touch sid :: _ => some sid
      | _ => none
  | _ => none

/-- The record of a session carries the time of the message of it that the step accepts. -/
def Refreshes (cfg : Config) (fromStr : String → Option ClientMessage) (s : Daemon) (a : Action) :
    Prop :=
  ∀ sid t, accepts fromStr s a = some sid → step cfg fromStr s a = some t →
    s.bus.lastHeard sid ≠ none → t.bus.lastHeard sid = some t.clock

/-- A session whose message is passive has a record from the same second. -/
def InSameSecond (fromStr : String → Option ClientMessage) (s : Daemon) (a : Action) : Prop :=
  ∀ c text now sid msg n, a = .line c text now → s.request fromStr a = some (some sid, msg) →
    msg.passive s.bus now sid = true → s.bus.lastHeard sid = some n → n = now

variable {cfg : Config} {fromStr : String → Option ClientMessage} {s t : Daemon} {a : Action}

theorem lastHeard_active {sid : String} {msg : ClientMessage} {bus : BusState} {now : Nat}
    (ha : msg.accepted = true) (hp : msg.passive bus now sid = false) :
    (bus.commit now (msg.transaction cfg sid)).lastHeard sid =
      (bus.lastHeard sid).map (fun _ => now) := by
  cases msg with
  | heartbeat tool skill prdSlug paths =>
    rw [ClientMessage.accepted, Bool.not_eq_true'] at ha
    simp [ClientMessage.transaction, ha, BusState.commit, BusState.lastHeard_apply]
  | claimAcquire path ttl reason force =>
    rw [ClientMessage.passive, Bool.not_eq_false'] at hp
    simp [ClientMessage.transaction, BusState.commit, BusState.lastHeard_apply, hp]
  | update | claimRelease =>
    simp [ClientMessage.transaction, BusState.commit, BusState.lastHeard_apply]
  | announce | publish => cases ha
  | subscribe | peers | claimList | uplinkStatus => cases hp

theorem lastHeard_passive {sid : String} {msg : ClientMessage} {bus : BusState} {now : Nat}
    (hp : msg.passive bus now sid = true) :
    (bus.commit now (msg.transaction cfg sid)).lastHeard sid = some now ↔
      bus.lastHeard sid = some now := by
  cases msg with
  | claimAcquire path ttl reason force =>
    rw [ClientMessage.passive, Bool.not_eq_true'] at hp
    simp [ClientMessage.transaction, BusState.commit, BusState.lastHeard_apply, hp]
  | peers =>
    simp [ClientMessage.transaction, BusState.commit, BusState.lastHeard_apply,
      Option.filter_eq_some_iff]
  | subscribe | claimList | uplinkStatus =>
    simp [ClientMessage.transaction, BusState.commit, BusState.lastHeard_apply]
  | update | heartbeat | claimRelease | announce | publish => cases hp

theorem accepted_of_passive {sid : String} {msg : ClientMessage} {bus : BusState} {now : Nat}
    (h : msg.passive bus now sid = true) : msg.accepted = true := by
  cases msg with
  | update | heartbeat | claimRelease | announce | publish => cases h
  | _ => rfl

theorem accepts_cases {sid : String} (ha : accepts fromStr s a = some sid)
    (h : step cfg fromStr s a = some t) :
    (∃ c text msg, a = .line c text t.clock ∧ s.request fromStr a = some (some sid, msg) ∧
      msg.accepted = true ∧ t.bus = s.bus.commit t.clock (msg.transaction cfg sid)) ∨
      t.bus = s.bus.touch sid t.clock := by
  cases a with
  | line c text now =>
    have hbus := (step_bus h).resolve_left nofun
    obtain ⟨k, hk, _, rfl⟩ := step_line.mp h
    simp only [accepts] at ha
    split at ha
    · rename_i sid' msg hreq
      split at ha
      · rename_i hacc
        cases ha
        refine Or.inl ⟨c, text, msg, rfl, hreq, hacc, ?_⟩
        rw [hbus, transaction, hreq]
      · cases ha
    · cases ha
  | proceed c now ok =>
    obtain ⟨k, e, es, hk, hp, _, rfl⟩ := step_proceed.mp h
    simp only [accepts, hk, hp, Option.bind_eq_bind, Option.bind_some] at ha
    cases e with
    | touch sid' =>
      cases ha
      exact Or.inr rfl
    | _ => cases ha
  | _ => cases ha

theorem refreshes_iff (h : step cfg fromStr s a = some t) :
    Refreshes cfg fromStr s a ↔ InSameSecond fromStr s a := by
  constructor
  · rintro hr c text now sid msg n rfl hreq hpas hn
    have hacc := accepted_of_passive hpas
    have ht : t.bus.lastHeard sid = some t.clock :=
      hr sid t (by simp only [accepts, hreq, hacc, if_true]) h (by rw [hn]; nofun)
    have hbus := (step_bus h).resolve_left nofun
    obtain ⟨k, _, _, rfl⟩ := step_line.mp h
    rw [hbus, transaction, hreq] at ht
    exact Option.some.inj (hn.symm.trans ((lastHeard_passive hpas).mp ht))
  · intro hs sid u ha hu hn
    obtain rfl : t = u := Option.some.inj (h.symm.trans hu)
    obtain ⟨n, hn⟩ := Option.ne_none_iff_exists'.mp hn
    obtain ⟨c, text, msg, rfl, hreq, hacc, hbus⟩ | hbus := accepts_cases ha h
    · rw [hbus]
      cases hpas : msg.passive s.bus t.clock sid with
      | true =>
        obtain rfl := hs c text t.clock sid msg n rfl hreq hpas hn
        exact (lastHeard_passive hpas).mpr hn
      | false => rw [lastHeard_active hacc hpas, hn, Option.map_some]
    · rw [hbus, BusState.lastHeard_touch, if_pos rfl, hn, Option.map_some]

def activity (fromStr : String → Option ClientMessage) (s : Daemon) (a : Action) :
    List (String × Nat) :=
  ((accepts fromStr s a).map (fun sid => (sid, a.time))).toList

theorem accepts_time {sid : String} (ha : accepts fromStr s a = some sid)
    (h : step cfg fromStr s a = some t) : t.clock = a.time := by
  cases a with
  | line c text now =>
    obtain ⟨_, _, _, rfl⟩ := step_line.mp h
    rfl
  | proceed c now ok =>
    obtain ⟨_, _, _, _, _, _, rfl⟩ := step_proceed.mp h
    exact perform_clock ..
  | _ => cases ha

theorem lastHeard_step (h : step cfg fromStr s a = some t) {sid : String} {n : Nat}
    (hn : t.bus.lastHeard sid = some n) : n = t.clock ∨ s.bus.lastHeard sid = some n := by
  obtain ⟨now, rfl⟩ | hbus := step_bus h
  · obtain ⟨_, _, rfl⟩ := step_boot.mp h
    cases hn
  rw [hbus] at hn
  cases htr : s.transaction cfg fromStr a with
  | none =>
    rw [htr] at hn
    exact Or.inr hn
  | some tr =>
    rw [htr, BusState.commit, BusState.lastHeard_apply] at hn
    have kept {c : Prop} [Decidable c] {f : Nat → Nat} (hf : ∀ m, f m = t.clock)
        (hn : (if c then (s.bus.lastHeard sid).map f else s.bus.lastHeard sid) = some n) :
        n = t.clock ∨ s.bus.lastHeard sid = some n := by
      split at hn
      · obtain ⟨m, _, rfl⟩ := Option.map_eq_some_iff.mp hn
        exact Or.inl (hf m)
      · exact Or.inr hn
    cases tr with
    | announce c sid' pid cwd intent node =>
      dsimp only at hn
      split at hn
      · exact Or.inl (Option.some.inj hn).symm
      · exact Or.inr hn
    | update | heartbeat | touch | claimRelease | claimAcquire =>
      exact kept (fun _ => rfl) hn
    | peers timeout => exact Or.inr (Option.filter_eq_some_iff.mp hn).1
    | claimList => exact Or.inr hn
    | disconnect c sid' =>
      dsimp only at hn
      split at hn
      · cases hn
      · exact Or.inr hn

def Fresh (s : Daemon) (heard : List (String × Nat)) : Prop :=
  ∀ sid n, (sid, n) ∈ heard → n ≤ s.clock ∧ ∀ m, s.bus.lastHeard sid = some m → n ≤ m

theorem fresh_append {heard new : List (String × Nat)} (hf : Fresh s heard)
    (h : step cfg fromStr s a = some t) (hnew : ∀ sid n, (sid, n) ∈ new → n = t.clock ∧
      (s.bus.lastHeard sid ≠ none → t.bus.lastHeard sid = some t.clock)) :
    Fresh t (heard ++ new) := by
  intro sid n hn
  obtain hn | hn := List.mem_append.mp hn
  · obtain ⟨hle, hold⟩ := hf sid n hn
    refine ⟨hle.trans (step_clock h), fun m hm => ?_⟩
    obtain rfl | hm := lastHeard_step h hm
    · exact hle.trans (step_clock h)
    · exact hold m hm
  · obtain ⟨rfl, hnow⟩ := hnew sid n hn
    refine ⟨Nat.le_refl _, fun m hm => ?_⟩
    obtain rfl | hold := lastHeard_step h hm
    · exact Nat.le_refl _
    · have hsome := hnow (by rw [hold]; nofun)
      rw [hm] at hsome
      exact (Option.some.inj hsome).ge

theorem fresh_step {heard : List (String × Nat)} (hf : Fresh s heard)
    (hr : Refreshes cfg fromStr s a) (h : step cfg fromStr s a = some t) :
    Fresh t (heard ++ activity fromStr s a) := by
  refine fresh_append hf h (fun sid n hn => ?_)
  cases ha : accepts fromStr s a with
  | none => simp [activity, ha] at hn
  | some sid' =>
    obtain ⟨rfl, rfl⟩ : sid = sid' ∧ n = a.time := by simpa [activity, ha] using hn
    exact ⟨(accepts_time ha h).symm, hr sid t ha h⟩

/-- No `Peers` query of a run removes the record of a session of which a message has been accepted
within the timeout. -/
def SparesActive (cfg : Config) (fromStr : String → Option ClientMessage) (s : Daemon)
    (as : List Action) : Prop :=
  ∀ bs a cs u v sid n, as = bs ++ a :: cs → run (step cfg fromStr) s bs = some u →
    step cfg fromStr u a = some v →
    u.transaction cfg fromStr a = some (.peers cfg.heartbeatTimeoutSecs) →
    (sid, n) ∈ trace (step cfg fromStr) (activity fromStr) s bs →
    v.clock - n ≤ cfg.heartbeatTimeoutSecs → sid ∈ u.bus.peers → sid ∈ v.bus.peers

theorem sparesActive_of_refreshes {as : List Action} (hf : Fresh s [])
    (hr : Along (step cfg fromStr) (Refreshes cfg fromStr) s as) :
    SparesActive cfg fromStr s as := by
  rintro bs a cs u v sid n rfl hu hv htr hn hle hin
  have hfresh : Fresh u ([] ++ trace (step cfg fromStr) (activity fromStr) s bs) :=
    run_trace_invariant (fun _ _ _ _ hf hr h => fresh_step hf hr h) (along_append.mp hr).1 hu hf
  obtain ⟨r, hl⟩ := Option.ne_none_iff_exists'.mp ((Table.mem_iff_lookup _ _).mp hin)
  have hmn := (hfresh sid n hn).2 r.lastHeartbeatUnixSecs (by rw [BusState.lastHeard, hl]; rfl)
  have hbus := (step_bus hv).resolve_left (fun ⟨now, he⟩ => by simp [he, transaction] at htr)
  rw [hbus, htr, BusState.commit, BusState.mem_apply_peers]
  exact ⟨r, hl, by omega⟩

/-- Activity keeps a peer alive exactly in the runs in which a `Subscribe`, `Peers`, `ClaimList` or
`UplinkStatus` message or a refused `ClaimAcquire` of a session with a record only ever comes in
the second in which the record was last refreshed. -/
theorem kept_alive_iff_in_same_second (cfg : Config) (fromStr : String → Option ClientMessage)
    (file : DurableState) (log : List BroadcastMsg) (now : Nat) (as : List Action) :
    (Along (step cfg fromStr) (Refreshes cfg fromStr) (start file log now) as ∧
      SparesActive cfg fromStr (start file log now) as) ↔
    Along (step cfg fromStr) (InSameSecond fromStr) (start file log now) as := by
  have hiff : Along (step cfg fromStr) (Refreshes cfg fromStr) (start file log now) as ↔
      Along (step cfg fromStr) (InSameSecond fromStr) (start file log now) as :=
    along_iff_of_invariant (J := fun _ => True) (fun _ _ _ _ _ _ => trivial)
      (fun _ _ _ _ h => refreshes_iff h) trivial
  rw [← hiff, and_iff_left_iff_imp]
  exact sparesActive_of_refreshes nofun

/-- `s1` lists the claims at second 50 and is pruned at second 62, its announce being 61 seconds
old. -/
theorem listing_session_is_pruned :
    ¬ ∀ (cfg : Config) (fromStr : String → Option ClientMessage) (file : DurableState)
      (log : List BroadcastMsg) (now : Nat) (as : List Action),
      Along (step cfg fromStr) (Refreshes cfg fromStr) (start file log now) as ∧
        SparesActive cfg fromStr (start file log now) as := by
  intro h
  let cfg : Config := ⟨60, 1024, 3000, false, "carbon"⟩
  let fromStr := decodeFrom [(announceLine "s1", .announce "s1" 7 "/" "" none),
    (announceLine "s2", .announce "s2" 7 "/" "" none), (claimListLine, .claimList),
    (peersLine, .peers)]
  let bs : List Action := [.connect, .connect, .line 0 (announceLine "s1") 1, .proceed 0 1 true,
    .line 0 claimListLine 50, .proceed 0 50 true, .line 1 (announceLine "s2") 51,
    .proceed 1 51 true]
  let a : Action := .line 1 peersLine 62
  have hr : (run (step cfg fromStr) (start .default [] 0) bs).bind (fun u =>
      (step cfg fromStr u a).map (fun v => (u.transaction cfg fromStr a,
        decide ("s1" ∈ u.bus.peers), decide ("s1" ∈ v.bus.peers), v.clock))) =
      some (some (.peers 60), true, false, 62) := by decide
  have heard : ("s1", 50) ∈
      trace (step cfg fromStr) (activity fromStr) (start .default [] 0) bs := by
    decide
  obtain ⟨u, hu, hr⟩ := Option.bind_eq_some_iff.mp hr
  obtain ⟨v, hv, hr⟩ := Option.map_eq_some_iff.mp hr
  simp only [Prod.mk.injEq, decide_eq_true_eq, decide_eq_false_iff_not] at hr
  obtain ⟨htr, hin, hout, hclock⟩ := hr
  exact hout ((h cfg fromStr .default [] 0 (bs ++ [a])).2 bs a [] u v "s1" 50 rfl hu hv htr heard
    (by rw [hclock]; decide) hin)

end Activity

end Agorabus
