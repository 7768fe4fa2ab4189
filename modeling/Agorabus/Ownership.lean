import Agorabus.Steps

namespace Agorabus.Ownership

open Agorabus Daemon StepSystem

variable {cfg : Config} {fromStr : String → Option ClientMessage} {s t : Daemon} {a : Action}

def Registered (s : Daemon) : Prop :=
  (∀ sid c, s.bus.peerOwners.lookup sid = some c →
    ∃ k, s.conns[c]? = some k ∧ k.sessionId = some sid) ∧
  ∀ sid, sid ∈ s.bus.peers → sid ∈ s.bus.peerOwners

theorem registered_start (file : DurableState) (log : List BroadcastMsg) (now : Nat) :
    Registered (start file log now) :=
  ⟨fun _ _ h => (by cases h), fun sid h => absurd h (AList.notMem_empty sid)⟩

theorem announce_session (h : step cfg fromStr s a = some t) {c pid : Nat}
    {sid cwd intent : String} {node : Option String}
    (ht : s.transaction cfg fromStr a = some (.announce c sid pid cwd intent node)) :
    a.conn = some c ∧ ∃ k', t.conns[c]? = some k' ∧ k'.sessionId = some sid := by
  cases transaction_section ht with
  | @first _ now text k _ _ _ _ _ hk hs hte hm =>
    obtain ⟨k₀, hk₀, _, rfl⟩ := step_line.mp h
    obtain rfl : k = k₀ := Option.some.inj (hk.symm.trans hk₀)
    refine ⟨rfl, _, getElem?_set_conn hk _, ?_⟩
    simp [handleLine, hte, hm, hs, handleFirst, answer]
  | @message _ _ _ _ _ msg _ _ _ _ _ htr =>
    cases msg <;> simp [ClientMessage.transaction] at htr

theorem owner_before (h : step cfg fromStr s a = some t) (hb : ∀ now, a ≠ .boot now)
    {c : Nat} {sid : String} (ho : t.bus.peerOwners.lookup sid = some c) :
    s.bus.peerOwners.lookup sid = some c ∨ (a.conn = some c ∧
      ∃ k', t.conns[c]? = some k' ∧ k'.sessionId = some sid) := by
  obtain ⟨now, rfl⟩ | hbus := step_bus h
  · exact absurd rfl (hb now)
  rw [hbus] at ho
  cases htr : s.transaction cfg fromStr a with
  | none =>
    rw [htr] at ho
    exact Or.inl ho
  | some tr =>
    rw [htr, BusState.commit, BusState.apply_peerOwners] at ho
    cases tr with
    | announce d sid' pid cwd intent node =>
      dsimp only at ho
      split at ho
      · exact Or.inl ho
      · rw [Table.lookup_insert] at ho
        split at ho
        · rename_i he
          cases ho
          subst he
          exact Or.inr (announce_session h htr)
        · exact Or.inl ho
    | disconnect d sid' =>
      dsimp only at ho
      split at ho
      · rw [Table.lookup_erase] at ho
        split at ho
        · cases ho
        · exact Or.inl ho
      · exact Or.inl ho
    | _ => exact Or.inl ho

theorem registered_step (hr : Registered s) (h : step cfg fromStr s a = some t) :
    Registered t := by
  obtain ⟨now, rfl⟩ | hbus := step_bus h
  · obtain ⟨_, _, rfl⟩ := step_boot.mp h
    exact registered_start s.file s.log now
  by_cases hb : ∃ now, a = .boot now
  · obtain ⟨now, rfl⟩ := hb
    obtain ⟨_, _, rfl⟩ := step_boot.mp h
    exact registered_start s.file s.log now
  have hb' : ∀ now, a ≠ .boot now := fun now he => hb ⟨now, he⟩
  refine ⟨fun sid c ho => ?_, fun sid hp => ?_⟩
  · obtain ho | ⟨_, hk⟩ := owner_before h hb' ho
    · obtain ⟨k, hk, hs⟩ := hr.1 sid c ho
      exact session_kept h hb' hk hs
    · exact hk
  · rw [hbus] at hp ⊢
    cases htr : s.transaction cfg fromStr a with
    | none =>
      rw [htr] at hp
      exact hr.2 sid hp
    | some tr =>
      rw [htr, BusState.commit, BusState.mem_apply_peers] at hp
      rw [BusState.commit, BusState.apply_peerOwners]
      cases tr with
      | announce c sid' pid cwd intent node =>
        dsimp only at hp ⊢
        obtain hp | ⟨hn, rfl⟩ := hp
        · split
          · exact hr.2 sid hp
          · exact (AList.mem_insert _).mpr (Or.inr (hr.2 sid hp))
        · rw [if_neg hn]
          exact (AList.mem_insert _).mpr (Or.inl rfl)
      | disconnect c sid' =>
        dsimp only at hp ⊢
        split
        · rename_i he
          exact AList.mem_erase.mpr ⟨fun hs => hp.2 ⟨he, hs⟩, hr.2 sid hp.1⟩
        · exact hr.2 sid hp.1
      | peers timeout =>
        obtain ⟨r, hl, _⟩ := hp
        exact hr.2 sid ((Table.mem_iff_lookup _ _).mpr (by simp [hl]))
      | _ => exact hr.2 sid hp

/-- Every owner of a session, and so of every peer record, is a connection whose
handler has not returned. -/
def Released (s : Daemon) : Prop :=
  (∀ sid c, s.bus.peerOwners.lookup sid = some c →
    ∃ k, s.conns[c]? = some k ∧ k.status ≠ .returned) ∧
  ∀ sid, sid ∈ s.bus.peers →
    ∃ c k, s.bus.peerOwners.lookup sid = some c ∧ s.conns[c]? = some k ∧ k.status ≠ .returned

theorem released_iff_owners (hr : Registered s) :
    Released s ↔ ∀ sid c, s.bus.peerOwners.lookup sid = some c →
      ∃ k, s.conns[c]? = some k ∧ k.status ≠ .returned := by
  refine ⟨fun h => h.1, fun h => ⟨h, fun sid hp => ?_⟩⟩
  obtain ⟨c, hc⟩ := Option.ne_none_iff_exists'.mp ((Table.mem_iff_lookup _ _).mp (hr.2 sid hp))
  obtain ⟨k, hk, hs⟩ := h sid c hc
  exact ⟨c, k, hc, hk, hs⟩

/-- The step is not a failed `?` of a connection that owns a session. -/
def OwnerCleansUp (s : Daemon) (a : Action) : Prop :=
  ∀ c sid, s.leavesEarly a = some c → s.bus.peerOwners.lookup sid ≠ some c

theorem leavesEarly_inv (cfg : Config) (fromStr : String → Option ClientMessage) {c : Nat}
    (h : s.leavesEarly a = some c) :
    a.conn = some c ∧ s.transaction cfg fromStr a = none := by
  cases a with
  | proceed d now ok =>
    cases hk : s.conns[d]? with
    | none => simp [leavesEarly, hk] at h
    | some k =>
      cases hp : k.pending with
      | nil => simp [leavesEarly, hk, hp] at h
      | cons e es =>
        cases e with
        | write l =>
          cases ok <;> simp [leavesEarly, hk, hp] at h
          subst h
          simp [Action.conn, transaction, hk, hp]
        | bail =>
          simp [leavesEarly, hk, hp] at h
          subst h
          simp [Action.conn, transaction, hk, hp]
        | _ => simp [leavesEarly, hk, hp] at h
  | _ => simp [leavesEarly] at h

theorem released_step (hr : Registered s) (hs : Released s)
    (h : step cfg fromStr s a = some t) : Released t ↔ OwnerCleansUp s a := by
  by_cases hb : ∃ now, a = .boot now
  · obtain ⟨now, rfl⟩ := hb
    obtain ⟨_, _, rfl⟩ := step_boot.mp h
    refine ⟨fun _ c sid he => (by cases he), fun _ => ⟨fun _ _ he => (by cases he), ?_⟩⟩
    exact fun sid hp => absurd hp (AList.notMem_empty sid)
  have hb' : ∀ now, a ≠ .boot now := fun now he => hb ⟨now, he⟩
  have hbus := (step_bus h).resolve_left hb
  rw [released_iff_owners (registered_step hr h)]
  constructor
  · intro ht c sid he ho
    obtain ⟨hc, hn⟩ := leavesEarly_inv cfg fromStr he
    rw [hn] at hbus
    obtain ⟨k, k', _, hk', _, _, hret⟩ := step_conn_self h hc
    obtain ⟨k₁, hk₁, hne⟩ := ht sid c (by rw [hbus]; exact ho)
    obtain rfl : k' = k₁ := Option.some.inj (hk'.symm.trans hk₁)
    exact hne (hret.mpr (Or.inl he))
  · intro hp sid c ho
    by_cases hc : a.conn = some c
    · obtain ⟨k, k', hk, hk', hrun, hsess, hret⟩ := step_conn_self h hc
      refine ⟨k', hk', fun he => ?_⟩
      obtain hl | ⟨now, ok, es, rfl, hpend⟩ := hret.mp he
      · rw [(leavesEarly_inv cfg fromStr hl).2] at hbus
        rw [hbus] at ho
        exact hp c sid hl ho
      · -- the cleanup has dropped the only session the connection can own
        have htr : s.transaction cfg fromStr (.proceed c now ok) =
            k.sessionId.map (.disconnect c) := by
          simp [transaction, hk, hpend]
        have own : ∀ sid, s.bus.peerOwners.lookup sid = some c → k.sessionId = some sid := by
          intro sid hl
          obtain ⟨k₁, hk₁, hs₁⟩ := hr.1 sid c hl
          rwa [Option.some.inj (hk.symm.trans hk₁)]
        rw [htr] at hbus
        cases hsid : k.sessionId with
        | none =>
          rw [hbus, hsid] at ho
          have := own sid ho
          rw [hsid] at this
          cases this
        | some sid' =>
          rw [hbus, hsid, Option.map_some, BusState.commit, BusState.apply_peerOwners] at ho
          dsimp only at ho
          split at ho
          · rw [Table.lookup_erase] at ho
            split at ho
            · cases ho
            · rename_i hne
              exact hne (Option.some.inj ((own sid ho).symm.trans hsid))
          · rename_i hne
            obtain rfl : sid = sid' := Option.some.inj ((own sid ho).symm.trans hsid)
            exact hne ho
    · obtain ho | ⟨hc', _⟩ := owner_before h hb' ho
      · obtain ⟨k, hk, hne⟩ := hs.1 sid c ho
        exact ⟨k, conn_kept h hb' hc hk, hne⟩
      · exact absurd hc' hc

theorem released_start (file : DurableState) (log : List BroadcastMsg) (now : Nat) :
    Released (start file log now) :=
  ⟨fun _ _ h => (by cases h), fun sid h => absurd h (AList.notMem_empty sid)⟩

/-- Ownership is always given back exactly in the runs in which no owner of a
session returns past its cleanup. -/
theorem released_iff_owners_clean_up (cfg : Config) (fromStr : String → Option ClientMessage)
    (file : DurableState) (log : List BroadcastMsg) (now : Nat) (as : List Action) :
    Always (step cfg fromStr) Released (start file log now) as ↔
      Along (step cfg fromStr) OwnerCleansUp (start file log now) as :=
  always_iff_along (fun _ _ _ hr h => registered_step hr h)
    (fun _ _ _ hr hs h => released_step hr hs h)
    (registered_start file log now) (released_start file log now)

/-- One malformed line after the announce and the session keeps a dead owner. -/
theorem malformed_line_keeps_owner :
    ¬ ∀ (cfg : Config) (fromStr : String → Option ClientMessage) (as : List Action) (t : Daemon),
      run (step cfg fromStr) (start .default [] 0) as = some t → Released t := by
  intro h
  let fromStr := decodeFrom [(announceLine "s1", .announce "s1" 7 "/" "" none)]
  let as : List Action := [.connect, .line 0 (announceLine "s1") 1, .proceed 0 1 true,
    .line 0 "oops" 2, .proceed 0 2 true, .proceed 0 2 true]
  have hr : (run (step ⟨60, 1024, 3000, false, "carbon"⟩ fromStr) (start .default [] 0) as).map
      (fun t => (t.bus.peerOwners.lookup "s1", t.conns[0]?.map Conn.status)) =
        some (some 0, some .returned) := by decide
  obtain ⟨t, ht, he⟩ := Option.map_eq_some_iff.mp hr
  simp only [Prod.mk.injEq] at he
  obtain ⟨k, hk, hne⟩ := (h _ fromStr as t ht).1 "s1" 0 he.1
  rw [hk] at he
  exact hne (Option.some.inj he.2)

/-- The peer records and their owners are under the same sessions. -/
def Agree (s : Daemon) : Prop := ∀ sid, sid ∈ s.bus.peers ↔ sid ∈ s.bus.peerOwners

def PrunesNoPeer (cfg : Config) (fromStr : String → Option ClientMessage) (s : Daemon)
    (a : Action) : Prop :=
  ∀ c text now timeout, a = .line c text now →
    s.transaction cfg fromStr a = some (.peers timeout) →
    ∀ sid r, s.bus.peers.lookup sid = some r → now - r.lastHeartbeatUnixSecs ≤ timeout

theorem agree_step (hs : Agree s) (h : step cfg fromStr s a = some t) :
    Agree t ↔ PrunesNoPeer cfg fromStr s a := by
  obtain ⟨now, rfl⟩ | hbus := step_bus h
  · obtain ⟨_, _, rfl⟩ := step_boot.mp h
    refine ⟨fun _ c text now _ he => (by cases he), fun _ sid => ?_⟩
    exact iff_of_false (AList.notMem_empty sid) (AList.notMem_empty sid)
  cases htr : s.transaction cfg fromStr a with
  | none =>
    rw [htr] at hbus
    refine ⟨fun _ c text now _ _ he => (by rw [htr] at he; cases he), fun _ => ?_⟩
    rw [Agree, hbus]
    exact hs
  | some tr =>
    rw [htr] at hbus
    have hm := BusState.mem_apply_peers s.bus t.clock tr
    have ho := BusState.apply_peerOwners s.bus t.clock tr
    change t.bus = tr.apply s.bus t.clock at hbus
    rw [← hbus] at hm ho
    rw [Agree, ho]
    cases tr with
    | peers timeout =>
      dsimp only at hm ⊢
      obtain ⟨c, text, now, rfl⟩ : ∃ c text now, a = .line c text now := by
        cases transaction_section htr
        exact ⟨_, _, _, rfl⟩
      obtain ⟨k, _, _, rfl⟩ := step_line.mp h
      constructor
      · intro hg c' text' now' timeout' he htr' sid r hl
        cases he
        obtain rfl : timeout = timeout' := by simpa [htr] using htr'
        have hsid : sid ∈ s.bus.peers := (Table.mem_iff_lookup _ _).mpr (by simp [hl])
        obtain ⟨r', hl', hle⟩ := (hm sid).mp ((hg sid).mpr ((hs sid).mp hsid))
        obtain rfl : r = r' := Option.some.inj (hl.symm.trans hl')
        exact hle
      · intro hp sid
        rw [hm, ← hs sid, Table.mem_iff_lookup]
        constructor
        · rintro ⟨r, hl, _⟩
          simp [hl]
        · intro hn
          obtain ⟨r, hl⟩ := Option.ne_none_iff_exists'.mp hn
          exact ⟨r, hl, hp c text now timeout rfl htr sid r hl⟩
    | announce c sid' pid cwd intent node =>
      refine iff_of_true (fun sid => ?_) (fun c text now timeout _ he => ?_)
      · rw [hm]
        dsimp only
        by_cases hin : sid' ∈ s.bus.peerOwners
        · simp only [hin, ↓reduceIte, not_true_eq_false, false_and, or_false, hs sid]
        · rw [if_neg hin, AList.mem_insert, hs sid]
          simp only [hin, not_false_eq_true, true_and, or_comm]
      · rw [htr] at he
        cases he
    | disconnect c sid' =>
      refine iff_of_true (fun sid => ?_) (fun c text now timeout _ he => ?_)
      · rw [hm]
        dsimp only
        by_cases hin : s.bus.peerOwners.lookup sid' = some c
        · rw [if_pos hin, AList.mem_erase, hs sid]
          simp only [hin, true_and, and_comm, ne_eq]
        · rw [if_neg hin, hs sid]
          simp only [hin, false_and, not_false_eq_true, and_true]
      · rw [htr] at he
        cases he
    | _ =>
      refine iff_of_true (fun sid => (hm sid).trans (hs sid)) (fun c text now timeout _ he => ?_)
      rw [htr] at he
      cases he

theorem agree_announce (hs : Agree s) (h : step cfg fromStr s a = some t) {c pid : Nat}
    {sid cwd intent : String} {node : Option String}
    (htr : s.transaction cfg fromStr a = some (.announce c sid pid cwd intent node))
    (hn : sid ∉ s.bus.peers) :
    ∃ r, t.bus.peers.lookup sid = some r ∧ r.sessionId = sid ∧ r.pid = pid ∧ r.node = node := by
  obtain ⟨now, rfl⟩ | hbus := step_bus h
  · simp [transaction] at htr
  have ho : sid ∉ s.bus.peerOwners := fun hm => hn ((hs sid).mpr hm)
  rw [htr, BusState.commit, Transaction.apply, BusState.announce, if_neg ho] at hbus
  rw [hbus]
  exact ⟨_, AList.lookup_insert _, rfl, rfl, rfl⟩

theorem agree_heartbeat (hs : Agree s) (h : step cfg fromStr s a = some t) {c : Nat}
    {sid tool : String} {skill prdSlug : Option String} {paths : Option (List String)}
    (htr : s.transaction cfg fromStr a = some (.heartbeat sid tool skill prdSlug paths))
    (ho : s.bus.peerOwners.lookup sid = some c) :
    ∃ r, s.bus.peers.lookup sid = some r ∧
      t.bus.peers.lookup sid = some (r.beat tool skill prdSlug paths t.clock) := by
  obtain ⟨now, rfl⟩ | hbus := step_bus h
  · simp [transaction] at htr
  have hp : sid ∈ s.bus.peers := (hs sid).mpr ((Table.mem_iff_lookup _ _).mpr (by simp [ho]))
  obtain ⟨r, hr⟩ := Option.ne_none_iff_exists'.mp ((Table.mem_iff_lookup _ _).mp hp)
  refine ⟨r, hr, ?_⟩
  rw [hbus, htr, BusState.commit, Transaction.apply, BusState.heartbeat_peers_lookup, if_pos rfl,
    hr, Option.map_some]

/-- What the handlers rely on: records and owners agree, so that an announce of a
session that is not listed lists it and an owner's heartbeat is never dropped. -/
def Consistent (cfg : Config) (fromStr : String → Option ClientMessage) (s : Daemon) : Prop :=
  Agree s ∧
  (∀ a t c sid pid cwd intent node, step cfg fromStr s a = some t →
    s.transaction cfg fromStr a = some (.announce c sid pid cwd intent node) →
    sid ∉ s.bus.peers →
    ∃ r, t.bus.peers.lookup sid = some r ∧ r.sessionId = sid ∧ r.pid = pid ∧ r.node = node) ∧
  ∀ a t c sid tool skill prdSlug paths, step cfg fromStr s a = some t →
    s.transaction cfg fromStr a = some (.heartbeat sid tool skill prdSlug paths) →
    s.bus.peerOwners.lookup sid = some c →
    ∃ r, s.bus.peers.lookup sid = some r ∧
      t.bus.peers.lookup sid = some (r.beat tool skill prdSlug paths t.clock)

theorem consistent_iff_agree : Consistent cfg fromStr s ↔ Agree s := by
  refine ⟨fun h => h.1, fun h => ⟨h, ?_, ?_⟩⟩
  · intro a t c sid pid cwd intent node hstep htr hn
    exact agree_announce h hstep htr hn
  · intro a t c sid tool skill prdSlug paths hstep htr ho
    exact agree_heartbeat h hstep htr ho

/-- The registry is consistent throughout exactly the runs whose `Peers` queries
find no idle record, since those queries drop a record and keep its owner. -/
theorem consistent_iff_prunes_no_peer (cfg : Config)
    (fromStr : String → Option ClientMessage) (file : DurableState) (log : List BroadcastMsg)
    (now : Nat) (as : List Action) :
    Always (step cfg fromStr) (Consistent cfg fromStr) (start file log now) as ↔
      Along (step cfg fromStr) (PrunesNoPeer cfg fromStr) (start file log now) as := by
  refine always_iff_along (J := fun _ => True) (fun _ _ _ _ _ => trivial) ?_ trivial ?_
  · intro s a t _ hs h
    rw [consistent_iff_agree]
    exact agree_step hs.1 h
  · refine consistent_iff_agree.mpr (fun sid => ?_)
    exact iff_of_false (AList.notMem_empty sid) (AList.notMem_empty sid)

/-- A session idle past the timeout is pruned and keeps its owner. -/
theorem idle_peer_keeps_owner :
    ¬ ∀ (cfg : Config) (fromStr : String → Option ClientMessage) (as : List Action) (t : Daemon),
      run (step cfg fromStr) (start .default [] 0) as = some t → Agree t := by
  intro h
  let fromStr := decodeFrom [(announceLine "s1", .announce "s1" 7 "/" "" none), (peersLine, .peers)]
  let as : List Action := [.connect, .line 0 (announceLine "s1") 1, .proceed 0 1 true,
    .line 0 peersLine 100]
  have hr : (run (step ⟨60, 1024, 3000, false, "carbon"⟩ fromStr) (start .default [] 0) as).map
      (fun t => (decide ("s1" ∈ t.bus.peers), decide ("s1" ∈ t.bus.peerOwners))) =
        some (false, true) := by decide
  obtain ⟨t, ht, he⟩ := Option.map_eq_some_iff.mp hr
  simp only [Prod.mk.injEq, decide_eq_false_iff_not, decide_eq_true_eq] at he
  exact he.1 ((h _ fromStr as t ht "s1").mpr he.2)

end Agorabus.Ownership
