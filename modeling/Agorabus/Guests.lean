import Agorabus.Ownership

namespace Agorabus

def Transaction.OfGuest (c : Nat) : Transaction → Prop
  | .announce d .. | .disconnect d _ => d ≠ c
  | _ => False

def Transaction.closes (c : Nat) : Transaction → Bool
  | .disconnect d _ => decide (d = c)
  | _ => false

theorem Transaction.closes_iff {c : Nat} {tr : Transaction} :
    tr.closes c = true ↔ ∃ sid, tr = .disconnect c sid := by
  cases tr <;> simp [closes]

namespace Guests

open Agorabus Daemon StepSystem

variable {cfg : Config} {fromStr : String → Option ClientMessage} {s t : Daemon} {a : Action}
  {c pid : Nat} {sid : String} {node : Option String}

/-- The step is the cleanup of the connection. -/
def CleansUp (cfg : Config) (fromStr : String → Option ClientMessage) (c : Nat) (s : Daemon)
    (a : Action) : Prop :=
  ∃ sid, s.transaction cfg fromStr a = some (.disconnect c sid)

instance : Decidable (CleansUp cfg fromStr c s a) :=
  match h : s.transaction cfg fromStr a with
  | none => isFalse (fun ⟨_, he⟩ => nomatch h.symm.trans he)
  | some tr => decidable_of_iff (tr.closes c = true) (by
      simp only [CleansUp, h, Option.some.injEq, Transaction.closes_iff])

/-- The connection owns the session, whose record, if there is one, shows what it announced. -/
structure Owned (c : Nat) (sid : String) (pid : Nat) (node : Option String) (bus : BusState) :
    Prop where
  owner : bus.peerOwners.lookup sid = some c
  record : ∀ r, bus.peers.lookup sid = some r → r.pid = pid ∧ r.node = node

theorem Owned.mem {bus : BusState} (ho : Owned c sid pid node bus) : sid ∈ bus.peerOwners :=
  (Table.mem_iff_lookup _ _).mpr (by simp [ho.owner])

theorem Owned.apply {bus : BusState} {tr : Transaction} (ho : Owned c sid pid node bus)
    (now : Nat) (hc : ∀ sid', tr ≠ .disconnect c sid') :
    Owned c sid pid node (tr.apply bus now) := by
  constructor
  · rw [BusState.apply_peerOwners]
    cases tr with
    | announce d sid' pid' cwd intent node' =>
      dsimp only
      split
      · exact ho.owner
      · rename_i hn
        have hne : sid ≠ sid' := fun he => hn (he ▸ ho.mem)
        exact (AList.lookup_insert_ne hne).trans ho.owner
    | disconnect d sid' =>
      dsimp only
      split
      · rename_i hd
        rw [Table.lookup_erase, if_neg ?_]
        · exact ho.owner
        · rintro rfl
          obtain rfl : d = c := Option.some.inj (hd.symm.trans ho.owner)
          exact hc sid rfl
      · exact ho.owner
    | _ => exact ho.owner
  · intro r' hr'
    obtain ⟨_, _, _, _, _, _, hn, _⟩ | ⟨r, hr, hrev⟩ := BusState.lookup_apply_peers hr'
    · exact absurd ho.mem hn
    · exact ⟨hrev.pid.trans (ho.record r hr).1, hrev.node.trans (ho.record r hr).2⟩

theorem owned_step (ho : Owned c sid pid node s.bus) (hb : ∀ now, a ≠ .boot now)
    (hc : ¬ CleansUp cfg fromStr c s a) (h : step cfg fromStr s a = some t) :
    Owned c sid pid node t.bus := by
  obtain ⟨now, rfl⟩ | hbus := step_bus h
  · exact absurd rfl (hb now)
  rw [hbus]
  cases htr : s.transaction cfg fromStr a with
  | none => exact ho
  | some tr => exact ho.apply t.clock (fun sid' he => hc ⟨sid', by rw [htr, he]⟩)

theorem owned_run {as : List Action} (ho : Owned c sid pid node s.bus)
    (hb : ∀ a ∈ as, ∀ now, a ≠ .boot now)
    (hc : Along (step cfg fromStr) (fun s a => ¬ CleansUp cfg fromStr c s a) s as)
    (h : run (step cfg fromStr) s as = some t) : Owned c sid pid node t.bus :=
  run_along_invariant (I := fun s => Owned c sid pid node s.bus)
    (fun _ _ _ ho hp h => owned_step ho hp.1 hp.2 h)
    (along_and.mpr ⟨along_of_forall s hb, hc⟩) h ho

theorem owned_of_announce (h : step cfg fromStr s a = some t)
    (hs : s.bus.peerOwners.lookup sid ≠ some c) (ht : t.bus.peerOwners.lookup sid = some c) :
    ∃ pid cwd intent node,
      s.transaction cfg fromStr a = some (.announce c sid pid cwd intent node) ∧
      t.bus.peers.lookup sid = some (.announced sid pid cwd intent node t.clock) ∧
      Owned c sid pid node t.bus := by
  obtain ⟨now, rfl⟩ | hbus := step_bus h
  · obtain ⟨_, _, rfl⟩ := step_boot.mp h
    cases ht
  cases htr : s.transaction cfg fromStr a with
  | none =>
    rw [hbus, htr] at ht
    exact absurd ht hs
  | some tr =>
    have hown := ht
    rw [hbus, htr, BusState.commit, BusState.apply_peerOwners] at ht
    cases tr with
    | announce d sid' pid cwd intent node =>
      dsimp only at ht
      split at ht
      · exact absurd ht hs
      · rename_i hn
        rw [Table.lookup_insert] at ht
        split at ht
        · rename_i he
          subst he
          cases ht
          have hrec : t.bus.peers.lookup sid =
              some (.announced sid pid cwd intent node t.clock) := by
            rw [hbus, htr, BusState.commit, Transaction.apply, BusState.announce, if_neg hn]
            exact AList.lookup_insert _
          refine ⟨pid, cwd, intent, node, rfl, hrec, hown, fun r hr => ?_⟩
          cases Option.some.inj (hrec.symm.trans hr)
          exact ⟨rfl, rfl⟩
        · exact absurd ht hs
    | disconnect d sid' =>
      dsimp only at ht
      split at ht
      · rw [Table.lookup_erase] at ht
        split at ht
        · cases ht
        · exact absurd ht hs
      · exact absurd ht hs
    | _ => exact absurd ht hs

theorem guest_frame (ho : Owned c sid pid node s.bus) (h : step cfg fromStr s a = some t)
    (hb : ∀ now, a ≠ .boot now)
    (hg : ∀ tr, s.transaction cfg fromStr a = some tr → tr.OfGuest c) :
    t.bus.peers.lookup sid = s.bus.peers.lookup sid ∧
      t.bus.peerOwners.lookup sid = s.bus.peerOwners.lookup sid := by
  obtain ⟨now, rfl⟩ | hbus := step_bus h
  · exact absurd rfl (hb now)
  rw [hbus]
  cases htr : s.transaction cfg fromStr a with
  | none => exact ⟨rfl, rfl⟩
  | some tr =>
    have hg := hg tr htr
    cases tr with
    | announce d sid' pid' cwd intent node' =>
      rw [BusState.commit, Transaction.apply, BusState.announce]
      split
      · exact ⟨rfl, rfl⟩
      · rename_i hn
        have hne : sid ≠ sid' := fun he => hn (he ▸ ho.mem)
        exact ⟨AList.lookup_insert_ne hne, AList.lookup_insert_ne hne⟩
    | disconnect d sid' =>
      rw [BusState.commit, Transaction.apply, BusState.disconnect]
      split
      · rename_i hd
        have hne : sid ≠ sid' := by
          rintro rfl
          exact hg (Option.some.inj (hd.symm.trans ho.owner))
        exact ⟨AList.lookup_erase_ne hne, AList.lookup_erase_ne hne⟩
      · exact ⟨rfl, rfl⟩
    | _ => exact hg.elim

theorem removed_cases (ho : Owned c sid pid node s.bus) (h : step cfg fromStr s a = some t)
    (hb : ∀ now, a ≠ .boot now) {r : PeerRecord} (hr : s.bus.peers.lookup sid = some r)
    (hn : sid ∉ t.bus.peers) :
    CleansUp cfg fromStr c s a ∨
      (s.transaction cfg fromStr a = some (.peers cfg.heartbeatTimeoutSecs) ∧
        cfg.heartbeatTimeoutSecs < t.clock - r.lastHeartbeatUnixSecs) := by
  obtain ⟨now, rfl⟩ | hbus := step_bus h
  · exact absurd rfl (hb now)
  have hin : sid ∈ s.bus.peers := (Table.mem_iff_lookup _ _).mpr (by simp [hr])
  rw [hbus] at hn
  cases htr : s.transaction cfg fromStr a with
  | none =>
    rw [htr] at hn
    exact absurd hin hn
  | some tr =>
    rw [htr, BusState.commit, BusState.mem_apply_peers] at hn
    cases tr with
    | announce d sid' pid' cwd intent node' => exact absurd (Or.inl hin) hn
    | disconnect d sid' =>
      dsimp only at hn
      rw [not_and_not_right] at hn
      obtain ⟨hd, rfl⟩ := hn hin
      obtain rfl : d = c := Option.some.inj (hd.symm.trans ho.owner)
      exact Or.inl ⟨sid, htr⟩
    | peers timeout =>
      obtain rfl : timeout = cfg.heartbeatTimeoutSecs := peers_timeout htr
      refine Or.inr ⟨rfl, Nat.lt_of_not_le (fun hle => hn ⟨r, hr, hle⟩)⟩
    | _ => exact absurd hin hn

/-- From the announce that makes a connection the owner of a session up to its cleanup the session
is its own and the record shows what it announced. Others come and go without a trace, and besides
that cleanup only a `Peers` query that finds the record idle removes it. -/
theorem guests_do_not_disturb (cfg : Config) (fromStr : String → Option ClientMessage)
    (s u : Daemon) (a : Action) (c : Nat) (sid : String) (h : step cfg fromStr s a = some u)
    (hs : s.bus.peerOwners.lookup sid ≠ some c) (hu : u.bus.peerOwners.lookup sid = some c) :
    ∃ pid cwd intent node,
      s.transaction cfg fromStr a = some (.announce c sid pid cwd intent node) ∧
      u.bus.peers.lookup sid = some (.announced sid pid cwd intent node u.clock) ∧
      ∀ bs t, (∀ b ∈ bs, ∀ now, b ≠ .boot now) →
        Along (step cfg fromStr) (fun v b => ¬ CleansUp cfg fromStr c v b) u bs →
        run (step cfg fromStr) u bs = some t →
        t.bus.peerOwners.lookup sid = some c ∧
        (∀ r, t.bus.peers.lookup sid = some r → r.pid = pid ∧ r.node = node) ∧
        ∀ b v, step cfg fromStr t b = some v → (∀ now, b ≠ .boot now) →
          ((∀ tr, t.transaction cfg fromStr b = some tr → tr.OfGuest c) →
            v.bus.peers.lookup sid = t.bus.peers.lookup sid ∧
              v.bus.peerOwners.lookup sid = t.bus.peerOwners.lookup sid) ∧
          ∀ r, t.bus.peers.lookup sid = some r → sid ∉ v.bus.peers →
            CleansUp cfg fromStr c t b ∨
              (t.transaction cfg fromStr b = some (.peers cfg.heartbeatTimeoutSecs) ∧
                cfg.heartbeatTimeoutSecs < v.clock - r.lastHeartbeatUnixSecs) := by
  obtain ⟨pid, cwd, intent, node, htr, hrec, ho⟩ := owned_of_announce h hs hu
  refine ⟨pid, cwd, intent, node, htr, hrec, fun bs t hb hc ht => ?_⟩
  have hot : Owned c sid pid node t.bus := owned_run ho hb hc ht
  refine ⟨hot.owner, hot.record, fun b v hv hboot => ⟨guest_frame hot hv hboot, ?_⟩⟩
  exact fun r hr hn => removed_cases hot hv hboot hr hn

def guestLines : String → Option ClientMessage :=
  decodeFrom [(announceLine "s1", .announce "s1" 7 "/" "" none),
    (clientLine "s1" "probe", .announce "s1" 9 "/" "probe" none)]

theorem guests_do_not_disturb_one_shot :
    ∃ t, run (step ⟨60, 1024, 3000, false, "carbon"⟩ guestLines) (start .default [] 0)
        ([.connect, .connect] ++ .line 0 (announceLine "s1") 1 ::
          [.proceed 0 1 true, .line 1 (clientLine "s1" "probe") 2, .proceed 1 2 true, .hangup 1,
            .proceed 1 3 true]) = some t ∧
      t.bus.peerOwners.lookup "s1" = some 0 ∧
      ∀ r, t.bus.peers.lookup "s1" = some r → r.pid = 7 := by
  let cfg : Config := ⟨60, 1024, 3000, false, "carbon"⟩
  let a : Action := .line 0 (announceLine "s1") 1
  let bs : List Action := [.proceed 0 1 true, .line 1 (clientLine "s1" "probe") 2,
    .proceed 1 2 true, .hangup 1, .proceed 1 3 true]
  have hs : (run (step cfg guestLines) (start .default [] 0) [.connect, .connect]).bind (fun s =>
      (step cfg guestLines s a).bind (fun u => (run (step cfg guestLines) u bs).map (fun _ =>
        (s.bus.peerOwners.lookup "s1", s.transaction cfg guestLines a,
          u.bus.peerOwners.lookup "s1", decide (Along (step cfg guestLines)
            (fun v b => ¬ CleansUp cfg guestLines 0 v b) u bs))))) =
      some (none, some (.announce 0 "s1" 7 "/" "" none), some 0, true) := by decide +kernel
  obtain ⟨s, hs, hu⟩ := Option.bind_eq_some_iff.mp hs
  obtain ⟨u, hu, ht⟩ := Option.bind_eq_some_iff.mp hu
  obtain ⟨t, ht, hq⟩ := Option.map_eq_some_iff.mp ht
  simp only [Prod.mk.injEq, decide_eq_true_eq] at hq
  obtain ⟨pid, cwd, intent, node, htr, _, hrun⟩ := guests_do_not_disturb cfg guestLines s u a 0 "s1"
    hu (by rw [hq.1]; nofun) hq.2.2.1
  cases hq.2.1.symm.trans htr
  refine ⟨t, (run_append_eq_some _).mpr ⟨s, hs, (run_cons_eq_some _).mpr ⟨u, hu, ht⟩⟩, ?_⟩
  obtain ⟨ho, hrec, _⟩ := hrun bs t (by simp [bs]) hq.2.2.2 ht
  exact ⟨ho, fun r hr => (hrec r hr).1⟩

end Guests

end Agorabus
