import Agorabus.Durability

namespace Agorabus.Lease

open Agorabus Daemon StepSystem Durability

variable {cfg : Config} {fromStr : String → Option ClientMessage} {s t : Daemon} {a : Action}

/-- What may take an unexpired claim on a path away from a session: its own release,
a forced acquire of another session, or its own acquire, which renews the claim. -/
def Interrupts (cfg : Config) (fromStr : String → Option ClientMessage) (sid path : String)
    (s : Daemon) (a : Action) : Prop :=
  ∃ tr, s.transaction cfg fromStr a = some tr ∧ match tr with
    | .claimRelease sid' path' => sid' = sid ∧ path' = path
    | .claimAcquire sid' path' _ _ force => path' = path ∧ (sid' = sid ∨ force = true)
    | _ => False

theorem interrupts_line {sid path : String} (h : Interrupts cfg fromStr sid path s a) :
    ∃ c text now, a = .line c text now := by
  obtain ⟨tr, htr, hm⟩ := h
  cases transaction_section htr with
  | first => cases hm
  | message => exact ⟨_, _, _, rfl⟩
  | touch => cases hm
  | cleanup => cases hm

theorem lease_step (hj : Journaled s) (h : step cfg fromStr s a = some t) {path : String}
    {c : ClaimRecord} (hc : s.bus.claims.lookup path = some c) (hlive : t.clock < c.ttlUnixSecs)
    (hno : ¬ Interrupts cfg fromStr c.sessionId path s a) :
    t.bus.claims.lookup path = some c := by
  have hl : liveClaim s.bus.claims t.clock path = some c := liveClaim_eq_some.mpr ⟨hc, hlive⟩
  refine (liveClaim_eq_some.mp ((claim_kept hj h ?_).trans hl)).1
  intro tr htr hp
  refine Bool.eq_false_iff.mpr (fun hch => hno ⟨tr, htr, ?_⟩)
  cases tr with
  | claimAcquire sid path' ttl reason force =>
    cases hp
    rw [changesDurable_claimAcquire, BusState.grants, hl] at hch
    simp only [Bool.or_eq_true, decide_eq_true_eq] at hch
    exact ⟨rfl, hch.imp Eq.symm id⟩
  | claimRelease sid path' =>
    cases hp
    rw [changesDurable_claimRelease, hl] at hch
    simp only [Option.any_some, decide_eq_true_eq] at hch
    exact ⟨hch.symm, rfl⟩
  | _ => cases hp

theorem lease_run (hj : Journaled s) {as : List Action} (hsave : ∀ a ∈ as, SaveSucceeds a)
    (hr : run (step cfg fromStr) s as = some t) {path : String} {c : ClaimRecord}
    (hc : s.bus.claims.lookup path = some c) (hlive : t.clock < c.ttlUnixSecs)
    (hno : Along (step cfg fromStr) (fun s a => ¬ Interrupts cfg fromStr c.sessionId path s a)
      s as) : t.bus.claims.lookup path = some c := by
  induction as generalizing s with
  | nil =>
    cases hr
    exact hc
  | cons a as ih =>
    obtain ⟨u, hu, hr⟩ := (run_cons_eq_some _).mp hr
    have hrest : ∀ a ∈ as, SaveSucceeds a := fun b hb => hsave b (List.mem_cons_of_mem _ hb)
    have hcu : u.bus.claims.lookup path = some c :=
      lease_step hj hu hc (Nat.lt_of_le_of_lt (run_clock hr) hlive) (hno u hu).1
    exact ih (journaled_step hj (hsave a List.mem_cons_self) hu) hrest hr hcu (hno u hu).2

/-- Another session holds an unexpired claim on the path. -/
def HeldByOther (bus : BusState) (now : Nat) (sid path : String) : Prop :=
  ∃ c, bus.claims.lookup path = some c ∧ now < c.ttlUnixSecs ∧ c.sessionId ≠ sid

theorem heldByOther_iff {bus : BusState} {now : Nat} {sid path : String} :
    HeldByOther bus now sid path ↔ bus.grants now sid path false = false := by
  simp only [HeldByOther, BusState.grants]
  constructor
  · rintro ⟨c, hc, hlive, hne⟩
    rw [liveClaim_eq_some.mpr ⟨hc, hlive⟩]
    simp [hne]
  · intro h
    obtain hl | ⟨c, hl⟩ := Option.eq_none_or_eq_some (liveClaim bus.claims now path)
    · simp [hl] at h
    · rw [hl] at h
      simp only [Bool.or_false, decide_eq_false_iff_not] at h
      obtain ⟨hc, hlive⟩ := liveClaim_eq_some.mp hl
      exact ⟨c, hc, hlive, h⟩

theorem acquire_answered {c now ttl : Nat} {text sid path reason : String}
    (h : step cfg fromStr s (.line c text now) = some t)
    (htr : s.transaction cfg fromStr (.line c text now) =
      some (.claimAcquire sid path ttl reason false)) :
    ∃ k r, t.conns[c]? = some k ∧ (∀ r', .write (.reply r') ∈ k.pending ↔ r' = r) ∧
      (r.ok = true ↔ ¬ HeldByOther s.bus now sid path) ∧
      (r.error = some "claim_conflict" ↔ HeldByOther s.bus now sid path) := by
  obtain ⟨k, hk, _, rfl⟩ := step_line.mp h
  cases transaction_section htr with
  | @message _ _ _ k₀ sid msg _ hk₀ hs hte hm hmt =>
    obtain rfl : k = k₀ := Option.some.inj (hk.symm.trans hk₀)
    cases msg with
    | claimAcquire path' ttl' reason' force' =>
      cases hmt
      have hg : (Transaction.claimAcquire sid path ttl reason false).changesDurable s.bus now =
          s.bus.grants now sid path false := changesDurable_claimAcquire ..
      rw [Transaction.changesDurable] at hg
      refine ⟨(handleLine cfg fromStr k c s.bus s.uplinkStatus s.log.length now text).conn, ?_⟩
      rw [heldByOther_iff, ← hg]
      cases hd : (s.bus.claimAcquire sid path ttl reason false now).2 with
      | conflict c' =>
        refine ⟨claimConflictReply c', getElem?_set_conn hk _, ?_, ?_⟩
        · simp [handleLine, hte, hm, hs, handleMessage_claimAcquire, hd, answer]
        · simp [claimConflictReply]
      | granted evicted =>
        refine ⟨.okWith (.object [("path", .string path), ("ttl_unix_secs", .nat ttl)]),
          getElem?_set_conn hk _, ?_, ?_⟩
        · simp [handleLine, hte, hm, hs, handleMessage_claimAcquire, hd]
        · simp [Reply.okWith]
    | heartbeat tool skill prdSlug paths =>
      simp only [ClientMessage.transaction] at hmt
      split at hmt <;> cases hmt
    | _ => cases hmt

theorem acquire_renews (h : step cfg fromStr s a = some t) {sid path reason : String} {ttl : Nat}
    {force : Bool}
    (htr : s.transaction cfg fromStr a = some (.claimAcquire sid path ttl reason force))
    (hg : s.bus.grants t.clock sid path force = true) :
    t.bus.claims.lookup path = some ⟨path, sid, ttl, t.clock, reason⟩ := by
  obtain ⟨now, rfl⟩ | hbus := step_bus h
  · simp [transaction] at htr
  rw [hbus, htr]
  exact BusState.lookup_claimAcquire hg

/-- Claims are leases: what a session holds stays its own until it expires, through every
interleaving and every bounce, unless the session or a forced acquire ends it; so an acquire
without force is refused exactly if another session holds an unexpired claim. -/
theorem lease_safety (cfg : Config) (fromStr : String → Option ClientMessage)
    (file : DurableState) (log : List BroadcastMsg) (now : Nat) (as : List Action) (s : Daemon)
    (hsave : ∀ a ∈ as, SaveSucceeds a)
    (hr : run (step cfg fromStr) (start file log now) as = some s) :
    (∀ bs t path c, (∀ a ∈ bs, SaveSucceeds a) → run (step cfg fromStr) s bs = some t →
      s.bus.claims.lookup path = some c → t.clock < c.ttlUnixSecs →
      t.bus.claims.lookup path = some c ∨
        ∃ cs a ds u, bs = cs ++ a :: ds ∧ run (step cfg fromStr) s cs = some u ∧
          Interrupts cfg fromStr c.sessionId path u a) ∧
    (∀ a t sid path ttl reason force c, step cfg fromStr s a = some t →
      s.transaction cfg fromStr a = some (.claimAcquire sid path ttl reason force) →
      s.bus.claims.lookup path = some c → t.clock < c.ttlUnixSecs → c.sessionId = sid →
      t.bus.claims.lookup path = some ⟨path, sid, ttl, t.clock, reason⟩) ∧
    ∀ c text now t sid path ttl reason, step cfg fromStr s (.line c text now) = some t →
      s.transaction cfg fromStr (.line c text now) =
        some (.claimAcquire sid path ttl reason false) →
      ∃ k r, t.conns[c]? = some k ∧ (∀ r', .write (.reply r') ∈ k.pending ↔ r' = r) ∧
        (r.ok = true ↔ ¬ HeldByOther s.bus now sid path) ∧
        (r.error = some "claim_conflict" ↔ HeldByOther s.bus now sid path) := by
  refine ⟨?_, ?_, fun c text now t sid path ttl reason h htr => acquire_answered h htr⟩
  · intro bs t path c hbs ht hc hlive
    obtain hno | ⟨cs, a, ds, u, rfl, hu, _, hn⟩ := @along_or_exists _ _ (step cfg fromStr)
      (fun s a => ¬ Interrupts cfg fromStr c.sessionId path s a) s bs
    · exact Or.inl (lease_run (journaled_run hsave hr) hbs ht hc hlive hno)
    · exact Or.inr ⟨cs, a, ds, u, rfl, hu, not_not.mp hn⟩
  · intro a t sid path ttl reason force c h htr hc hlive hsid
    refine acquire_renews h htr ?_
    rw [BusState.grants, liveClaim_eq_some.mpr ⟨hc, hlive⟩]
    simp [hsid]

def leaseLines : String → Option ClientMessage :=
  decodeFrom [(announceLine "s1", .announce "s1" 7 "/" "" none),
    (announceLine "s2", .announce "s2" 7 "/" "" none),
    (acquireLine, .claimAcquire "/x" 100 "" false)]

def leaseConfig : Config := ⟨60, 1024, 3000, false, "carbon"⟩

def leaseActions : List Action :=
  [.connect, .line 0 (announceLine "s1") 1, .proceed 0 1 true, .line 0 acquireLine 2,
    .proceed 0 2 true, .proceed 0 2 true, .proceed 0 2 true]

def bounceActions : List Action :=
  [.shutdown, .drain 0, .proceed 0 3 true, .graceOver, .finalSnapshot, .finalSave true,
    .persistRecv, .persistWake, .persistTryRecv, .persistSnapshot, .persistSave true,
    .persistExit, .finish, .boot 10]

theorem lease_safety_bounce :
    ∃ s t u, run (step leaseConfig leaseLines) (start .default [] 0) leaseActions = some s ∧
      run (step leaseConfig leaseLines) s bounceActions = some t ∧
      run (step leaseConfig leaseLines) t
        [.connect, .line 0 (announceLine "s2") 11, .proceed 0 11 true] = some u ∧
      (∃ s', step leaseConfig leaseLines s (.line 0 acquireLine 5) = some s' ∧
        s'.bus.claims.lookup "/x" = some ⟨"/x", "s1", 100, s'.clock, ""⟩) ∧
      t.bus.claims.lookup "/x" = some ⟨"/x", "s1", 100, 2, ""⟩ ∧
      ∃ u' k r, step leaseConfig leaseLines u (.line 0 acquireLine 12) = some u' ∧
        u'.conns[0]? = some k ∧ .write (.reply r) ∈ k.pending ∧
        r.error = some "claim_conflict" := by
  have hs : (run (step leaseConfig leaseLines) (start .default [] 0) leaseActions).bind (fun s =>
      (step leaseConfig leaseLines s (.line 0 acquireLine 5)).map (fun s' =>
        (s.bus.claims.lookup "/x",
          s.transaction leaseConfig leaseLines (.line 0 acquireLine 5), s'.clock))) =
      some (some ⟨"/x", "s1", 100, 2, ""⟩,
        some (.claimAcquire "s1" "/x" 100 "" false), 5) := by decide
  have ht : (run (step leaseConfig leaseLines) (start .default [] 0)
      (leaseActions ++ bounceActions)).map Daemon.clock = some 10 := by decide
  have hu : (run (step leaseConfig leaseLines) (start .default [] 0) (leaseActions ++
      (bounceActions ++ [.connect, .line 0 (announceLine "s2") 11, .proceed 0 11 true]))).bind
      (fun u => (step leaseConfig leaseLines u (.line 0 acquireLine 12)).map (fun _ =>
        (u.bus.claims.lookup "/x",
          u.transaction leaseConfig leaseLines (.line 0 acquireLine 12)))) =
      some (some ⟨"/x", "s1", 100, 2, ""⟩,
        some (.claimAcquire "s2" "/x" 100 "" false)) := by decide
  obtain ⟨s, hs, hq⟩ := Option.bind_eq_some_iff.mp hs
  obtain ⟨s', hs', hq⟩ := Option.map_eq_some_iff.mp hq
  obtain ⟨t, ht, hclock⟩ := Option.map_eq_some_iff.mp ht
  obtain ⟨u, hu, hv⟩ := Option.bind_eq_some_iff.mp hu
  obtain ⟨u', hu', hv⟩ := Option.map_eq_some_iff.mp hv
  simp only [Prod.mk.injEq] at hq hv
  have hst : run (step leaseConfig leaseLines) s bounceActions = some t := by
    rwa [run_append, hs, Option.bind_some] at ht
  have htu : run (step leaseConfig leaseLines) t
      [.connect, .line 0 (announceLine "s2") 11, .proceed 0 11 true] = some u := by
    rw [run_append, hs, Option.bind_some, run_append, hst, Option.bind_some] at hu
    exact hu
  have lease := lease_safety leaseConfig leaseLines .default [] 0 leaseActions s
    (by simp [leaseActions, SaveSucceeds]) hs
  have hlast := lease_safety leaseConfig leaseLines .default [] 0 _ u
    (by simp [leaseActions, bounceActions, SaveSucceeds]) hu
  refine ⟨s, t, u, hs, hst, htu, ⟨s', hs', ?_⟩, ?_, ?_⟩
  · exact lease.2.1 _ s' _ _ _ _ _ _ hs' hq.2.1 hq.1 (by rw [hq.2.2]; decide) rfl
  · obtain h | ⟨cs, a, ds, v, he, _, hi⟩ := lease.1 bounceActions t "/x" _
      (by simp [bounceActions, SaveSucceeds]) hst hq.1 (by rw [hclock]; decide)
    · exact h
    · obtain ⟨c, text, now, rfl⟩ := interrupts_line hi
      have hmem : Action.line c text now ∈ bounceActions := by rw [he]; simp
      simp [bounceActions] at hmem
  · obtain ⟨k, r, hk, hr, _, herr⟩ := hlast.2.2 0 acquireLine 12 u' _ _ _ _ hu' hv.2
    exact ⟨u', k, r, hu', hk, (hr r).mpr rfl,
      herr.mpr ⟨_, hv.1, by decide, by decide⟩⟩

end Agorabus.Lease
