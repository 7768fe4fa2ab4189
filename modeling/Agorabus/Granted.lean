import Agorabus.ClaimTable
import Agorabus.Client

namespace Agorabus.Granted

open Daemon StepSystem

/-- The claim has just been granted: it is one of the unexpired claims, a `ClaimList` shows it, and
an unforced `ClaimAcquire` of another session is refused on its account. -/
structure Live (cfg : Config) (bus : BusState) (now : Nat) (claim : ClaimRecord) : Prop where
  unexpired : ∀ path c, bus.claims.lookup path = some c → now < c.ttlUnixSecs
  listed : ∀ k sid uplink sent, ∃ claims : List ClaimRecord,
    (handleMessage cfg k sid bus uplink sent now .claimList).conn.pending =
      [.write (.reply (.okWith (.array (claims.map ClaimRecord.toValue))))] ∧ claim ∈ claims
  refused : ∀ k sid uplink sent ttl reason, sid ≠ claim.sessionId →
    (handleMessage cfg k sid bus uplink sent now
      (.claimAcquire claim.path ttl reason false)).conn.pending =
      [.write (.reply (claimConflictReply claim))]

/-- The connection is about to be answered that its request has succeeded. -/
def AnsweredOk (s : Daemon) (c : Nat) : Prop :=
  ∃ k r, s.conns[c]? = some k ∧ .write (.reply r) ∈ k.pending ∧ r.ok = true

variable {cfg : Config} {fromStr : String → Option ClientMessage} {s t : Daemon} {k : Conn}
  {bus : BusState} {c now ttl : Nat} {text sid path reason : String} {force : Bool}

theorem lookup_granted (h : bus.grants now sid path force = true) (p : String) :
    (bus.claimAcquire sid path ttl reason force now).1.claims.lookup p =
      if p = path then some ⟨path, sid, ttl, now, reason⟩ else liveClaim bus.claims now p := by
  rw [BusState.claimAcquire_granted h, BusState.touch_claims, Table.lookup_insert, lookup_prune]

theorem live_iff (h : bus.grants now sid path force = true) :
    Live cfg (bus.claimAcquire sid path ttl reason force now).1 now ⟨path, sid, ttl, now, reason⟩ ↔
      now < ttl := by
  have hlookup (p : String) : (bus.claimAcquire sid path ttl reason force now).1.claims.lookup p =
      if p = path then some ⟨path, sid, ttl, now, reason⟩ else liveClaim bus.claims now p :=
    lookup_granted h p
  have hpath : (bus.claimAcquire sid path ttl reason force now).1.claims.lookup path =
      some ⟨path, sid, ttl, now, reason⟩ := by
    rw [hlookup, if_pos rfl]
  constructor
  · intro hlive
    exact hlive.unexpired path _ hpath
  · intro hfresh
    have hclaim : liveClaim (bus.claimAcquire sid path ttl reason force now).1.claims now path =
        some ⟨path, sid, ttl, now, reason⟩ := liveClaim_eq_some.mpr ⟨hpath, hfresh⟩
    refine ⟨fun p c hc => ?_, fun k sid' uplink sent => ?_,
      fun k sid' uplink sent ttl' reason' hne => ?_⟩
    · rw [hlookup] at hc
      split at hc
      · cases hc
        exact hfresh
      · exact (liveClaim_eq_some.mp hc).2
    · refine ⟨_, rfl, (Table.mem_values _ _).mpr ⟨path, ?_⟩⟩
      rw [lookup_prune, hclaim]
    · rw [handleMessage_claimAcquire, BusState.claimAcquire_decision, hclaim]
      dsimp only
      rw [if_neg (Ne.symm hne), if_neg Bool.false_ne_true]
      rfl

theorem takeLine_message {m : ClientMessage} (hk : s.conns[c]? = some k)
    (hsid : k.sessionId = some sid) (hm : Encodes fromStr text m) :
    (s.takeLine cfg fromStr c k text now).bus =
        (handleMessage cfg k sid s.bus s.uplinkStatus s.log.length now m).bus ∧
      (s.takeLine cfg fromStr c k text now).conns[c]? =
        some (handleMessage cfg k sid s.bus s.uplinkStatus s.log.length now m).conn := by
  have hline : handleLine cfg fromStr k c s.bus s.uplinkStatus s.log.length now text =
      handleMessage cfg k sid s.bus s.uplinkStatus s.log.length now m := by
    rw [handleLine, hm.1, if_neg Bool.false_ne_true, hm.2, hsid]
  rw [takeLine, hline]
  exact ⟨rfl, getElem?_set_conn hk _⟩

theorem grants_of_answeredOk (hk : s.conns[c]? = some k) (hsid : k.sessionId = some sid)
    (hm : Encodes fromStr text (.claimAcquire path ttl reason force))
    (hok : AnsweredOk (s.takeLine cfg fromStr c k text now) c) :
    s.bus.grants now sid path force = true := by
  obtain ⟨k', r, hk', hr, hrok⟩ := hok
  rw [(takeLine_message hk hsid hm).2, Option.some.injEq] at hk'
  subst hk'
  rw [handleMessage_claimAcquire, BusState.claimAcquire_decision] at hr
  rw [BusState.grants]
  cases hlive : liveClaim s.bus.claims now path with
  | none => rfl
  | some holder =>
    rw [hlive] at hr
    dsimp only at hr ⊢
    by_cases hown : holder.sessionId = sid
    · rw [decide_eq_true hown, Bool.true_or]
    · cases force with
      | true => rw [Bool.or_true]
      | false =>
        -- the reply of a conflict reports no success
        rw [if_neg hown, if_neg Bool.false_ne_true] at hr
        obtain rfl : r = claimConflictReply holder := by simpa [answer] using hr
        cases hrok

/-- Whatever the state that the daemon has come to, a claim that is granted is live if and only if
it expires later than now; the table is pruned before the claim is entered, and not after. -/
theorem granted_live_iff (cfg : Config) (fromStr : String → Option ClientMessage)
    (file : DurableState) (log : List BroadcastMsg) (boot : Nat) (as : List Action)
    (hs : run (step cfg fromStr) (start file log boot) as = some s)
    (hk : s.conns[c]? = some k) (hsid : k.sessionId = some sid)
    (hm : Encodes fromStr text (.claimAcquire path ttl reason force))
    (ht : run (step cfg fromStr) (start file log boot) (as ++ [.line c text now]) = some t)
    (hok : AnsweredOk t c) : Live cfg t.bus now ⟨path, sid, ttl, now, reason⟩ ↔ now < ttl := by
  have h : step cfg fromStr s (.line c text now) = some t := by
    rw [run_append, hs, Option.bind_some, run_cons, Option.bind_eq_some_iff] at ht
    obtain ⟨u, hu, hut⟩ := ht
    cases hut
    exact hu
  obtain ⟨k₀, hk₀, _, rfl⟩ := step_line.mp h
  obtain rfl : k = k₀ := Option.some.inj (hk.symm.trans hk₀)
  have hgrants := grants_of_answeredOk hk hsid hm hok
  have hbus : (s.takeLine cfg fromStr c k text now).bus =
      (s.bus.claimAcquire sid path ttl reason force now).1 := by
    rw [(takeLine_message hk hsid hm).1, handleMessage_claimAcquire]
    cases (s.bus.claimAcquire sid path ttl reason force now).2 <;> rfl
  rw [hbus]
  exact live_iff hgrants

def grantConfig : Config := ⟨60, 1024, 3000, false, "carbon"⟩

def grantLines : String → Option ClientMessage :=
  decodeFrom [(announceLine "s1", .announce "s1" 7 "/" "" none),
    (acquireLine, .claimAcquire "/x" 100 "" false)]

def grantSteps : List Action := [.connect, .line 0 (announceLine "s1") 1, .proceed 0 1 true]

theorem acquire_answered {now : Nat} (hn : now = 99 ∨ now = 100) : ∃ s k t,
    run (step grantConfig grantLines) (start .default [] 0) grantSteps = some s ∧
      s.conns[0]? = some k ∧ k.sessionId = some "s1" ∧
      run (step grantConfig grantLines) (start .default [] 0)
        (grantSteps ++ [.line 0 acquireLine now]) = some t ∧ AnsweredOk t 0 := by
  have hbefore : (run (step grantConfig grantLines) (start .default [] 0) grantSteps).bind
      (fun s => s.conns[0]?.map Conn.sessionId) = some (some "s1") := by decide +kernel
  have hafter : ((run (step grantConfig grantLines) (start .default [] 0)
      (grantSteps ++ [.line 0 acquireLine now])).bind (fun t => t.conns[0]?)).map
      (fun k => k.pending.getLast?.bind Effect.line?) =
      some (some (.reply (.okWith (.object [("path", .string "/x"),
        ("ttl_unix_secs", .nat 100)])))) := by
    obtain rfl | rfl := hn
    · decide +kernel
    · decide +kernel
  obtain ⟨s, hs, hk⟩ := Option.bind_eq_some_iff.mp hbefore
  obtain ⟨k, hk, hsid⟩ := Option.map_eq_some_iff.mp hk
  obtain ⟨k', hk', hlast⟩ := Option.map_eq_some_iff.mp hafter
  obtain ⟨t, ht, hk'⟩ := Option.bind_eq_some_iff.mp hk'
  obtain ⟨e, he, hline⟩ := Option.bind_eq_some_iff.mp hlast
  refine ⟨s, k, t, hs, hk, hsid, ht, k', .okWith (.object [("path", .string "/x"),
    ("ttl_unix_secs", .nat 100)]), hk', ?_, rfl⟩
  have hmem := List.mem_of_getLast? he
  cases e with
  | write l =>
    cases hline
    exact hmem
  | writeNotice n => cases hline
  | _ => cases hline

theorem granted_live_in_time :
    ∃ t : Daemon, Live grantConfig t.bus 99 ⟨"/x", "s1", 100, 99, ""⟩ := by
  obtain ⟨s, k, t, hs, hk, hsid, ht, hok⟩ := acquire_answered (Or.inl rfl)
  have hm : Encodes grantLines acquireLine (.claimAcquire "/x" 100 "" false) := by
    decide +kernel
  exact ⟨t, (granted_live_iff _ _ _ _ _ _ hs hk hsid hm ht hok).mpr (by decide)⟩

/-- A claim that expires at once is granted, and is in the table. -/
theorem granted_not_live : ¬ ∀ (cfg : Config) (fromStr : String → Option ClientMessage)
    (file : DurableState) (log : List BroadcastMsg) (boot : Nat) (as : List Action) (s t : Daemon)
    (k : Conn) (c now ttl : Nat) (text sid path reason : String) (force : Bool),
    run (step cfg fromStr) (start file log boot) as = some s → s.conns[c]? = some k →
    k.sessionId = some sid → Encodes fromStr text (.claimAcquire path ttl reason force) →
    run (step cfg fromStr) (start file log boot) (as ++ [.line c text now]) = some t →
    AnsweredOk t c → Live cfg t.bus now ⟨path, sid, ttl, now, reason⟩ := by
  intro h
  obtain ⟨s, k, t, hs, hk, hsid, ht, hok⟩ := acquire_answered (Or.inr rfl)
  have hm : Encodes grantLines acquireLine (.claimAcquire "/x" 100 "" false) := by
    decide +kernel
  have hlive := h _ _ _ _ _ _ s t k 0 100 100 _ "s1" "/x" "" false hs hk hsid hm ht hok
  have hclaims : ((run (step grantConfig grantLines) (start .default [] 0)
      (grantSteps ++ [.line 0 acquireLine 100])).bind (fun t => t.bus.claims.lookup "/x")) =
      some ⟨"/x", "s1", 100, 100, ""⟩ := by decide +kernel
  rw [ht, Option.bind_some] at hclaims
  exact absurd (hlive.unexpired "/x" _ hclaims) (by decide)

end Agorabus.Granted
