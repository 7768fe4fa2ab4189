import Agorabus.BusState

namespace Agorabus

/-- What one task does to the bus state while it holds the lock once. -/
inductive Transaction where
  | announce (connId : Nat) (sid : String) (pid : Nat) (cwd intent : String)
      (node : Option String)
  | update (sid : String) (cwd intent : Option String)
  | heartbeat (sid tool : String) (skill prdSlug : Option String)
      (workingPaths : Option (List String))
  | touch (sid : String)
  | peers (timeoutSecs : Nat)
  | claimAcquire (sid path : String) (ttlUnixSecs : Nat) (reason : String) (force : Bool)
  | claimRelease (sid path : String)
  | claimList
  | disconnect (connId : Nat) (sid : String)
  deriving DecidableEq

def Transaction.apply (st : BusState) (now : Nat) : Transaction → BusState
  | .announce connId sid pid cwd intent node => st.announce connId sid pid cwd intent node now
  | .update sid cwd intent => st.update sid cwd intent now
  | .heartbeat sid tool skill prdSlug workingPaths =>
      (st.heartbeat sid tool skill prdSlug workingPaths now).1
  | .touch sid => st.touch sid now
  | .peers timeoutSecs => st.prunePeers timeoutSecs now
  | .claimAcquire sid path ttl reason force => (st.claimAcquire sid path ttl reason force now).1
  | .claimRelease sid path => (st.claimRelease sid path now).1
  | .claimList => st.pruneExpiredClaims now
  | .disconnect connId sid => st.disconnect connId sid

def Transaction.overlay (sid : String) (i : StickyIntent) : Transaction → StickyIntent
  | .heartbeat sid' _ skill prdSlug workingPaths =>
      if sid = sid' then i.overlay skill prdSlug workingPaths else i
  | _ => i

def Transaction.retool (sid lastTool : String) : Transaction → String
  | .heartbeat sid' tool .. =>
      if sid = sid' then if tool.isEmpty then lastTool else tool else lastTool
  | _ => lastTool

/-- What the lock section leaves in the record of a session: only a heartbeat changes an intent
field or the tool. -/
structure Transaction.Revises (tr : Transaction) (sid : String) (r r' : PeerRecord) : Prop where
  sessionId : r'.sessionId = r.sessionId
  pid : r'.pid = r.pid
  node : r'.node = r.node
  intent : r'.stickyIntent = tr.overlay sid r.stickyIntent
  tool : r'.lastTool = tr.retool sid r.lastTool

namespace BusState

def commit (st : BusState) (now : Nat) : Option Transaction → BusState
  | none => st
  | some tr => tr.apply st now

variable (st : BusState) (sid tool path reason : String) (now ttl : Nat)
  (cwd intent skill prdSlug : Option String) (paths : Option (List String)) (force : Bool)

@[simp] theorem touch_claims : (st.touch sid now).claims = st.claims := rfl

theorem heartbeat_peers_lookup (j : String) :
    (st.heartbeat sid tool skill prdSlug paths now).1.peers.lookup j =
      if j = sid then (st.peers.lookup j).map (·.beat tool skill prdSlug paths now)
      else st.peers.lookup j := by
  unfold heartbeat
  cases h : st.peers.lookup sid with
  | none =>
    by_cases hj : j = sid
    · subst j; simp [h]
    · simp [hj]
  | some r =>
    dsimp only
    split <;> exact Table.lookup_modify _ _ _ _

theorem mem_heartbeat_peers (j : String) :
    j ∈ (st.heartbeat sid tool skill prdSlug paths now).1.peers ↔ j ∈ st.peers := by
  rw [Table.mem_iff_lookup, Table.mem_iff_lookup, heartbeat_peers_lookup]
  by_cases h : j = sid <;> simp [h]

theorem heartbeat_frame :
    (st.heartbeat sid tool skill prdSlug paths now).1.peerOwners = st.peerOwners ∧
      (st.heartbeat sid tool skill prdSlug paths now).1.claims = st.claims := by
  unfold heartbeat
  split
  · exact ⟨rfl, rfl⟩
  · dsimp only
    split <;> exact ⟨rfl, rfl⟩

theorem claimAcquire_frame :
    (st.claimAcquire sid path ttl reason force now).1.peerOwners = st.peerOwners ∧
      (st.claimAcquire sid path ttl reason force now).1.intents = st.intents ∧
      ((st.claimAcquire sid path ttl reason force now).1.peers = st.peers ∨
        (st.claimAcquire sid path ttl reason force now).1.peers = (st.touch sid now).peers) := by
  unfold claimAcquire
  dsimp only
  split
  · exact ⟨rfl, rfl, Or.inr rfl⟩
  · split
    · exact ⟨rfl, rfl, Or.inr rfl⟩
    · split
      · exact ⟨rfl, rfl, Or.inr rfl⟩
      · exact ⟨rfl, rfl, Or.inl rfl⟩

theorem claimRelease_frame :
    (st.claimRelease sid path now).1.peerOwners = st.peerOwners ∧
      (st.claimRelease sid path now).1.intents = st.intents ∧
      (st.claimRelease sid path now).1.peers = (st.touch sid now).peers := by
  unfold claimRelease
  dsimp only
  split
  · exact ⟨rfl, rfl, rfl⟩
  · split <;> exact ⟨rfl, rfl, rfl⟩

theorem apply_peerOwners (tr : Transaction) :
    (tr.apply st now).peerOwners = match tr with
      | .announce c sid .. =>
          if sid ∈ st.peerOwners then st.peerOwners else st.peerOwners.insert sid c
      | .disconnect c sid =>
          if st.peerOwners.lookup sid = some c then st.peerOwners.erase sid else st.peerOwners
      | _ => st.peerOwners := by
  cases tr with
  | announce c sid pid cwd intent node =>
    simp only [Transaction.apply, announce]
    split <;> rfl
  | heartbeat sid tool skill prdSlug paths => exact (heartbeat_frame ..).1
  | claimAcquire sid path ttl reason force => exact (claimAcquire_frame ..).1
  | claimRelease sid path => exact (claimRelease_frame ..).1
  | disconnect c sid =>
    simp only [Transaction.apply, disconnect]
    split <;> rfl
  | _ => rfl

theorem mem_apply_peers (tr : Transaction) (j : String) :
    j ∈ (tr.apply st now).peers ↔ match tr with
      | .announce _ sid .. => j ∈ st.peers ∨ (sid ∉ st.peerOwners ∧ j = sid)
      | .disconnect c sid => j ∈ st.peers ∧ ¬ (st.peerOwners.lookup sid = some c ∧ j = sid)
      | .peers timeout =>
          ∃ r, st.peers.lookup j = some r ∧ now - r.lastHeartbeatUnixSecs ≤ timeout
      | _ => j ∈ st.peers := by
  cases tr with
  | announce c sid pid cwd intent node =>
    simp only [Transaction.apply, announce]
    split
    · rename_i h
      simp [h]
    · rename_i h
      simp only [AList.mem_insert, h, not_false_eq_true, true_and, or_comm]
  | update sid cwd intent => exact Table.mem_modify _ _ _ _
  | heartbeat sid tool skill prdSlug paths => exact mem_heartbeat_peers ..
  | touch sid => exact Table.mem_modify _ _ _ _
  | peers timeout =>
    simp only [Transaction.apply, prunePeers, Table.mem_iff_lookup, Table.lookup_retain]
    cases st.peers.lookup j <;> simp [Option.filter]
  | claimAcquire sid path ttl reason force =>
    rw [Transaction.apply]
    obtain hp | hp := (claimAcquire_frame st sid path reason now ttl force).2.2
    · rw [hp]
    · rw [hp]
      exact Table.mem_modify _ _ _ _
  | claimRelease sid path =>
    rw [Transaction.apply, (claimRelease_frame st sid path now).2.2]
    exact Table.mem_modify _ _ _ _
  | claimList => exact Iff.rfl
  | disconnect c sid =>
    simp only [Transaction.apply, disconnect]
    split
    · rename_i h
      simp only [AList.mem_erase, h, true_and, and_comm, ne_eq]
    · rename_i h
      simp [h]

theorem lookup_apply_peers {st : BusState} {now : Nat} {tr : Transaction} {j : String}
    {r' : PeerRecord} (h : (tr.apply st now).peers.lookup j = some r') :
    (∃ c pid cwd intent node, tr = .announce c j pid cwd intent node ∧ j ∉ st.peerOwners ∧
      r' = .announced j pid cwd intent node now) ∨
    ∃ r, st.peers.lookup j = some r ∧ tr.Revises j r r' := by
  have touched {sid : String} (ht : (st.touch sid now).peers.lookup j = some r') :
      ∃ r n, st.peers.lookup j = some r ∧ r' = { r with lastHeartbeatUnixSecs := n } := by
    rw [touch, Table.lookup_modify] at ht
    split at ht
    · obtain ⟨r, hr, rfl⟩ := Option.map_eq_some_iff.mp ht
      exact ⟨r, now, hr, rfl⟩
    · exact ⟨r', _, ht, rfl⟩
  cases tr with
  | announce c sid pid cwd intent node =>
    simp only [Transaction.apply, announce] at h
    split at h
    · exact Or.inr ⟨r', h, rfl, rfl, rfl, rfl, rfl⟩
    · rename_i ho
      rw [Table.lookup_insert] at h
      split at h
      · rename_i hj
        subst hj
        exact Or.inl ⟨c, pid, cwd, intent, node, rfl, ho, (Option.some.inj h).symm⟩
      · exact Or.inr ⟨r', h, rfl, rfl, rfl, rfl, rfl⟩
  | update sid cwd intent =>
    rw [Transaction.apply, update, Table.lookup_modify] at h
    split at h
    · obtain ⟨r, hr, rfl⟩ := Option.map_eq_some_iff.mp h
      exact Or.inr ⟨r, hr, rfl, rfl, rfl, rfl, rfl⟩
    · exact Or.inr ⟨r', h, rfl, rfl, rfl, rfl, rfl⟩
  | heartbeat sid tool skill prdSlug paths =>
    rw [Transaction.apply, heartbeat_peers_lookup] at h
    split at h
    · rename_i hj
      obtain ⟨r, hr, rfl⟩ := Option.map_eq_some_iff.mp h
      exact Or.inr ⟨r, hr, rfl, rfl, rfl, (if_pos hj).symm, (if_pos hj).symm⟩
    · rename_i hj
      exact Or.inr ⟨r', h, rfl, rfl, rfl, (if_neg hj).symm, (if_neg hj).symm⟩
  | touch sid =>
    obtain ⟨r, n, hr, rfl⟩ := touched h
    exact Or.inr ⟨r, hr, rfl, rfl, rfl, rfl, rfl⟩
  | peers timeout =>
    rw [Transaction.apply, prunePeers, Table.lookup_retain, Option.filter_eq_some_iff] at h
    exact Or.inr ⟨r', h.1, rfl, rfl, rfl, rfl, rfl⟩
  | claimAcquire sid path ttl reason force =>
    rw [Transaction.apply] at h
    obtain hp | hp := (claimAcquire_frame st sid path reason now ttl force).2.2
    · exact Or.inr ⟨r', by rw [← hp]; exact h, rfl, rfl, rfl, rfl, rfl⟩
    · rw [hp] at h
      obtain ⟨r, n, hr, rfl⟩ := touched h
      exact Or.inr ⟨r, hr, rfl, rfl, rfl, rfl, rfl⟩
  | claimRelease sid path =>
    rw [Transaction.apply, (claimRelease_frame st sid path now).2.2] at h
    obtain ⟨r, n, hr, rfl⟩ := touched h
    exact Or.inr ⟨r, hr, rfl, rfl, rfl, rfl, rfl⟩
  | claimList => exact Or.inr ⟨r', h, rfl, rfl, rfl, rfl, rfl⟩
  | disconnect c sid =>
    simp only [Transaction.apply, disconnect] at h
    split at h
    · rw [Table.lookup_erase] at h
      split at h
      · cases h
      · exact Or.inr ⟨r', h, rfl, rfl, rfl, rfl, rfl⟩
    · exact Or.inr ⟨r', h, rfl, rfl, rfl, rfl, rfl⟩

end BusState

end Agorabus
