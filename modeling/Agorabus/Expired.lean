import Agorabus.Steps

namespace Agorabus

namespace BusState

variable {st st' : BusState} {now later : Nat}

/-- The states differ in expired claims only. -/
def Alike (now : Nat) (st st' : BusState) : Prop :=
  st.pruneExpiredClaims now = st'.pruneExpiredClaims now

theorem prune_prune (h : now ≤ later) (st : BusState) :
    (st.pruneExpiredClaims now).pruneExpiredClaims later = st.pruneExpiredClaims later := by
  simp only [pruneExpiredClaims, mk.injEq, true_and, and_true]
  refine Table.retain_retain (fun _ c hc => ?_) st.claims
  rw [decide_eq_true_eq] at hc ⊢
  omega

theorem Alike.mono (h : Alike now st st') (hl : now ≤ later) : Alike later st st' := by
  rw [Alike, ← prune_prune hl st, ← prune_prune hl st', h]

theorem alike_prune (h : now ≤ later) (st : BusState) :
    Alike later (st.pruneExpiredClaims now) st :=
  prune_prune h st

theorem Alike.tables (h : Alike now st st') :
    st.peers = st'.peers ∧ st.peerOwners = st'.peerOwners ∧ st.intents = st'.intents := by
  simp only [Alike, pruneExpiredClaims, mk.injEq] at h
  exact ⟨h.1, h.2.1, h.2.2.2⟩

theorem apply_prune (st : BusState) (now : Nat) (tr : Transaction) :
    tr.apply (st.pruneExpiredClaims now) now = tr.apply st now ∨
      tr.apply (st.pruneExpiredClaims now) now = (tr.apply st now).pruneExpiredClaims now := by
  have hp := prune_prune (Nat.le_refl now) st
  cases tr with
  | announce c sid pid cwd intent node =>
    simp only [Transaction.apply, announce]
    by_cases ho : sid ∈ st.peerOwners
    · rw [if_pos ho, if_pos (show sid ∈ (st.pruneExpiredClaims now).peerOwners from ho)]
      exact Or.inr rfl
    · rw [if_neg ho, if_neg (show sid ∉ (st.pruneExpiredClaims now).peerOwners from ho)]
      exact Or.inr rfl
  | heartbeat sid tool skill prdSlug paths =>
    refine Or.inr ?_
    simp only [Transaction.apply, heartbeat]
    have hl : (st.pruneExpiredClaims now).peers.lookup sid = st.peers.lookup sid := rfl
    rw [hl]
    cases st.peers.lookup sid with
    | none => rfl
    | some r =>
      dsimp only
      split <;> rfl
  | claimAcquire sid path ttl reason force =>
    exact Or.inl (by simp only [Transaction.apply, claimAcquire, hp])
  | claimRelease sid path =>
    exact Or.inl (by simp only [Transaction.apply, claimRelease, hp])
  | claimList => exact Or.inl hp
  | disconnect c sid =>
    simp only [Transaction.apply, disconnect]
    by_cases ho : st.peerOwners.lookup sid = some c
    · rw [if_pos ho, if_pos (show (st.pruneExpiredClaims now).peerOwners.lookup sid = _ from ho)]
      exact Or.inr rfl
    · rw [if_neg ho, if_neg (show (st.pruneExpiredClaims now).peerOwners.lookup sid ≠ _ from ho)]
      exact Or.inr rfl
  | _ => exact Or.inr rfl

theorem alike_apply_prune (st : BusState) (now : Nat) (tr : Transaction) :
    Alike now (tr.apply (st.pruneExpiredClaims now) now) (tr.apply st now) := by
  obtain h | h := apply_prune st now tr
  · rw [h]
    exact rfl
  · rw [h]
    exact prune_prune (Nat.le_refl now) _

theorem Alike.apply (h : Alike now st st') (tr : Transaction) :
    Alike now (tr.apply st now) (tr.apply st' now) := by
  have hs := alike_apply_prune st now tr
  have hs' := alike_apply_prune st' now tr
  rw [show st.pruneExpiredClaims now = st'.pruneExpiredClaims now from h] at hs
  exact hs.symm.trans hs'

theorem Alike.commit (h : Alike now st st') (o : Option Transaction) :
    Alike now (st.commit now o) (st'.commit now o) := by
  cases o with
  | none => exact h
  | some tr => exact h.apply tr

theorem Alike.claimAcquire (h : Alike now st st') (sid path : String) (ttl : Nat)
    (reason : String) (force : Bool) : st.claimAcquire sid path ttl reason force now =
      st'.claimAcquire sid path ttl reason force now := by
  rw [Alike] at h
  simp only [BusState.claimAcquire, h]

theorem Alike.claimRelease (h : Alike now st st') (sid path : String) :
    st.claimRelease sid path now = st'.claimRelease sid path now := by
  rw [Alike] at h
  simp only [BusState.claimRelease, h]

theorem Alike.heartbeat (h : Alike now st st') (sid tool : String)
    (skill prdSlug : Option String) (paths : Option (List String)) :
    (st.heartbeat sid tool skill prdSlug paths now).2 =
      (st'.heartbeat sid tool skill prdSlug paths now).2 := by
  simp only [BusState.heartbeat, h.tables.1]
  cases st'.peers.lookup sid with
  | none => rfl
  | some r =>
    dsimp only
    split <;> rfl

end BusState

structure Served.Alike (now : Nat) (r r' : Served) : Prop where
  conn : r.conn = r'.conn
  sent : r.sent = r'.sent
  bus : BusState.Alike now r.bus r'.bus

section line

variable (cfg : Config) (fromStr : String → Option ClientMessage) (k : Conn) (c : Nat)
  {bus bus' : BusState} (uplink : UplinkStatus) (sent : Nat) {now : Nat}

theorem handleMessage_alike (h : BusState.Alike now bus bus') (sid : String)
    (msg : ClientMessage) :
    Served.Alike now (handleMessage cfg k sid bus uplink sent now msg)
      (handleMessage cfg k sid bus' uplink sent now msg) := by
  have hb : BusState.Alike now (handleMessage cfg k sid bus uplink sent now msg).bus
      (handleMessage cfg k sid bus' uplink sent now msg).bus := by
    rw [Daemon.handleMessage_bus, Daemon.handleMessage_bus]
    exact h.commit _
  cases msg with
  | heartbeat tool skill prdSlug paths =>
    simp only [handleMessage] at hb ⊢
    split at hb
    · rename_i hp
      rw [if_pos hp, if_pos hp]
      exact ⟨rfl, rfl, h⟩
    · rename_i hp
      rw [if_neg hp, if_neg hp]
      exact ⟨by simp only [h.heartbeat], rfl, hb⟩
  | peers =>
    refine ⟨?_, rfl, hb⟩
    simp only [handleMessage, answer, BusState.prunePeers, h.tables.1]
  | claimAcquire path ttl reason force =>
    simp only [handleMessage, h.claimAcquire]
    split <;> exact ⟨rfl, rfl, rfl⟩
  | claimRelease path =>
    simp only [handleMessage, h.claimRelease]
    exact ⟨rfl, rfl, rfl⟩
  | claimList =>
    refine ⟨?_, rfl, hb⟩
    rw [BusState.Alike] at h
    simp only [handleMessage, answer, h]
  | _ => exact ⟨rfl, rfl, hb⟩

theorem handleLine_alike (h : BusState.Alike now bus bus') (line : String) :
    Served.Alike now (handleLine cfg fromStr k c bus uplink sent now line)
      (handleLine cfg fromStr k c bus' uplink sent now line) := by
  unfold handleLine
  split
  · exact ⟨rfl, rfl, h⟩
  · cases fromStr (trim line) with
    | none => exact ⟨rfl, rfl, h⟩
    | some msg =>
      cases k.sessionId with
      | some sid => exact handleMessage_alike cfg k uplink sent h sid msg
      | none =>
        cases msg with
        | announce sid pid cwd intent node =>
          exact ⟨rfl, rfl, h.apply (.announce c sid pid cwd intent node)⟩
        | _ => exact ⟨rfl, rfl, h⟩

def Conn.rewritten (k : Conn) (w : List OutLine) : Conn := { k with written := w }

theorem handleLine_rewritten (w : List OutLine) (bus : BusState) (now : Nat) (line : String) :
    handleLine cfg fromStr (k.rewritten w) c bus uplink sent now line =
      { handleLine cfg fromStr k c bus uplink sent now line with
        conn := (handleLine cfg fromStr k c bus uplink sent now line).conn.rewritten w } := by
  unfold handleLine
  split
  · rfl
  · cases fromStr (trim line) with
    | none => rfl
    | some msg =>
      have hs : (k.rewritten w).sessionId = k.sessionId := rfl
      rw [hs]
      cases k.sessionId with
      | none => cases msg <;> rfl
      | some sid =>
        cases msg with
        | heartbeat tool skill prdSlug paths =>
          simp only [handleMessage]
          split <;> rfl
        | claimAcquire path ttl reason force =>
          simp only [handleMessage]
          split <;> rfl
        | _ => rfl

end line

variable {now later : Nat}

def DurableState.Alike (now : Nat) (d d' : DurableState) : Prop :=
  BusState.Alike now (.fromDurable d) (.fromDurable d')

theorem BusState.Alike.toDurable {st st' : BusState} (h : BusState.Alike now st st') :
    DurableState.Alike now st.toDurable st'.toDurable := by
  simp only [BusState.Alike, pruneExpiredClaims, mk.injEq] at h
  simp only [DurableState.Alike, BusState.Alike, pruneExpiredClaims, fromDurable,
    BusState.toDurable, h.2.2]

inductive PersistPc.Alike (now : Nat) : PersistPc → PersistPc → Prop
  | same (p : PersistPc) : Alike now p p
  | saving {d d' : DurableState} (h : DurableState.Alike now d d') :
      Alike now (.saving d) (.saving d')

inductive MainPc.Alike (now : Nat) : MainPc → MainPc → Prop
  | same (p : MainPc) : Alike now p p
  | flushing {d d' : DurableState} (h : DurableState.Alike now d d') :
      Alike now (.flushing d) (.flushing d')

theorem PersistPc.Alike.saving_left {p : PersistPc} {d : DurableState}
    (h : PersistPc.Alike now (.saving d) p) :
    ∃ d', p = .saving d' ∧ DurableState.Alike now d d' := by
  cases h with
  | same => exact ⟨d, rfl, rfl⟩
  | saving h => exact ⟨_, rfl, h⟩

theorem MainPc.Alike.flushing_left {p : MainPc} {d : DurableState}
    (h : MainPc.Alike now (.flushing d) p) :
    ∃ d', p = .flushing d' ∧ DurableState.Alike now d d' := by
  cases h with
  | same => exact ⟨d, rfl, rfl⟩
  | flushing h => exact ⟨_, rfl, h⟩

theorem PersistPc.Alike.mono {p p' : PersistPc} (h : PersistPc.Alike now p p')
    (hl : now ≤ later) : PersistPc.Alike later p p' := by
  cases h with
  | same => exact .same p
  | saving hd => exact .saving (BusState.Alike.mono hd hl)

theorem PersistPc.Alike.eq_of {p p' : PersistPc} (h : PersistPc.Alike now p p')
    (hne : ∀ d, p ≠ .saving d) : p' = p := by
  cases h with
  | same => rfl
  | saving => exact absurd rfl (hne _)

theorem MainPc.Alike.eq_of {p p' : MainPc} (h : MainPc.Alike now p p')
    (hne : ∀ d, p ≠ .flushing d) : p' = p := by
  cases h with
  | same => rfl
  | flushing => exact absurd rfl (hne _)

theorem MainPc.Alike.mono {p p' : MainPc} (h : MainPc.Alike now p p') (hl : now ≤ later) :
    MainPc.Alike later p p' := by
  cases h with
  | same => exact .same p
  | flushing hd => exact .flushing (BusState.Alike.mono hd hl)

theorem PersistPc.Alike.symm {p p' : PersistPc} (h : PersistPc.Alike now p p') :
    PersistPc.Alike now p' p := by
  cases h with
  | same => exact .same p
  | saving hd => exact .saving (Eq.symm hd)

theorem MainPc.Alike.symm {p p' : MainPc} (h : MainPc.Alike now p p') :
    MainPc.Alike now p' p := by
  cases h with
  | same => exact .same p
  | flushing hd => exact .flushing (Eq.symm hd)

theorem MainPc.Alike.uplinkAlive {p p' : MainPc} (h : MainPc.Alike now p p') :
    p.uplinkAlive = p'.uplinkAlive := by
  cases h <;> rfl

end Agorabus
