import Agorabus.Protocol

namespace Agorabus

/-- The state all connection tasks share. `peerOwners` names the connection
that announced a session first; only its close removes the peer record. -/
structure BusState where
  peers : Table String PeerRecord
  peerOwners : Table String Nat
  claims : Table String ClaimRecord
  intents : Table String StickyIntent

/-- The intent fields of a peer record, as the durable map mirrors them. -/
def PeerRecord.stickyIntent (r : PeerRecord) : StickyIntent :=
  ⟨r.skill, r.prdSlug, r.workingPaths⟩

def PeerRecord.beat (r : PeerRecord) (tool : String) (skill prdSlug : Option String)
    (workingPaths : Option (List String)) (now : Nat) : PeerRecord :=
  { r with
    lastHeartbeatUnixSecs := now
    lastTool := if tool.isEmpty then r.lastTool else tool
    skill := skill.getD r.skill
    prdSlug := prdSlug.getD r.prdSlug
    workingPaths := workingPaths.getD r.workingPaths }

def StickyIntent.overlay (i : StickyIntent) (skill prdSlug : Option String)
    (workingPaths : Option (List String)) : StickyIntent :=
  ⟨skill.getD i.skill, prdSlug.getD i.prdSlug, workingPaths.getD i.workingPaths⟩

def PeerRecord.announced (sid : String) (pid : Nat) (cwd intent : String)
    (node : Option String) (now : Nat) : PeerRecord where
  sessionId := sid
  pid := pid
  cwd := cwd
  intent := intent
  lastTool := ""
  skill := ""
  prdSlug := ""
  workingPaths := []
  lastHeartbeatUnixSecs := now
  node := node
  extra := []

/-- What `ClaimAcquire` decides under the lock: refused because of another
session's claim, or granted, perhaps at the expense of one. -/
inductive Acquired where
  | conflict (c : ClaimRecord)
  | granted (evicted : Option ClaimRecord)

namespace BusState

def fromDurable (durable : DurableState) : BusState :=
  ⟨∅, ∅, durable.claims, durable.intents⟩

def toDurable (st : BusState) : DurableState := ⟨st.claims, st.intents⟩

def pruneExpiredClaims (st : BusState) (now : Nat) : BusState :=
  { st with claims := st.claims.retain (fun _ c => decide (now < c.ttlUnixSecs)) }

def touch (st : BusState) (sid : String) (now : Nat) : BusState :=
  { st with peers := st.peers.modify sid (fun r => { r with lastHeartbeatUnixSecs := now }) }

def announce (st : BusState) (connId : Nat) (sid : String) (pid : Nat) (cwd intent : String)
    (node : Option String) (now : Nat) : BusState :=
  if sid ∈ st.peerOwners then st
  else
    { st with
      peers := st.peers.insert sid (.announced sid pid cwd intent node now)
      peerOwners := st.peerOwners.insert sid connId }

def update (st : BusState) (sid : String) (cwd intent : Option String) (now : Nat) : BusState :=
  { st with peers := st.peers.modify sid (fun r =>
      { r with cwd := cwd.getD r.cwd, intent := intent.getD r.intent,
               lastHeartbeatUnixSecs := now }) }

/-- Besides the state, whether the durable intent slice changed. -/
def heartbeat (st : BusState) (sid tool : String) (skill prdSlug : Option String)
    (workingPaths : Option (List String)) (now : Nat) : BusState × Bool :=
  match st.peers.lookup sid with
  | none => (st, false)
  | some r =>
    let changed := skill.any (· ≠ r.skill) || prdSlug.any (· ≠ r.prdSlug) ||
      workingPaths.any (· ≠ r.workingPaths)
    let st := { st with peers := st.peers.modify sid (fun r =>
      r.beat tool skill prdSlug workingPaths now) }
    let intent := (r.beat tool skill prdSlug workingPaths now).stickyIntent
    if changed then
      ({ st with intents :=
          if intent.isEmpty then st.intents.erase sid else st.intents.insert sid intent }, true)
    else (st, false)

def prunePeers (st : BusState) (timeoutSecs now : Nat) : BusState :=
  { st with peers := st.peers.retain (fun _ r =>
      decide (now - r.lastHeartbeatUnixSecs ≤ timeoutSecs)) }

def claimAcquire (st : BusState) (sid path : String) (ttlUnixSecs : Nat) (reason : String)
    (force : Bool) (now : Nat) : BusState × Acquired :=
  let st := st.pruneExpiredClaims now
  let rec' : ClaimRecord := ⟨path, sid, ttlUnixSecs, now, reason⟩
  let granted := { st with claims := st.claims.insert path rec' }.touch sid now
  match st.claims.lookup path with
  | none => (granted, .granted none)
  | some c =>
    if c.sessionId = sid then (granted, .granted none)
    else if force then (granted, .granted (some c))
    else (st, .conflict c)

/-- Besides the state, whether the session held the claim it releases. -/
def claimRelease (st : BusState) (sid path : String) (now : Nat) : BusState × Bool :=
  let st := st.pruneExpiredClaims now
  match st.claims.lookup path with
  | none => (st.touch sid now, false)
  | some c =>
    if c.sessionId = sid then
      ({ st with claims := st.claims.erase path }.touch sid now, true)
    else (st.touch sid now, false)

/-- What runs after the loop of a connection that is done: only the owner of
a session removes its record. -/
def disconnect (st : BusState) (connId : Nat) (sid : String) : BusState :=
  if st.peerOwners.lookup sid = some connId then
    { st with peers := st.peers.erase sid, peerOwners := st.peerOwners.erase sid }
  else st

end BusState

end Agorabus
