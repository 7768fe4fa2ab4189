import Agorabus.Library.Json
import Agorabus.Library.Table
import Mathlib.Algebra.Ring.Nat

namespace Agorabus

def field (present : Bool) (key : String) (v : Json) : List (String × Json) :=
  if present then [(key, v)] else []

structure PeerRecord where
  sessionId : String
  pid : Nat
  cwd : String
  intent : String
  lastTool : String
  skill : String
  prdSlug : String
  workingPaths : List String
  lastHeartbeatUnixSecs : Nat
  node : Option String
  extra : List (String × Json)

def PeerRecord.toValue (p : PeerRecord) : Json :=
  .object ([("cwd", .string p.cwd), ("extra", .object p.extra), ("intent", .string p.intent),
      ("last_heartbeat_unix_secs", .nat p.lastHeartbeatUnixSecs),
      ("last_tool", .string p.lastTool)]
    ++ field p.node.isSome "node" (.string (p.node.getD ""))
    ++ [("pid", .nat p.pid)]
    ++ field (!p.prdSlug.isEmpty) "prd_slug" (.string p.prdSlug)
    ++ [("session_id", .string p.sessionId)]
    ++ field (!p.skill.isEmpty) "skill" (.string p.skill)
    ++ field (!p.workingPaths.isEmpty) "working_paths" (.array (p.workingPaths.map .string)))

structure FleetPresenceEvent where
  sessionId : String
  pid : Nat
  cwd : String
  node : String
  ts : Nat

def FleetPresenceEvent.toValue (e : FleetPresenceEvent) : Json :=
  .object [("cwd", .string e.cwd), ("node", .string e.node), ("pid", .nat e.pid),
    ("session_id", .string e.sessionId), ("ts", .nat e.ts)]

/-- Also an array of the fields in order is read as the struct. -/
def FleetPresenceEvent.fromValue (v : Json) : Option FleetPresenceEvent := do
  let item (i : Nat) (key : String) : Option Json :=
    match v with
    | .array xs => if xs.length = 5 then xs[i]? else none
    | _ => v.get? key
  let sessionId ← (← item 0 "session_id").asStr?
  let pid ← (← item 1 "pid").asU64?
  let cwd ← (← item 2 "cwd").asStr?
  let node ← (← item 3 "node").asStr?
  let ts ← (← item 4 "ts").asU64?
  if pid < 2 ^ 32 ∧ ts < 2 ^ 64 then some ⟨sessionId, pid, cwd, node, ts⟩ else none

def fleetPresenceSubjectAnnounce : String := "wm.fleet.presence.announce"

def fleetPeerTtlSecs : Nat := 300

def maxWorkingPaths : Nat := 8

inductive ClientMessage where
  | announce (sessionId : String) (pid : Nat) (cwd intent : String) (node : Option String)
  | update (cwd intent : Option String)
  | heartbeat (tool : String) (skill prdSlug : Option String) (workingPaths : Option (List String))
  | publish (topic : String) (data : Json)
  | subscribe (pre : String)
  | peers
  | claimAcquire (path : String) (ttlUnixSecs : Nat) (reason : String) (force : Bool)
  | claimRelease (path : String)
  | claimList
  | uplinkStatus
  deriving DecidableEq

structure ClaimRecord where
  path : String
  sessionId : String
  ttlUnixSecs : Nat
  acquiredUnixSecs : Nat
  reason : String
  deriving DecidableEq

def ClaimRecord.toValue (c : ClaimRecord) : Json :=
  .object [("acquired_unix_secs", .nat c.acquiredUnixSecs), ("path", .string c.path),
    ("reason", .string c.reason), ("session_id", .string c.sessionId),
    ("ttl_unix_secs", .nat c.ttlUnixSecs)]

structure Reply where
  ok : Bool
  error : Option String
  data : Option Json
  deriving DecidableEq

namespace Reply

def okEmpty : Reply := ⟨true, none, none⟩

def okWith (data : Json) : Reply := ⟨true, none, some data⟩

def err (tag : String) : Reply := ⟨false, some tag, none⟩

end Reply

structure ServerEvent where
  topic : String
  data : Json
  source : String
  deriving DecidableEq

structure DrainNotice where
  op : String
  resumeAfterMs : Nat
  deriving DecidableEq

def DrainNotice.new (resumeAfterMs : Nat) : DrainNotice := ⟨"bus.draining", resumeAfterMs⟩

inductive UplinkStatus where
  | disabled
  | connected (url : String)
  | reconnecting (error : String)

def UplinkStatus.toValue : UplinkStatus → Json
  | .disabled => .object [("state", .string "disabled")]
  | .connected url => .object [("state", .string "connected"), ("url", .string url)]
  | .reconnecting error => .object [("error", .string error), ("state", .string "reconnecting")]

/-- A message on the daemon-wide broadcast channel. The flag marks what came
in over the uplink and must not be relayed out again. -/
structure BroadcastMsg where
  topic : String
  data : Json
  source : String
  fromUplink : Bool

def BroadcastMsg.toEvent (m : BroadcastMsg) : ServerEvent := ⟨m.topic, m.data, m.source⟩

structure StickyIntent where
  skill : String
  prdSlug : String
  workingPaths : List String
  deriving DecidableEq

def StickyIntent.isEmpty (i : StickyIntent) : Bool :=
  i.skill.isEmpty && i.prdSlug.isEmpty && i.workingPaths.isEmpty

/-- The slice of the bus state that survives a daemon bounce. -/
structure DurableState where
  claims : Table String ClaimRecord
  intents : Table String StickyIntent
  deriving DecidableEq

def DurableState.default : DurableState := ⟨∅, ∅⟩

end Agorabus
