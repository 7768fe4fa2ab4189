import Agorabus.BusState

namespace Agorabus

structure Config where
  heartbeatTimeoutSecs : Nat
  broadcastCapacity : Nat
  drainResumeHintMs : Nat
  uplinkEnabled : Bool
  node : String

inductive OutLine where
  | reply (r : Reply)
  | event (e : ServerEvent)
  | notice (n : DrainNotice)
  deriving DecidableEq

/-- What a connection task has left to do before it is back at its select, in
the steps between which other tasks may run. -/
inductive Effect where
  | touch (sid : String)
  | signal
  | broadcast (m : BroadcastMsg)
  | write (l : OutLine)
  | writeNotice (n : DrainNotice)
  | bail
  | cleanup

inductive Status where
  | running
  | returned
  | aborted
  deriving DecidableEq

/-- A connection task: its local variables, the rest of what it is doing, and
the lines its socket has taken so far. The receiver is the number of broadcast
messages that precede the next one it will see. -/
structure Conn where
  status : Status
  sessionId : Option String
  subscribedPrefixes : List String
  bcastRx : Option Nat
  pending : List Effect
  written : List OutLine

def Conn.fresh : Conn := ⟨.running, none, [], none, [], []⟩

/-- What one call of `handleLine` does up to the end of its lock section; the
effects that follow are pending on the connection. -/
structure Served where
  conn : Conn
  bus : BusState
  sent : List BroadcastMsg

def isWhitespace (c : Char) : Bool :=
  c = ' ' || ('\t' ≤ c && c ≤ '\r') || c = '\u0085' || c = '\u00A0' || c = '\u1680' ||
    ('\u2000' ≤ c && c ≤ '\u200A') || c = '\u2028' || c = '\u2029' || c = '\u202F' ||
    c = '\u205F' || c = '\u3000'

def trim (line : String) : String :=
  String.ofList
    ((line.toList.dropWhile isWhitespace).reverse.dropWhile isWhitespace).reverse

def topicMatches (prefixes : List String) (topic : String) : Bool :=
  prefixes.isEmpty || prefixes.any (fun p => p.isEmpty || p.toList.isPrefixOf topic.toList)

def claimReleaseMsg (path sid source : String) : BroadcastMsg :=
  ⟨"claim.release", .object [("path", .string path), ("session_id", .string sid)], source, false⟩

def claimAcquireMsg (path sid : String) (ttlUnixSecs : Nat) (reason : String) : BroadcastMsg :=
  ⟨"claim.acquire", .object [("path", .string path), ("reason", .string reason),
    ("session_id", .string sid), ("ttl_unix_secs", .nat ttlUnixSecs)], sid, false⟩

def claimConflictReply (c : ClaimRecord) : Reply :=
  ⟨false, some "claim_conflict", some (.object [("expires_unix", .nat c.ttlUnixSecs),
    ("holder", .string c.sessionId), ("reason", .string c.reason)])⟩

def answer (k : Conn) (bus : BusState) (r : Reply) : Served :=
  ⟨{ k with pending := [.write (.reply r)] }, bus, []⟩

/-- The first message of a connection: an announce, or the connection is closed. -/
def handleFirst (k : Conn) (connId : Nat) (bus : BusState) (now : Nat) : ClientMessage → Served
  | .announce sid pid cwd intent node =>
      answer { k with sessionId := some sid } (bus.announce connId sid pid cwd intent node now)
        .okEmpty
  | _ => ⟨{ k with pending := [.write (.reply (.err "announce_required")), .bail] }, bus, []⟩

/-- Every later message, `sid` being the announced session and `sent` the number of
messages broadcast so far. -/
def handleMessage (cfg : Config) (k : Conn) (sid : String) (bus : BusState)
    (uplink : UplinkStatus) (sent : Nat) (now : Nat) : ClientMessage → Served
  | .announce .. => answer k bus (.err "already_announced")
  | .update cwd intent => answer k (bus.update sid cwd intent now) .okEmpty
  | .heartbeat tool skill prdSlug workingPaths =>
      if workingPaths.any (fun ps => decide (maxWorkingPaths < ps.length)) then
        answer k bus (.err "too_many_paths")
      else
        let (bus, changed) := bus.heartbeat sid tool skill prdSlug workingPaths now
        ⟨{ k with pending := (if changed then [.signal] else []) ++
          [.write (.reply .okEmpty)] }, bus, []⟩
  | .publish topic data =>
      ⟨{ k with pending := [.touch sid, .write (.reply .okEmpty)] }, bus,
        [⟨topic, data, sid, false⟩]⟩
  | .subscribe pre =>
      answer { k with
        subscribedPrefixes := if pre ∈ k.subscribedPrefixes then k.subscribedPrefixes
          else k.subscribedPrefixes ++ [pre]
        bcastRx := some (k.bcastRx.getD sent) } bus .okEmpty
  | .peers =>
      let bus := bus.prunePeers cfg.heartbeatTimeoutSecs now
      answer k bus (.okWith (.array (bus.peers.values.map PeerRecord.toValue)))
  | .claimAcquire path ttl reason force =>
      match bus.claimAcquire sid path ttl reason force now with
      | (bus, .conflict c) => answer k bus (claimConflictReply c)
      | (bus, .granted evicted) =>
          ⟨{ k with pending := [.signal, .broadcast (claimAcquireMsg path sid ttl reason),
              .write (.reply (.okWith (.object [("path", .string path),
                ("ttl_unix_secs", .nat ttl)])))] }, bus,
            (evicted.map (fun c => claimReleaseMsg c.path c.sessionId sid)).toList⟩
  | .claimRelease path =>
      let (bus, released) := bus.claimRelease sid path now
      ⟨{ k with pending :=
          (if released then [.signal, .broadcast (claimReleaseMsg path sid sid)] else []) ++
            [.write (.reply (.okWith (.object [("released", .bool released)])))] }, bus, []⟩
  | .claimList =>
      let bus := bus.pruneExpiredClaims now
      answer k bus (.okWith (.array (bus.claims.values.map ClaimRecord.toValue)))
  | .uplinkStatus => answer k bus (.okWith uplink.toValue)

/-- `fromStr` stands for the JSON decoder of client messages. -/
def handleLine (cfg : Config) (fromStr : String → Option ClientMessage) (k : Conn) (connId : Nat)
    (bus : BusState) (uplink : UplinkStatus) (sent now : Nat) (line : String) : Served :=
  if (trim line).isEmpty then ⟨k, bus, []⟩
  else
    match fromStr (trim line) with
    | none => ⟨{ k with pending := [.write (.reply (.err "malformed_json")), .bail] }, bus, []⟩
    | some msg =>
      match k.sessionId with
      | none => handleFirst k connId bus now msg
      | some sid => handleMessage cfg k sid bus uplink sent now msg

def decodeFrom (lines : List (String × ClientMessage)) (text : String) : Option ClientMessage :=
  (lines.find? (fun l => l.1 = text)).map Prod.snd

def announceLine (sid : String) : String :=
  "\x7b\"op\":\"announce\",\"session_id\":\"" ++ sid ++ "\",\"pid\":7,\"cwd\":\"/\"\x7d"

def clientLine (sid intent : String) : String :=
  "\x7b\"op\":\"announce\",\"session_id\":\"" ++ sid ++
    "\",\"pid\":7,\"cwd\":\"/\",\"intent\":\"" ++ intent ++ "\"\x7d"

def acquireLine : String :=
  "\x7b\"op\":\"claim_acquire\",\"path\":\"/x\",\"ttl_unix_secs\":100\x7d"

def forceLine : String :=
  "\x7b\"op\":\"claim_acquire\",\"path\":\"/x\",\"ttl_unix_secs\":100,\"force\":true\x7d"

def releaseLine : String := "\x7b\"op\":\"claim_release\",\"path\":\"/x\"\x7d"

def claimListLine : String := "\x7b\"op\":\"claim_list\"\x7d"

def peersLine : String := "\x7b\"op\":\"peers\"\x7d"

def heartbeatLine : String := "\x7b\"op\":\"heartbeat\"\x7d"

variable (cfg : Config) (fromStr : String → Option ClientMessage) (k : Conn) (connId : Nat)
  (bus : BusState) (uplink : UplinkStatus) (sent now : Nat)

theorem handleFirst_conn (msg : ClientMessage) :
    (handleFirst k connId bus now msg).conn.status = k.status ∧
      (handleFirst k connId bus now msg).conn.written = k.written := by
  cases msg <;> exact ⟨rfl, rfl⟩

theorem handleMessage_claimAcquire (sid path reason : String) (ttl : Nat) (force : Bool) :
    handleMessage cfg k sid bus uplink sent now (.claimAcquire path ttl reason force) =
      match (bus.claimAcquire sid path ttl reason force now).2 with
      | .conflict c =>
          answer k (bus.claimAcquire sid path ttl reason force now).1 (claimConflictReply c)
      | .granted evicted =>
          ⟨{ k with pending := [.signal, .broadcast (claimAcquireMsg path sid ttl reason),
              .write (.reply (.okWith (.object [("path", .string path),
                ("ttl_unix_secs", .nat ttl)])))] },
            (bus.claimAcquire sid path ttl reason force now).1,
            (evicted.map (fun c => claimReleaseMsg c.path c.sessionId sid)).toList⟩ := by
  simp only [handleMessage]
  generalize bus.claimAcquire sid path ttl reason force now = p
  obtain ⟨bus, decision⟩ := p
  cases decision <;> rfl

theorem handleMessage_conn (sid : String) (msg : ClientMessage) :
    (handleMessage cfg k sid bus uplink sent now msg).conn.status = k.status ∧
      (handleMessage cfg k sid bus uplink sent now msg).conn.written = k.written ∧
      (handleMessage cfg k sid bus uplink sent now msg).conn.sessionId = k.sessionId := by
  cases msg with
  | heartbeat tool skill prdSlug paths =>
    simp only [handleMessage]
    split <;> exact ⟨rfl, rfl, rfl⟩
  | claimAcquire path ttl reason force =>
    simp only [handleMessage]
    split <;> exact ⟨rfl, rfl, rfl⟩
  | _ => exact ⟨rfl, rfl, rfl⟩

theorem handleLine_conn (line : String) :
    (handleLine cfg fromStr k connId bus uplink sent now line).conn.status = k.status ∧
      (handleLine cfg fromStr k connId bus uplink sent now line).conn.written = k.written ∧
      ∀ sid, k.sessionId = some sid →
        (handleLine cfg fromStr k connId bus uplink sent now line).conn.sessionId = some sid := by
  unfold handleLine
  split
  · exact ⟨rfl, rfl, fun _ h => h⟩
  · split
    · exact ⟨rfl, rfl, fun _ h => h⟩
    · rename_i msg _
      cases hs : k.sessionId with
      | none =>
        have h := handleFirst_conn k connId bus now msg
        exact ⟨h.1, h.2, fun _ h => nomatch h⟩
      | some sid =>
        have h := handleMessage_conn cfg k bus uplink sent now sid msg
        exact ⟨h.1, h.2.1, fun _ he => (h.2.2.trans hs).trans he⟩

end Agorabus
