import Agorabus.Handler
import Agorabus.Library.StepSystem

namespace Agorabus

/-- Where `runDaemon` is: in its accept loop, or in a step of the shutdown. -/
inductive MainPc where
  | serving
  | draining
  | aborting
  | flushing (snapshot : DurableState)
  | closing
  | stopped

/-- Where the persist task is. -/
inductive PersistPc where
  | waiting
  | sleeping
  | draining
  | locking
  | saving (snapshot : DurableState)
  | done

/-- A daemon process and its journal file. The log lists every message sent on
the broadcast channel, by this process or by the ones it replaced. -/
structure Daemon where
  clock : Nat
  bus : BusState
  log : List BroadcastMsg
  conns : List Conn
  uplinkStatus : UplinkStatus
  presence : List PeerRecord
  signals : Nat
  persist : PersistPc
  main : MainPc
  file : DurableState

inductive Action where
  | tick (now : Nat)
  | connect
  | line (c : Nat) (text : String) (now : Nat)
  | hangup (c : Nat)
  | event (c : Nat)
  | drain (c : Nat)
  | proceed (c : Nat) (now : Nat) (ok : Bool)
  | abort (c : Nat)
  | uplinkEvent (st : UplinkStatus)
  | uplinkInbound (topic : String) (data : Json) (origin : String)
  | presenceTick
  | presenceSend (now : Nat)
  | persistRecv
  | persistWake
  | persistTryRecv
  | persistSnapshot
  | persistSave (ok : Bool)
  | persistExit
  | shutdown
  | graceOver
  | finalSnapshot
  | finalSave (ok : Bool)
  | finish
  | boot (now : Nat)

namespace MainPc

def isServing : MainPc → Bool
  | .serving => true
  | _ => false

/-- The uplink tasks live until every connection task has been joined. -/
def uplinkAlive : MainPc → Bool
  | .serving | .draining | .aborting => true
  | _ => false

end MainPc

namespace Conn

def idle (k : Conn) : Bool := decide (k.status = .running) && k.pending.isEmpty

/-- A task can only be cancelled where it awaits: at its select, in a socket
write, or for the lock. -/
def atAwait (k : Conn) : Bool :=
  match k.pending with
  | .signal :: _ | .broadcast _ :: _ | .bail :: _ => false
  | _ => true

end Conn

/-- Capacity of the persist channel. -/
def persistCapacity : Nat := 64

def presenceMsg (cfg : Config) (p : PeerRecord) (now : Nat) : BroadcastMsg :=
  ⟨fleetPresenceSubjectAnnounce,
    FleetPresenceEvent.toValue ⟨p.sessionId, p.pid, p.cwd, cfg.node, now⟩,
    "daemon-fleet-presence", false⟩

namespace Daemon

def setConn (s : Daemon) (c : Nat) (k : Conn) : Daemon := { s with conns := s.conns.set c k }

/-- A fresh process on a journal file: load it, drop the expired claims, serve. -/
def start (file : DurableState) (log : List BroadcastMsg) (now : Nat) : Daemon where
  clock := now
  bus := (BusState.fromDurable file).pruneExpiredClaims now
  log := log
  conns := []
  uplinkStatus := .disabled
  presence := []
  signals := 0
  persist := .waiting
  main := .serving
  file := file

def takeLine (cfg : Config) (fromStr : String → Option ClientMessage) (s : Daemon)
    (c : Nat) (k : Conn) (text : String) (now : Nat) : Daemon :=
  let r := handleLine cfg fromStr k c s.bus s.uplinkStatus s.log.length now text
  { s with clock := now, bus := r.bus, log := s.log ++ r.sent, conns := s.conns.set c r.conn }

/-- The select arm of the broadcast channel: the next message, or the notice
that the channel has dropped some. Tokio rounds the capacity up to a power of two. -/
def takeEvent (cfg : Config) (s : Daemon) (c : Nat) (k : Conn) (rx : Nat) : Option Daemon :=
  if cfg.broadcastCapacity.nextPowerOfTwo < s.log.length - rx then
    some (s.setConn c
      { k with bcastRx := some (s.log.length - cfg.broadcastCapacity.nextPowerOfTwo) })
  else
    (s.log[rx]?).map (fun m => s.setConn c
      { k with
        bcastRx := some (rx + 1)
        pending := if topicMatches k.subscribedPrefixes m.topic
          then [.write (.event m.toEvent)] else [] })

def perform (s : Daemon) (c : Nat) (k : Conn) (now : Nat) (ok : Bool) : Effect → Daemon
  | .touch sid => { s with bus := s.bus.touch sid now }.setConn c k
  | .signal =>
      { s with signals := if s.signals < persistCapacity then s.signals + 1 else s.signals
        }.setConn c k
  | .broadcast m => { s with log := s.log ++ [m] }.setConn c k
  | .write l =>
      if ok then s.setConn c { k with written := k.written ++ [l] }
      else s.setConn c { k with status := .returned, pending := [] }
  | .writeNotice n =>
      s.setConn c (if ok then { k with written := k.written ++ [.notice n] } else k)
  | .bail => s.setConn c { k with status := .returned, pending := [] }
  | .cleanup =>
      { s with bus := k.sessionId.elim s.bus (s.bus.disconnect c) }.setConn c
        { k with status := .returned }

def step (cfg : Config) (fromStr : String → Option ClientMessage) (s : Daemon) :
    Action → Option Daemon
  | .tick now => if s.clock ≤ now then some { s with clock := now } else none
  | .connect =>
      if s.main.isServing then some { s with conns := s.conns ++ [.fresh] } else none
  | .line c text now => do
      let k ← s.conns[c]?
      if k.idle ∧ s.clock ≤ now then some (s.takeLine cfg fromStr c k text now) else none
  | .hangup c => do
      let k ← s.conns[c]?
      if k.idle then some (s.setConn c { k with pending := [.cleanup] }) else none
  | .event c => do
      let k ← s.conns[c]?
      let rx ← k.bcastRx
      if k.idle then s.takeEvent cfg c k rx else none
  | .drain c => do
      let k ← s.conns[c]?
      let notice := (k.bcastRx.map (fun _ =>
        Effect.writeNotice (.new cfg.drainResumeHintMs))).toList
      match s.main with
      | .draining | .aborting =>
          if k.idle then some (s.setConn c { k with pending := notice ++ [.cleanup] }) else none
      | _ => none
  | .proceed c now ok => do
      let k ← s.conns[c]?
      match k.pending with
      | [] => none
      | e :: es =>
          if k.status = .running ∧ s.clock ≤ now then
            some ({ s with clock := now }.perform c { k with pending := es } now ok e)
          else none
  | .abort c => do
      let k ← s.conns[c]?
      match s.main with
      | .aborting =>
          if k.status = .running ∧ k.atAwait then
            some (s.setConn c { k with status := .aborted, pending := [] })
          else none
      | _ => none
  | .uplinkEvent st =>
      if cfg.uplinkEnabled ∧ s.main.uplinkAlive then some { s with uplinkStatus := st } else none
  | .uplinkInbound topic data origin =>
      if cfg.uplinkEnabled ∧ s.main.uplinkAlive then
        some { s with log := s.log ++ [⟨topic, data, "uplink:" ++ origin, true⟩] }
      else none
  | .presenceTick =>
      if cfg.uplinkEnabled ∧ s.main.uplinkAlive ∧ s.presence.isEmpty then
        some { s with presence := s.bus.peers.values }
      else none
  | .presenceSend now =>
      match s.presence with
      | [] => none
      | p :: ps =>
          if s.clock ≤ now then
            some { s with clock := now, presence := ps, log := s.log ++ [presenceMsg cfg p now] }
          else none
  | .persistRecv =>
      match s.persist with
      | .waiting =>
          if 0 < s.signals then some { s with signals := s.signals - 1, persist := .sleeping }
          else none
      | _ => none
  | .persistWake =>
      match s.persist with
      | .sleeping => some { s with persist := .draining }
      | _ => none
  | .persistTryRecv =>
      match s.persist with
      | .draining =>
          if 0 < s.signals then some { s with signals := s.signals - 1 }
          else some { s with persist := .locking }
      | _ => none
  | .persistSnapshot =>
      match s.persist with
      | .locking => some { s with persist := .saving s.bus.toDurable }
      | _ => none
  | .persistSave ok =>
      match s.persist with
      | .saving d => some { s with persist := .waiting, file := if ok then d else s.file }
      | _ => none
  | .persistExit =>
      match s.main, s.persist with
      | .closing, .waiting => if s.signals = 0 then some { s with persist := .done } else none
      | _, _ => none
  | .shutdown =>
      match s.main with
      | .serving => some { s with main := .draining }
      | _ => none
  | .graceOver =>
      match s.main with
      | .draining => some { s with main := .aborting }
      | _ => none
  | .finalSnapshot =>
      match s.main with
      | .aborting =>
          if s.conns.all (fun k => decide (k.status ≠ .running)) ∧ s.presence.isEmpty then
            some { s with main := .flushing s.bus.toDurable }
          else none
      | _ => none
  | .finalSave ok =>
      match s.main with
      | .flushing d => some { s with main := .closing, file := if ok then d else s.file }
      | _ => none
  | .finish =>
      match s.main, s.persist with
      | .closing, .done => some { s with main := .stopped }
      | _, _ => none
  | .boot now =>
      match s.main with
      | .stopped => if s.clock ≤ now then some (start s.file s.log now) else none
      | _ => none

end Daemon

end Agorabus
