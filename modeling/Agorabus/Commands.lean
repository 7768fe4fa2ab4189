import Agorabus.Correlation
import Agorabus.Library.Requests
import Agorabus.Queries

namespace Agorabus

open Daemon StepSystem Requests
open Correlation (Requester Exchange asked answered)

structure Output where
  stdout : List String
  code : Nat
  deriving DecidableEq

/-- A command that announces itself on a connection of its own, and what it prints where there is no
daemon. -/
structure Command where
  sessionId : String
  pid : Nat
  cwd : String
  intent : String
  offline : List String
  body : Reply → Program ClientMessage Reply Output

def Reply.output (r : Reply) : Output := ⟨[r.toJson.text], if r.ok then 0 else 1⟩

def ClaimRecord.asLine (c : ClaimRecord) : String :=
  c.path ++ "\t" ++ c.sessionId ++ "\tttl_unix=" ++ toString c.ttlUnixSecs ++ "\tacquired_unix=" ++
    toString c.acquiredUnixSecs ++ "\treason=" ++ c.reason

def PeerRecord.hasIntent (p : PeerRecord) : Bool :=
  !p.skill.isEmpty || !p.prdSlug.isEmpty || !p.workingPaths.isEmpty

def PeerRecord.projected (p : PeerRecord) : Json :=
  .object (Json.present [("prd_slug", skipEmpty p.prdSlug),
    ("session_id", some (.string p.sessionId)), ("skill", skipEmpty p.skill),
    ("working_paths", skipEmptyVec p.workingPaths)])

def printed {α : Type} (write : α → Json) (as : List α) : Output :=
  ⟨[(Json.array (as.map write)).text], 0⟩

namespace Command

def request (m : ClientMessage) : Program ClientMessage Reply Reply := .request m

def peersQuery : Program ClientMessage Reply (List PeerRecord) := do
  let reply ← request .peers
  .ofExcept (Client.peers reply)

def claimListQuery : Program ClientMessage Reply (List ClaimRecord) := do
  let reply ← request .claimList
  .ofExcept (Client.claimList reply)

def announce (sid : String) (pid : Nat) (cwd intent : String) : Command where
  sessionId := sid
  pid := pid
  cwd := cwd
  intent := intent
  offline := []
  body reply := return reply.output

def peers (pid : Nat) (cwd : String) : Command where
  sessionId := "cli-peers-" ++ toString pid
  pid := pid
  cwd := cwd
  intent := "peers-query"
  offline := ["[]"]
  body _ := do
    let localPeers ← peersQuery
    return printed PeerRecord.toJson
      (localPeers.filter (fun p => decide (p.sessionId ≠ "cli-peers-" ++ toString pid)))

/-- Data that is no JSON is sent as a string. -/
def payload (value : String → Option Json) (data : String) : Json :=
  (value data).getD (.string data)

/-- `value` stands for the JSON parser. -/
def publish (value : String → Option Json) (sid : String) (pid : Nat) (cwd topic data : String) :
    Command where
  sessionId := sid
  pid := pid
  cwd := cwd
  intent := "publisher"
  offline := []
  body _ := do
    let reply ← request (.publish topic (payload value data))
    return reply.output

def heartbeat (sid : String) (pid : Nat) (cwd tool : String) : Command where
  sessionId := sid
  pid := pid
  cwd := cwd
  intent := "heartbeat-client"
  offline := []
  body _ := do
    let reply ← request (.heartbeat tool none none none)
    return reply.output

/-- The path as it is canonicalized. -/
def claimRelease (sid : String) (pid : Nat) (cwd path : String) : Command where
  sessionId := sid
  pid := pid
  cwd := cwd
  intent := "claim-client"
  offline := []
  body _ := do
    let reply ← request (.claimRelease path)
    return reply.output

def claimList (pid : Nat) (cwd : String) (path sessionId : Option String) (format : String) :
    Command where
  sessionId := "cli-claim-list-" ++ toString pid
  pid := pid
  cwd := cwd
  intent := "claim-list-query"
  offline := ["[]"]
  body _ := do
    let claims ← claimListQuery
    let claims := claims.filter (fun c => path.all (fun wanted => decide (c.path = wanted)))
    let claims := claims.filter (fun c =>
      sessionId.all (fun wanted => decide (c.sessionId = wanted)))
    return if format = "text" then ⟨claims.map ClaimRecord.asLine, 0⟩
      else printed ClaimRecord.toJson claims

/-- The paths between the commas. An empty argument clears them. -/
def splitPaths (paths : String) : List String :=
  if paths.isEmpty then []
  else (paths.toList.splitOn ',').map (fun cs => trim (String.ofList cs))

def intentSet (sid : String) (pid : Nat) (cwd : String) (skill prd paths : Option String) :
    Command where
  sessionId := sid
  pid := pid
  cwd := cwd
  intent := "intent-client"
  offline := []
  body _ := do
    let reply ← request (.heartbeat "" skill prd (paths.map splitPaths))
    return reply.output

def intentList (pid : Nat) (cwd : String) : Command where
  sessionId := "cli-intent-list-" ++ toString pid
  pid := pid
  cwd := cwd
  intent := "intent-list-query"
  offline := ["[]"]
  body _ := do
    let peers ← peersQuery
    return printed PeerRecord.projected
      ((peers.filter (fun p => decide (p.sessionId ≠ "cli-intent-list-" ++ toString pid))).filter
        PeerRecord.hasIntent)

def announcement (v : Command) : ClientMessage := .announce v.sessionId v.pid v.cwd v.intent none

def program (v : Command) : Program ClientMessage Reply Output := .ask v.announcement v.body

end Command

inductive CommandPhase where
  | start
  | going (p : Program ClientMessage Reply Output)
  | waiting (m : ClientMessage) (next : Reply → Program ClientMessage Reply Output)
  | offline
  | broken

structure Session where
  req : Requester
  phase : CommandPhase

/-- Others take any step between those of the command. -/
inductive CommandMove where
  | net (a : NetAction)
  | connect
  | send
  | receive

namespace Session

def start (file : DurableState) (log : List BroadcastMsg) (now : Nat) : Session :=
  ⟨.start file log now, .start⟩

def move (s : Session) : CommandMove → Option Correlation.Move
  | .net a => some (.net a)
  | .connect =>
      match s.phase with
      | .start => some (.net .connect)
      | _ => none
  | .send =>
      match s.phase with
      | .going (.ask m _) => some (.request m)
      | _ => none
  | .receive =>
      match s.phase with
      | .waiting _ _ => some .readReply
      | _ => none

/-- A request fails if nobody takes it, or if the line that is read is no reply. -/
def step (cfg : Config) (fromStr : String → Option ClientMessage) (v : Command) (i : Nat)
    (s : Session) : CommandMove → Option Session
  | .net a => (s.req.step cfg fromStr i (.net a)).map (fun r => { s with req := r })
  | .connect =>
      match s.phase with
      | .start =>
        if s.req.net.daemon.main.isServing then
          if s.req.net.clients.length = i then
            (s.req.step cfg fromStr i (.net .connect)).map (fun r => ⟨r, .going v.program⟩)
          else none
        else some { s with phase := .offline }
      | _ => none
  | .send =>
      match s.phase with
      | .going (.ask m next) =>
        match s.req.step cfg fromStr i (.request m) with
        | some r => some ⟨r, .waiting m next⟩
        | none => some { s with phase := .broken }
      | _ => none
  | .receive =>
      match s.phase with
      | .waiting _ next =>
        (s.req.step cfg fromStr i .readReply).map (fun r =>
          ⟨r, match s.req.nextLine i with
            | some (.reply reply) => .going (next reply)
            | _ => .broken⟩)
      | _ => none

def output (v : Command) (s : Session) : Option Output :=
  match s.phase with
  | .going (.done out) => some out
  | .going (.fail _) => some ⟨[], 2⟩
  | .offline => some ⟨v.offline, 0⟩
  | .broken => some ⟨[], 2⟩
  | _ => none

def exchange (cfg : Config) (fromStr : String → Option ClientMessage) (i : Nat) (s : Session)
    (mv : CommandMove) : List Exchange :=
  match s.move mv with
  | some b => if (s.req.step cfg fromStr i b).isSome then s.req.exchange cfg fromStr i b else []
  | none => []

def refusal (s : Session) : CommandMove → List Unit
  | .connect => if s.req.net.daemon.main.isServing then [] else [()]
  | _ => []

end Session

namespace CommandPhase

def isIdle : CommandPhase → Bool
  | start | offline => true
  | _ => false

def message : CommandPhase → Option ClientMessage
  | waiting m _ => some m
  | _ => none

def program : CommandPhase → Option (Program ClientMessage Reply Output)
  | going p => some p
  | waiting m next => some (.ask m next)
  | _ => none

end CommandPhase

variable {cfg : Config} {fromStr : String → Option ClientMessage}

theorem handleLine_bcastRx (k : Conn) (c : Nat) (bus : BusState) (uplink : UplinkStatus)
    (sent now : Nat) {line : String} (hm : ∀ p, fromStr (trim line) ≠ some (.subscribe p)) :
    (handleLine cfg fromStr k c bus uplink sent now line).conn.bcastRx = k.bcastRx := by
  unfold handleLine
  split
  · rfl
  · cases hmsg : fromStr (trim line) with
    | none => rfl
    | some msg =>
      cases hs : k.sessionId with
      | none => cases msg <;> rfl
      | some sid =>
        cases msg with
        | subscribe p => exact absurd hmsg (hm p)
        | heartbeat tool skill prdSlug paths =>
          simp only [handleMessage]
          split <;> rfl
        | claimAcquire path ttl reason force =>
          dsimp only
          rw [handleMessage_claimAcquire]
          split <;> rfl
        | _ => rfl

structure Deaf (s : Daemon) (l : Client) : Prop where
  asks : ∀ m ∈ l.outgoing, ∀ p, m ≠ .subscribe p
  lines : Subscriber.events (l.flight s) = []
  receiver : ∀ c k, l.conn = some c → s.conns[c]? = some k → k.bcastRx = none

theorem Deaf.nextEvent {s : Daemon} {l : Client} (h : Deaf s l)
    (hatt : ∀ c, l.conn = some c → ∃ k, s.conns[c]? = some k) {c : Nat} (hc : l.conn = some c) :
    s.nextEvent cfg c = none := by
  obtain ⟨k, hk⟩ := hatt c hc
  simp [Daemon.nextEvent, hk, h.receiver c k hc hk]

theorem Deaf.served {s t : Daemon} {a : Action} {l : Client} (h : Deaf s l)
    (hn : ∀ (c : Nat) (k : Conn), s.conns[c]? = some k → NoticeLast k)
    (hatt : ∀ c, l.conn = some c → ∃ k, s.conns[c]? = some k)
    (hfit : l.fits fromStr a = true) (ht : s.step cfg fromStr a = some t) :
    Deaf t (l.served s a) := by
  have hrx : ∀ c k', (l.served s a).conn = some c → t.conns[c]? = some k' → k'.bcastRx = none := by
    intro c k' hc' hk'
    by_cases hb : ∃ now, a = .boot now
    · obtain ⟨now, rfl⟩ := hb
      cases hc : l.conn <;> simp [Client.served, hc] at hc'
    have hb' : ∀ now, a ≠ .boot now := fun now he => hb ⟨now, he⟩
    have hc : l.conn = some c := by
      cases hl : l.conn with
      | none => simp [Client.served, hl] at hc'
      | some d => exact (Client.served_connected hl hb').symm.trans hc'
    obtain ⟨k, hk⟩ := hatt c hc
    obtain ⟨k₁, hk₁, hstep⟩ := step_conn ht hb' hk
    obtain rfl : k₁ = k' := Option.some.inj (hk₁.symm.trans hk')
    have hnone := h.receiver c k hc hk
    cases hstep with
    | @line text now hi =>
      obtain ⟨m, ms, ho, hm⟩ := Client.fits_line hfit hc
      rw [handleLine_bcastRx, hnone]
      intro p hp
      obtain rfl : m = .subscribe p := Option.some.inj (hm.2.symm.trans hp)
      exact h.asks _ (by rw [ho]; exact List.mem_cons_self) p rfl
    | lag hi hrx => simp [hnone] at hrx
    | event hi hrx => simp [hnone] at hrx
    | proceed => rw [performed_bcastRx, hnone]
    | _ => exact hnone
  cases Client.carries hn hatt hfit ht with
  | same ho hf => exact ⟨ho ▸ h.asks, hf ▸ h.lines, hrx⟩
  | took _ _ _ ho _ hf =>
    refine ⟨fun m hm => h.asks m ?_, ?_, hrx⟩
    · rw [ho]
      exact List.mem_cons_of_mem _ hm
    · rw [hf, Subscriber.events_append, h.lines]
      rfl
  | event _ hc he =>
    rw [h.nextEvent hatt hc] at he
    cases he
  | leaves ho _ hf =>
    obtain ⟨ns, _, hne, hpre⟩ := hf
    refine ⟨ho ▸ h.asks, no_events_of_initial hpre ?_, hrx⟩
    rw [Subscriber.events_append, h.lines, hne, List.append_nil]

theorem Deaf.read {s : Daemon} {l : Client} (h : Deaf s l) {x : OutLine} {xs : List OutLine}
    (hx : l.incoming = x :: xs) : Deaf s { l with incoming := xs } := by
  refine ⟨h.asks, ?_, h.receiver⟩
  have hlines := h.lines
  rw [Client.flight_read hx, ← List.singleton_append, Subscriber.events_append,
    List.append_eq_nil_iff] at hlines
  exact hlines.2

theorem Deaf.send {s : Daemon} {l : Client} (h : Deaf s l) {m : ClientMessage}
    (hm : ∀ p, m ≠ .subscribe p) : Deaf s { l with outgoing := l.outgoing ++ [m] } := by
  refine ⟨fun m' hm' => ?_, h.lines, h.receiver⟩
  obtain hm' | hm' := List.mem_append.mp hm'
  · exact h.asks m' hm'
  · rw [List.mem_singleton.mp hm']
    exact hm

theorem gone_served {s t : Daemon} {a : Action} {l : Client} (hg : l.Gone s)
    (hn : ∀ (c : Nat) (k : Conn), s.conns[c]? = some k → NoticeLast k)
    (hatt : ∀ c, l.conn = some c → ∃ k, s.conns[c]? = some k)
    (hfit : l.fits fromStr a = true) (ht : s.step cfg fromStr a = some t) :
    (l.served s a).Gone t := by
  cases Client.carries hn hatt hfit ht with
  | same _ _ hg' => exact hg' hg
  | took _ _ _ _ _ _ hng => exact absurd hg hng
  | event _ _ _ _ _ hng => exact absurd hg hng
  | leaves _ hg' => exact hg'

def Announces (sid : String) (m : ClientMessage) : Prop :=
  ∃ pid cwd intent node, m = .announce sid pid cwd intent node

/-- What holds of the client of a command: what it has asked and the daemon has not answered is
still to be taken, and its session is known by the first answer. -/
structure Attends (sid : String) (s : Daemon) (l : Client) (xs : List Exchange) : Prop where
  deaf : Deaf s l
  ledger : asked xs = (answered xs).map Prod.fst ++ l.outgoing
  first : ∀ m, (asked xs).head? = some m → Announces sid m
  known : ∀ c k, l.conn = some c → s.conns[c]? = some k →
    k.sessionId = if answered xs = [] then none else some sid

section client

variable {n n' : Net} {i : Nat} {l : Client} {sid : String} {xs : List Exchange}

theorem mem_heard {s : Daemon} {a : Action} {x : Exchange}
    (hx : x ∈ Correlation.heard cfg fromStr s l a) :
    ∃ c text now m r, a = .line c text now ∧ l.conn = some c ∧ l.outgoing.head? = some m ∧
      s.answer cfg fromStr a = some r ∧ x = .answered m r := by
  cases a with
  | line c text now =>
    by_cases hc : l.conn = some c
    · simp only [Correlation.heard, hc, ↓reduceIte, Option.mem_toList, Option.bind_eq_bind,
        Option.bind_eq_some_iff] at hx
      obtain ⟨m, hm, r, hr, hx⟩ := hx
      exact ⟨c, text, now, m, r, rfl, hc, hm, hr, (Option.some.inj hx).symm⟩
    · simp [Correlation.heard, hc] at hx
  | _ => cases hx

theorem asked_net (q : Requester) (a : NetAction) :
    asked (q.exchange cfg fromStr i (.net a)) = [] := by
  rw [asked, List.filterMap_eq_nil_iff]
  intro x hx
  cases a with
  | serve a =>
    cases hl : q.net.clients[i]? with
    | none => simp [Requester.exchange, hl] at hx
    | some l =>
      simp only [Requester.exchange, hl, Option.elim_some] at hx
      obtain ⟨_, _, _, _, _, _, _, _, _, rfl⟩ := mem_heard hx
      rfl
  | _ => cases hx

theorem heard_outgoing {s t : Daemon} {a : Action}
    (hn : ∀ (c : Nat) (k : Conn), s.conns[c]? = some k → NoticeLast k)
    (hatt : ∀ c, l.conn = some c → ∃ k, s.conns[c]? = some k)
    (hfit : l.fits fromStr a = true) (ht : s.step cfg fromStr a = some t) :
    l.outgoing = (answered (Correlation.heard cfg fromStr s l a)).map Prod.fst ++
      (l.served s a).outgoing := by
  have hquiet (ho : (l.served s a).outgoing = l.outgoing) :
      l.outgoing = (answered (Correlation.heard cfg fromStr s l a)).map Prod.fst ++
        (l.served s a).outgoing := by
    rw [Correlation.heard_nil hfit ho, ho]
    rfl
  cases Client.carries hn hatt hfit ht with
  | same ho => exact hquiet ho
  | took ha hc hm ho hr =>
    subst ha
    rw [Correlation.heard_line hc ho hr]
    exact ho
  | event _ _ _ ho => exact hquiet ho
  | leaves ho => exact hquiet ho

theorem Attends.session {s t : Daemon} {a : Action} (h : Attends sid s l xs)
    (hn : ∀ (c : Nat) (k : Conn), s.conns[c]? = some k → NoticeLast k)
    (hatt : ∀ c, l.conn = some c → ∃ k, s.conns[c]? = some k)
    (hfit : l.fits fromStr a = true) (ht : s.step cfg fromStr a = some t) {c : Nat} {k' : Conn}
    (hc' : (l.served s a).conn = some c) (hk' : t.conns[c]? = some k') :
    k'.sessionId = if answered (xs ++ Correlation.heard cfg fromStr s l a) = [] then none
      else some sid := by
  cases hc : l.conn with
  | none => simp [Client.served, hc] at hc'
  | some d =>
    obtain ⟨k, hk⟩ := hatt d hc
    obtain ⟨hnone, _⟩ | ⟨k₁, hd, hk₁, hs⟩ := Client.served_conn hc hk hfit ht
    · rw [hnone] at hc'
      cases hc'
    obtain rfl : d = c := Option.some.inj (hd.symm.trans hc')
    obtain rfl : k₁ = k' := Option.some.inj (hk₁.symm.trans hk')
    have hsid := h.known d k hc hk
    obtain ⟨ho, hsame⟩ | ⟨text, now, m, rfl, hm, ho, rfl⟩ := hs
    · rw [Correlation.heard_nil hfit ho, List.append_nil, hsame, hsid]
    · have hheard := heard_outgoing hn hatt hfit ht
      have hne : answered (xs ++ Correlation.heard cfg fromStr s l (.line d text now)) ≠ [] := by
        rw [Correlation.answered_append]
        intro he
        rw [(List.append_eq_nil_iff.mp he).2, ho] at hheard
        exact List.cons_ne_self _ _ hheard
      rw [if_neg hne]
      by_cases hx : answered xs = []
      · have hasked : asked xs = m :: (l.served s (.line d text now)).outgoing := by
          rw [h.ledger, hx, ho]
          rfl
        obtain ⟨pid, cwd, intent, node, rfl⟩ := h.first m (by rw [hasked]; rfl)
        rw [if_pos hx] at hsid
        exact Client.handleLine_session hsid hm
      · rw [if_neg hx] at hsid
        exact (handleLine_conn cfg fromStr k d s.bus s.uplinkStatus s.log.length now
          text).2.2 sid hsid

theorem client_after (sid : String) (xs : List Exchange) (w : Option ClientMessage)
    {a : NetAction} (hw : n.Wired) (ha : a.client ≠ some i) (h : n.step cfg fromStr a = some n')
    (hl : n.clients[i]? = some l) :
    ∃ l', n'.clients[i]? = some l' ∧
      (Attends sid n.daemon l xs → Attends sid n'.daemon l'
        (xs ++ Requester.exchange cfg fromStr i ⟨n, w⟩ (.net a))) ∧
      (l.Gone n.daemon → l'.Gone n'.daemon) := by
  have hasked : asked (xs ++ Requester.exchange cfg fromStr i ⟨n, w⟩ (.net a)) = asked xs := by
    rw [Correlation.asked_append, asked_net, List.append_nil]
  obtain ⟨b, hb, ht, hfit, hl'⟩ | ⟨hb, hd, hl'⟩ := Net.step_client h ha hl
  · have hatt := hw.attached l (List.mem_of_getElem? hl)
    have hx : Requester.exchange cfg fromStr i ⟨n, w⟩ (.net a) =
        Correlation.heard cfg fromStr n.daemon l b := by
      cases a with
      | serve a =>
        cases hb
        simp [Requester.exchange, hl]
      | connect =>
        cases hb
        rfl
      | _ => cases hb
    refine ⟨_, hl', fun hs => ⟨hs.deaf.served hw.notices hatt hfit ht, ?_, ?_, ?_⟩,
      fun hg => gone_served hg hw.notices hatt hfit ht⟩
    · rw [hasked, hs.ledger, hx, Correlation.answered_append, List.map_append, List.append_assoc,
        ← heard_outgoing hw.notices hatt hfit ht]
    · rw [hasked]
      exact hs.first
    · rw [hx]
      exact fun c k' hc' hk' => hs.session hw.notices hatt hfit ht hc' hk'
  · have hx : Requester.exchange cfg fromStr i ⟨n, w⟩ (.net a) = [] := by
      cases a with
      | serve a => cases hb
      | _ => rfl
    rw [hd, hx, List.append_nil]
    exact ⟨l, hl', id, id⟩

theorem client_new {a : NetAction} (w : Option ClientMessage) (ha : a.client ≠ some i)
    (h : n.step cfg fromStr a = some n') (hn : n.clients[i]? = none)
    (hl : n'.clients[i]? = some l) :
    Attends sid n'.daemon l (Requester.exchange cfg fromStr i ⟨n, w⟩ (.net a)) := by
  cases a with
  | serve b =>
    obtain ⟨_, t, _, rfl⟩ := Net.step_serve.mp h
    simp [hn] at hl
  | connect =>
    obtain ⟨t, ht, rfl⟩ := Net.step_connect.mp h
    obtain ⟨_, rfl⟩ := Daemon.step_connect.mp ht
    have hlen : n.clients.length ≤ i := List.getElem?_eq_none_iff.mp hn
    rw [List.getElem?_append_right hlen] at hl
    obtain rfl := List.mem_singleton.mp (List.mem_of_getElem? hl)
    have hnew : ∀ c k, n.daemon.conns.length = c →
        (n.daemon.conns ++ [Conn.fresh])[c]? = some k → k = .fresh := by
      rintro _ k rfl hk
      rw [List.getElem?_append_right (Nat.le_refl _), Nat.sub_self] at hk
      exact (Option.some.inj hk).symm
    refine ⟨⟨List.forall_mem_nil _, ?_, fun c k hc hk => ?_⟩, rfl, fun m hm => (by cases hm),
      fun c k hc hk => ?_⟩
    · simp [Client.flight, Conn.wire, Conn.fresh, Subscriber.unwritten, Subscriber.events]
    · rw [hnew c k (Option.some.inj hc) hk]
      rfl
    · rw [hnew c k (Option.some.inj hc) hk]
      rfl
  | send j m =>
    obtain ⟨l', _, _, rfl⟩ := Net.step_send.mp h
    rw [Net.setClient, List.getElem?_set_ne (fun he => ha (congrArg some he)), hn] at hl
    cases hl
  | read j =>
    obtain ⟨l', _, _, _, _, rfl⟩ := Net.step_read.mp h
    rw [Net.setClient, List.getElem?_set_ne (fun he => ha (congrArg some he)), hn] at hl
    cases hl

end client

structure Session.Follows (v : Command) (i : Nat) (s : Session) (xs : List Exchange) : Prop where
  turn : Correlation.InTurn i s.req xs
  client : ∀ l, s.req.net.clients[i]? = some l → Attends v.sessionId s.req.net.daemon l xs
  waiting : s.req.waiting = s.phase.message
  idle : s.phase.isIdle = true → asked xs = []
  path : ∀ p, s.phase.program = some p → (∃ l, s.req.net.clients[i]? = some l) ∧
    ∃ read, Program.Reaches v.program read p ∧
      asked xs = read.map Prod.fst ++ s.phase.message.toList ∧ read <+: answered xs
  broken : s.phase = .broken → (∃ l, s.req.net.clients[i]? = some l ∧ l.Gone s.req.net.daemon) ∧
    v.program.Opens (asked xs)

namespace Session

variable {v : Command} {i : Nat} {s t : Session} {xs : List Exchange}

theorem follows_start (v : Command) (i : Nat) (file : DurableState) (log : List BroadcastMsg)
    (now : Nat) : Follows v i (start file log now) [] := by
  refine ⟨⟨Net.wired_start file log now, fun _ => ⟨rfl, rfl⟩, ?_⟩, ?_, rfl, fun _ => rfl, ?_, ?_⟩
  · exact fun l hl => by cases hl
  · exact fun l hl => by cases hl
  · exact fun p hp => by cases hp
  · exact fun hb => by cases hb

theorem Follows.answered_prefix (h : Follows v i s xs) :
    (answered xs).map Prod.fst <+: asked xs := by
  cases hl : s.req.net.clients[i]? with
  | none =>
    obtain ⟨_, rfl⟩ := h.turn.unborn hl
    exact List.nil_prefix
  | some l =>
    rw [(h.client l hl).ledger]
    exact List.prefix_append _ _

theorem Follows.opens (h : Follows v i s xs) : v.program.Opens (asked xs) := by
  have hnil (hx : asked xs = []) : v.program.Opens (asked xs) := by
    rw [hx]
    exact ⟨[], _, .refl _, List.nil_prefix⟩
  have hpath (p : Program ClientMessage Reply Output) (hp : s.phase.program = some p)
      (hq : s.phase.message.toList <+: p.question.toList) : v.program.Opens (asked xs) := by
    obtain ⟨_, read, hread, has, _⟩ := h.path p hp
    refine ⟨read, p, hread, ?_⟩
    rw [has]
    exact (List.prefix_append_right_inj _).mpr hq
  cases hp : s.phase with
  | start => exact hnil (h.idle (by rw [hp]; rfl))
  | offline => exact hnil (h.idle (by rw [hp]; rfl))
  | going p => exact hpath p (by rw [hp]; rfl) (by rw [hp]; exact List.nil_prefix)
  | waiting m next =>
    exact hpath (.ask m next) (by rw [hp]; rfl) (by rw [hp]; exact List.prefix_rfl)
  | broken => exact (h.broken hp).2

theorem Follows.quiet (h : Follows v i s xs) (b : Correlation.Move) :
    Correlation.NoEventFirst cfg i s.req b :=
  ⟨fun _ l hl => (h.client l hl).deaf.lines, fun _ _ l hl hc => Or.inr
    ((h.client l hl).deaf.nextEvent (h.turn.wired.attached l (List.mem_of_getElem? hl)) hc)⟩

theorem Follows.net {a : NetAction} {r : Requester} (h : Follows v i s xs)
    (hr : s.req.step cfg fromStr i (.net a) = some r) :
    Follows v i { s with req := r } (xs ++ s.req.exchange cfg fromStr i (.net a)) := by
  have hturn := Correlation.inTurn_step h.turn (h.quiet (.net a)) hr
  simp only [Requester.step] at hr
  split at hr
  · cases hr
  rename_i ha
  obtain ⟨n, hn, rfl⟩ := Option.map_eq_some_iff.mp hr
  have hasked : asked (xs ++ s.req.exchange cfg fromStr i (.net a)) = asked xs := by
    rw [Correlation.asked_append, asked_net, List.append_nil]
  refine ⟨hturn, fun l' hl' => ?_, h.waiting, fun hp => hasked.trans (h.idle hp), fun p hp => ?_,
    fun hb => ?_⟩
  · cases hl : s.req.net.clients[i]? with
    | some l =>
      obtain ⟨l₁, hl₁, hatt, _⟩ := client_after v.sessionId xs s.req.waiting
        h.turn.wired ha hn hl
      obtain rfl : l₁ = l' := Option.some.inj (hl₁.symm.trans hl')
      exact hatt (h.client l hl)
    | none =>
      obtain ⟨_, rfl⟩ := h.turn.unborn hl
      exact client_new s.req.waiting ha hn hl hl'
  · obtain ⟨⟨l, hl⟩, read, hread, has, hans⟩ := h.path p hp
    obtain ⟨l', hl', _⟩ := client_after v.sessionId xs s.req.waiting h.turn.wired
      ha hn hl
    refine ⟨⟨l', hl'⟩, read, hread, by rw [hasked, has], hans.trans ?_⟩
    rw [Correlation.answered_append]
    exact List.prefix_append _ _
  · obtain ⟨⟨l, hl, hg⟩, hopens⟩ := h.broken hb
    obtain ⟨l', hl', _, hgone⟩ := client_after v.sessionId xs s.req.waiting
      h.turn.wired ha hn hl
    refine ⟨⟨l', hl', hgone hg⟩, ?_⟩
    rw [hasked]
    exact hopens

theorem Follows.replied {m : ClientMessage} {next : Reply → Program ClientMessage Reply Output}
    {r : Reply} (h : Follows v i s xs) (hp : s.phase = .waiting m next)
    (hr : s.req.nextLine i = some (.reply r)) :
    ∃ read, Program.Reaches v.program (read ++ [(m, r)]) (next r) ∧
      answered xs = read ++ [(m, r)] ∧ asked xs = (read ++ [(m, r)]).map Prod.fst := by
  obtain ⟨_, read, hread, has, rest, hrest⟩ := h.path (.ask m next) (by rw [hp]; rfl)
  have hw : s.req.waiting = some m := by rw [h.waiting, hp]; rfl
  obtain ⟨hall, hlast⟩ := (Correlation.inTurn_correlated h.turn m _ hw hr).2 r rfl
  have hm : s.phase.message.toList = [m] := by rw [hp]; rfl
  rw [hm] at has
  rw [has, ← hrest, List.map_append, List.append_right_inj] at hall
  obtain ⟨x, rfl, hx⟩ := List.map_eq_singleton_iff.mp hall
  rw [← hrest, List.getLast?_concat, Option.some.injEq] at hlast
  subst hlast
  refine ⟨read, hread.snoc, hrest.symm, ?_⟩
  rw [has, List.map_append]
  rfl

theorem Follows.sent {m : ClientMessage} {next : Reply → Program ClientMessage Reply Output}
    {r : Requester} (h : Follows v i s xs)
    (hv : Program.Uses (fun m => ∀ p, m ≠ .subscribe p) v.program)
    (hp : s.phase = .going (.ask m next)) (hr : s.req.step cfg fromStr i (.request m) = some r) :
    Follows v i ⟨r, .waiting m next⟩ (xs ++ [.asked m]) := by
  have hturn := Correlation.inTurn_step h.turn (h.quiet (.request m)) hr
  obtain ⟨_, read, hread, has, hans⟩ := h.path _ (by rw [hp]; rfl)
  have hm : ∀ p, m ≠ .subscribe p := by
    cases hread.uses hv with
    | ask hq _ => exact hq
  have hnone : s.phase.message.toList = [] := by rw [hp]; rfl
  rw [hnone, List.append_nil] at has
  have hnew : asked (xs ++ [.asked m]) = asked xs ++ [m] := Correlation.asked_append xs _
  have hsame : answered (xs ++ [.asked m]) = answered xs := by
    rw [Correlation.answered_append]
    exact List.append_nil _
  simp only [Requester.step] at hr
  split at hr
  · obtain ⟨n, hn, rfl⟩ := Option.map_eq_some_iff.mp hr
    obtain ⟨l, hl, _, rfl⟩ := Net.step_send.mp hn
    have hl' := Net.getElem?_setClient hl { l with outgoing := l.outgoing ++ [m] }
    refine ⟨hturn, fun l₁ hl₁ => ?_, rfl, fun hp' => (by cases hp'),
      fun p hp' => ?_, fun hb => by cases hb⟩
    · obtain rfl := Option.some.inj (hl'.symm.trans hl₁)
      have hatt := h.client l hl
      refine ⟨hatt.deaf.send hm, ?_, fun m' hm' => ?_, ?_⟩
      · rw [hnew, hsame, hatt.ledger, List.append_assoc]
      · rw [hnew, List.head?_append] at hm'
        cases hread with
        | refl =>
          rw [has] at hm'
          obtain rfl := Option.some.inj hm'
          exact ⟨_, _, _, _, rfl⟩
        | ask _ =>
          refine hatt.first m' ?_
          rw [has] at hm' ⊢
          exact hm'
      · rw [hsame]
        exact hatt.known
    · cases hp'
      refine ⟨⟨_, hl'⟩, read, hread, ?_, by rwa [hsame]⟩
      rw [hnew, has]
      rfl
  · cases hr

theorem Follows.read {r : Requester} (h : Follows v i s xs)
    (hr : s.req.step cfg fromStr i .readReply = some r) :
    Correlation.InTurn i r xs ∧ r.waiting = none ∧ ∃ l l', s.req.net.clients[i]? = some l ∧
      r.net.clients[i]? = some l' ∧ Attends v.sessionId r.net.daemon l' xs ∧
      ((∀ m x, s.req.waiting = some m → s.req.nextLine i = some x → ∃ y, x = .reply y) ∧
        s.req.nextLine i ≠ none ∨ l'.Gone r.net.daemon) := by
  have hturn := Correlation.inTurn_step h.turn (h.quiet .readReply) hr
  have hx : s.req.exchange cfg fromStr i .readReply = [] := rfl
  rw [hx, List.append_nil] at hturn
  simp only [Requester.step, Option.bind_eq_bind, Option.bind_eq_some_iff] at hr
  obtain ⟨m, hw, l, hl, hr⟩ := hr
  split at hr
  · split at hr
    · cases hr
    · rename_i hal
      cases hr
      obtain ⟨hg, _⟩ := Client.gone_of_not_alive (Bool.not_eq_true _ ▸ hal)
        (h.turn.wired.attached l (List.mem_of_getElem? hl))
      exact ⟨hturn, rfl, l, l, hl, hl, h.client l hl, Or.inr hg⟩
  · obtain ⟨n, hn, rfl⟩ := Option.map_eq_some_iff.mp hr
    obtain ⟨l₁, x, rest, hl₁, hin, rfl⟩ := Net.step_read.mp hn
    obtain rfl : l₁ = l := Option.some.inj (hl₁.symm.trans hl)
    have hl' := Net.getElem?_setClient hl { l₁ with incoming := rest }
    have hline : s.req.nextLine i = some x := by simp [Requester.nextLine, hl, hin]
    have hatt := h.client l₁ hl
    refine ⟨hturn, rfl, l₁, _, hl, hl', 
      ⟨hatt.deaf.read hin, hatt.ledger, hatt.first, hatt.known⟩, ?_⟩
    have hf := Client.flight_read (s := s.req.net.daemon) hin
    have hturn' := h.turn.turn l₁ hl
    rw [hw] at hturn'
    cases hturn' with
    | gone hg => exact Or.inr hg
    | sent _ hf' =>
      rw [hf] at hf'
      cases hf'
    | replied rest' _ hf' =>
      rw [hf, List.cons.injEq] at hf'
      refine Or.inl ⟨fun m' x' _ hx' => ?_, by rw [hline]; exact Option.some_ne_none _⟩
      exact ⟨_, (Option.some.inj (hline.symm.trans hx')).symm.trans hf'.1⟩

theorem follows_step {mv : CommandMove}
    (hv : Program.Uses (fun m => ∀ p, m ≠ .subscribe p) v.program) (h : Follows v i s xs)
    (hs : s.step cfg fromStr v i mv = some t) :
    Follows v i t (xs ++ s.exchange cfg fromStr i mv) := by
  cases mv with
  | net a =>
    obtain ⟨r, hr, rfl⟩ := Option.map_eq_some_iff.mp hs
    have hx : s.exchange cfg fromStr i (.net a) = s.req.exchange cfg fromStr i (.net a) := by
      simp [Session.exchange, move, hr]
    rw [hx]
    exact h.net hr
  | connect =>
    simp only [step] at hs
    split at hs
    · rename_i hp
      have hx : s.exchange cfg fromStr i .connect = [] := by
        simp [Session.exchange, move, hp, Requester.exchange]
      rw [hx]
      split at hs
      · split at hs
        · rename_i hlen
          obtain ⟨r, hr, rfl⟩ := Option.map_eq_some_iff.mp hs
          have hnone : s.req.net.clients[i]? = none := by
            rw [List.getElem?_eq_none_iff, hlen]
          obtain ⟨_, rfl⟩ := h.turn.unborn hnone
          have hnet := h.net hr
          refine ⟨hnet.turn, hnet.client, hnet.waiting.trans (by rw [hp]; rfl),
            fun hp' => (by cases hp'), fun p hp' => ?_,
            fun hb => by cases hb⟩
          cases hp'
          refine ⟨?_, [], .refl _, rfl, List.nil_prefix⟩
          simp only [Requester.step, NetAction.client, reduceCtorEq, ↓reduceIte,
            Option.map_eq_some_iff] at hr
          obtain ⟨n, hn, rfl⟩ := hr
          obtain ⟨_, _, rfl⟩ := Net.step_connect.mp hn
          exact ⟨_, by rw [← hlen]; exact List.getElem?_concat_length⟩
        · cases hs
      · cases hs
        rw [List.append_nil]
        exact ⟨h.turn, h.client, h.waiting.trans (by rw [hp]; rfl),
          fun _ => h.idle (by rw [hp]; rfl), fun p hp' => (by cases hp'), fun hb => by cases hb⟩
    · cases hs
  | send =>
    simp only [step] at hs
    split at hs
    · rename_i m next hp
      split at hs
      · rename_i r hr
        cases hs
        have hx : s.exchange cfg fromStr i .send = [.asked m] := by
          simp [Session.exchange, move, hp, hr, Requester.exchange]
        rw [hx]
        exact h.sent hv hp hr
      · rename_i hr
        cases hs
        have hx : s.exchange cfg fromStr i .send = [] := by
          simp [Session.exchange, move, hp, hr]
        rw [hx, List.append_nil]
        have hw : s.req.waiting = none := h.waiting.trans (by rw [hp]; rfl)
        obtain ⟨⟨l, hl⟩, read, hread, has, _⟩ := h.path _ (by rw [hp]; rfl)
        refine ⟨h.turn, h.client, hw, fun hp' => (by cases hp'),
          fun p hp' => (by cases hp'), fun _ => ⟨?_, read, _, hread, ?_⟩⟩
        swap
        · rw [has, hp]
          exact List.prefix_append_right_inj _ |>.mpr List.nil_prefix
        simp only [Requester.step, hw, Option.map_eq_none_iff] at hr
        have hal : l.alive s.req.net.daemon = false := by
          simpa [Net.step, hl] using hr
        exact ⟨l, hl, (Client.gone_of_not_alive hal
          (h.turn.wired.attached l (List.mem_of_getElem? hl))).1⟩
    · cases hs
  | receive =>
    simp only [step] at hs
    split at hs
    · rename_i m next hp
      obtain ⟨r, hr, rfl⟩ := Option.map_eq_some_iff.mp hs
      have hx : s.exchange cfg fromStr i .receive = [] := by
        simp [Session.exchange, move, hp, Requester.exchange]
      rw [hx, List.append_nil]
      obtain ⟨hturn, hw, l, l', hl, hl', hatt, hgone⟩ := h.read hr
      have hclient : ∀ l₁, r.net.clients[i]? = some l₁ →
          Attends v.sessionId r.net.daemon l₁ xs := by
        intro l₁ hl₁
        obtain rfl : l' = l₁ := Option.some.inj (hl'.symm.trans hl₁)
        exact hatt
      have hwait : s.req.waiting = some m := h.waiting.trans (by rw [hp]; rfl)
      by_cases hreply : ∃ reply, s.req.nextLine i = some (.reply reply)
      · obtain ⟨reply, hreply⟩ := hreply
        obtain ⟨read, hread, hans, has⟩ := h.replied hp hreply
        rw [hreply]
        refine ⟨hturn, hclient, hw, fun hp' => (by cases hp'),
          fun p hp' => ?_, fun hb => by cases hb⟩
        cases hp'
        refine ⟨⟨l', hl'⟩, _, hread, ?_, by rw [hans]⟩
        rw [has]
        exact (List.append_nil _).symm
      · have hbroken : (match s.req.nextLine i with
            | some (.reply reply) => CommandPhase.going (next reply)
            | _ => CommandPhase.broken) = .broken := by
          split
          · rename_i reply hx
            exact absurd ⟨reply, hx⟩ hreply
          · rfl
        rw [hbroken]
        refine ⟨hturn, hclient, hw, fun hp' => (by cases hp'),
          fun p hp' => (by cases hp'), fun _ => ⟨⟨l', hl', ?_⟩, ?_⟩⟩
        · obtain ⟨hall, hsome⟩ | hg := hgone
          · obtain ⟨x, hx⟩ := Option.ne_none_iff_exists'.mp hsome
            obtain ⟨y, rfl⟩ := hall m x hwait hx
            exact absurd ⟨y, hx⟩ hreply
          · exact hg
        · obtain ⟨_, read, hread, has, _⟩ := h.path (.ask m next) (by rw [hp]; rfl)
          refine ⟨read, _, hread, ?_⟩
          rw [has, hp]
          exact List.prefix_rfl
    · cases hs

end Session

/-- The daemon takes a message from the session that is announced on its connection, if there is
one, and answers it. -/
def Daemon.Serves (cfg : Config) (fromStr : String → Option ClientMessage) (s t : Daemon)
    (time : Nat) (o : Option String) (m : ClientMessage) (r : Reply) : Prop :=
  ∃ c text, s.step cfg fromStr (.line c text time) = some t ∧
    s.request fromStr (.line c text time) = some (o, m) ∧
    s.answer cfg fromStr (.line c text time) = some r

namespace Session

variable {v : Command} {i : Nat} {s₀ s t : Session} {mvs : List CommandMove}

/-- The messages of the command that the daemon has taken, with its answers. -/
def taken (cfg : Config) (fromStr : String → Option ClientMessage) (v : Command) (i : Nat)
    (s₀ : Session) (mvs : List CommandMove) : List (ClientMessage × Reply) :=
  answered (trace (step cfg fromStr v i) (exchange cfg fromStr i) s₀ mvs)

/-- At some step of the run the daemon serves the message, from the session of the command if it has
taken another before. -/
def Given (cfg : Config) (fromStr : String → Option ClientMessage) (v : Command) (i : Nat)
    (s₀ : Session) (mvs : List CommandMove) (m : ClientMessage) (r : Reply) : Prop :=
  ∃ before mv after u w time o, mvs = before ++ mv :: after ∧
    run (step cfg fromStr v i) s₀ before = some u ∧ u.step cfg fromStr v i mv = some w ∧
    Exchange.answered m r ∈ u.exchange cfg fromStr i mv ∧
    u.req.net.daemon.Serves cfg fromStr w.req.net.daemon time o m r ∧
    o = (if taken cfg fromStr v i s₀ before = [] then none else some v.sessionId) ∧
    v.program.Opens ((taken cfg fromStr v i s₀ before).map Prod.fst ++ [m])

def Refused (cfg : Config) (fromStr : String → Option ClientMessage) (v : Command) (i : Nat)
    (s₀ : Session) (mvs : List CommandMove) : Prop :=
  ∃ before after u, mvs = before ++ .connect :: after ∧
    run (step cfg fromStr v i) s₀ before = some u ∧ u.req.net.daemon.main.isServing = false

theorem follows_run (hv : Program.Uses (fun m => ∀ p, m ≠ .subscribe p) v.program)
    {file : DurableState} {log : List BroadcastMsg} {now : Nat}
    (hr : run (step cfg fromStr v i) (start file log now) mvs = some s) :
    Follows v i s (trace (step cfg fromStr v i) (exchange cfg fromStr i) (start file log now)
      mvs) := by
  have h := run_trace_invariant (I := Follows v i)
    (fun _ _ _ _ h _ hs => follows_step hv h hs) (along_true _ mvs) hr
    (follows_start v i file log now)
  rwa [List.nil_append] at h

theorem given_of_taken (hv : Program.Uses (fun m => ∀ p, m ≠ .subscribe p) v.program)
    {file : DurableState} {log : List BroadcastMsg} {now : Nat} {m : ClientMessage} {r : Reply}
    (hx : (m, r) ∈ taken cfg fromStr v i (start file log now) mvs) :
    Given cfg fromStr v i (start file log now) mvs m r := by
  obtain ⟨x, hx, hxm⟩ := List.mem_filterMap.mp hx
  obtain ⟨before, mv, after, u, w, hmvs, hu, hw, hx⟩ := mem_trace hx
  have hmem : x ∈ u.exchange cfg fromStr i mv := hx
  have hfollows := follows_run hv hu
  -- only a line that the daemon takes answers anything
  obtain ⟨a, rfl, hheard⟩ : ∃ a, mv = .net (.serve a) ∧ x ∈ u.req.exchange cfg fromStr i
      (.net (.serve a)) := by
    simp only [Session.exchange] at hx
    split at hx
    · rename_i b hb
      split at hx
      · cases b with
        | net a =>
          cases a with
          | serve a =>
            cases mv with
            | net a' =>
              cases hb
              exact ⟨a, rfl, hx⟩
            | connect =>
              simp only [move] at hb
              split at hb <;> cases hb
            | send =>
              simp only [move] at hb
              split at hb <;> cases hb
            | receive =>
              simp only [move] at hb
              split at hb <;> cases hb
          | _ => cases hx
        | request m' =>
          obtain rfl := List.mem_singleton.mp hx
          cases hxm
        | _ => cases hx
      · cases hx
    · cases hx
  cases hl : u.req.net.clients[i]? with
  | none => simp [Requester.exchange, hl] at hheard
  | some l =>
    simp only [Requester.exchange, hl, Option.elim_some] at hheard
    obtain ⟨c, text, time, m', r', rfl, hc, hm, hr, rfl⟩ := mem_heard hheard
    cases hxm
    have hq := hw
    simp only [step, Option.map_eq_some_iff] at hq
    obtain ⟨q, hq, rfl⟩ := hq
    simp only [Requester.step, NetAction.client, reduceCtorEq, ↓reduceIte,
      Option.map_eq_some_iff] at hq
    obtain ⟨n, hn, rfl⟩ := hq
    obtain ⟨hfit, d, hd, rfl⟩ := Net.step_serve.mp hn
    obtain ⟨m', ms, ho, henc⟩ := Client.fits_line (hfit l (List.mem_of_getElem? hl)) hc
    obtain rfl : m' = m := by simpa [ho] using hm
    obtain ⟨k, hk⟩ := hfollows.turn.wired.attached l (List.mem_of_getElem? hl) c hc
    have hatt := hfollows.client l hl
    refine ⟨before, _, after, u, _, time, k.sessionId, hmvs, hu, hw, hmem, ⟨c, text, hd, ?_, hr⟩,
      hatt.known c k hc hk, hfollows.opens.mono ?_⟩
    · simp [Daemon.request, hk, henc.1, henc.2]
    · rw [hatt.ledger, ho]
      exact (List.prefix_append_right_inj _).mpr (List.cons_prefix_cons.mpr ⟨rfl, List.nil_prefix⟩)

theorem offline_step {s t : Session} {mv : CommandMove} (h : s.step cfg fromStr v i mv = some t)
    (ht : t.phase = .offline) : s.phase = .offline ∨ () ∈ s.refusal mv := by
  cases mv with
  | net a =>
    obtain ⟨r, _, rfl⟩ := Option.map_eq_some_iff.mp h
    exact Or.inl ht
  | connect =>
    simp only [step] at h
    split at h
    · split at h
      · split at h
        · obtain ⟨r, _, rfl⟩ := Option.map_eq_some_iff.mp h
          cases ht
        · cases h
      · rename_i hserving
        exact Or.inr (by simp [refusal, hserving])
    · cases h
  | send =>
    simp only [step] at h
    split at h
    · split at h <;> cases h <;> cases ht
    · cases h
  | receive =>
    simp only [step] at h
    split at h
    · obtain ⟨r, _, rfl⟩ := Option.map_eq_some_iff.mp h
      dsimp only at ht
      split at ht <;> cases ht
    · cases h

theorem refused_of_offline {file : DurableState} {log : List BroadcastMsg} {now : Nat}
    (hr : run (step cfg fromStr v i) (start file log now) mvs = some s)
    (hs : s.phase = .offline) : Refused cfg fromStr v i (start file log now) mvs := by
  have hstep : ∀ (s : Session) (mv : CommandMove) (t : Session) (out : List Unit),
      (s.phase = .offline → () ∈ out) → True → s.step cfg fromStr v i mv = some t →
        t.phase = .offline → () ∈ out ++ s.refusal mv := by
    intro s mv t out hi _ h ht
    rw [List.mem_append]
    exact (offline_step h ht).imp_left hi
  have hstart : (start file log now).phase = .offline → () ∈ ([] : List Unit) :=
    fun h => by cases h
  have h : s.phase = .offline →
      () ∈ [] ++ trace (step cfg fromStr v i) refusal (start file log now) mvs :=
    run_trace_invariant hstep (along_true _ mvs) hr hstart
  rw [List.nil_append] at h
  obtain ⟨before, mv, after, u, w, hmvs, hu, _, hx⟩ := mem_trace (h hs)
  cases mv with
  | connect =>
    refine ⟨before, after, u, hmvs, hu, ?_⟩
    simp only [refusal] at hx
    split at hx
    · cases hx
    · rename_i hserving
      exact Bool.not_eq_true _ ▸ hserving
  | _ => cases hx

theorem ended (hv : Program.Uses (fun m => ∀ p, m ≠ .subscribe p) v.program)
    {file : DurableState} {log : List BroadcastMsg} {now : Nat}
    (hr : run (step cfg fromStr v i) (start file log now) mvs = some s) {out : Output}
    (hout : s.output v = some out) :
    (out = ⟨v.offline, 0⟩ ∧ Refused cfg fromStr v i (start file log now) mvs ∧
        taken cfg fromStr v i (start file log now) mvs = []) ∨
      (out = ⟨[], 2⟩ ∧ (∃ l, s.req.net.clients[i]? = some l ∧ l.Gone s.req.net.daemon) ∧
        v.program.Opens ((taken cfg fromStr v i (start file log now) mvs).map Prod.fst)) ∨
      ∃ p, v.program.Reaches (taken cfg fromStr v i (start file log now) mvs) p ∧
        (p = .done out ∨ out = ⟨[], 2⟩ ∧ ∃ e, p = .fail e) := by
  have h := follows_run hv hr
  have hpre := h.answered_prefix
  have hreach (p : Program ClientMessage Reply Output) (hp : s.phase = .going p) :
      v.program.Reaches (taken cfg fromStr v i (start file log now) mvs) p := by
    obtain ⟨_, read, hread, has, hans⟩ := h.path p (by rw [hp]; rfl)
    -- all that has been asked is read, so it has been answered, and nothing else has
    have hlen := hpre.length_le
    rw [has, hp, List.length_map, List.length_append, List.length_map] at hlen
    rwa [hans.eq_of_length_le (by simpa [CommandPhase.message] using hlen)] at hread
  simp only [output] at hout
  split at hout
  · rename_i out' hp
    cases hout
    exact Or.inr (Or.inr ⟨_, hreach _ hp, Or.inl rfl⟩)
  · rename_i e hp
    cases hout
    exact Or.inr (Or.inr ⟨_, hreach _ hp, Or.inr ⟨rfl, e, rfl⟩⟩)
  · rename_i hp
    cases hout
    rw [h.idle (by rw [hp]; rfl), List.prefix_nil, List.map_eq_nil_iff] at hpre
    exact Or.inl ⟨rfl, refused_of_offline hr hp, hpre⟩
  · rename_i hp
    cases hout
    obtain ⟨hgone, hopens⟩ := h.broken hp
    exact Or.inr (Or.inl ⟨rfl, hgone, hopens.mono hpre⟩)
  · cases hout

end Session

end Agorabus
