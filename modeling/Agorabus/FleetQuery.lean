import Agorabus.FleetView
import Agorabus.Listener

namespace Agorabus

open Daemon StepSystem FleetView
open Subscriber (events events_append)

structure FleetQuery where
  callerSid : String
  ttlSecs : Nat
  pid : Nat
  cwd : String

/-- Where the query is. -/
inductive QueryPc where
  | start
  | connected (i : Nat)
  | announcing (i : Nat)
  | announced (i : Nat)
  | subscribing (i : Nat)
  | collecting (i : Nat) (store : FleetStore)
  | ended (peers : List PeerRecord)

/-- Every step of the query goes up to the next point where it awaits. -/
inductive QueryAction where
  | connect
  | sendAnnounce
  | announceReply
  | sendSubscribe
  | subscribeReply
  | nextEvent
  | timeout

namespace FleetQuery

def announce (q : FleetQuery) : ClientMessage :=
  .announce (q.callerSid ++ "-fleet-sub") q.pid q.cwd "fleet-peers-query" none

/-- A request that fails leaves the list empty. -/
def done (pc : QueryPc) (r : Option Reply) : QueryPc :=
  if r.isSome then pc else .ended []

/-- `next_event` skips replies, and a line that is neither one nor an event ends the collection. -/
def afterLine (now i : Nat) (store : FleetStore) : OutLine → QueryPc
  | .reply _ => .collecting i store
  | .event e => .collecting i (store.observe (e, now))
  | .notice _ => .ended (store.livePeers now)

/-- A step of the query, with what it does to its client. The window of 100 ms is shorter than what
the clock counts: it may close at any time. -/
def step (n : Net) (q : FleetQuery) : QueryAction → QueryPc → Option (Option NetAction × QueryPc)
  | .connect, .start =>
      some (if n.daemon.main.isServing then (some .connect, .connected n.clients.length)
        else (none, .ended []))
  | .sendAnnounce, .connected i => some (n.sending i q.announce (.announcing i) (.ended []))
  | .announceReply, .announcing i => n.reading i (done (.announced i))
  | .sendSubscribe, .announced i =>
      some (n.sending i (.subscribe "wm.fleet.presence") (.subscribing i) (.ended []))
  | .subscribeReply, .subscribing i => n.reading i (done (.collecting i (.withTtl q.ttlSecs)))
  | .nextEvent, .collecting i store => do
      let l ← n.clients[i]?
      match l.incoming with
      | line :: _ => some (some (.read i), afterLine n.daemon.clock i store line)
      | [] =>
          if l.alive n.daemon then none
          else some (none, .ended (store.livePeers n.daemon.clock))
  | .timeout, .collecting _ store => some (none, .ended (store.livePeers n.daemon.clock))
  | _, _ => none

end FleetQuery

def QueryPc.client : QueryPc → Option Nat
  | .connected i | .announcing i | .announced i | .subscribing i | .collecting i _ => some i
  | .start | .ended _ => none

/-- The list that the query returns. -/
def QueryPc.listed : QueryPc → Option (List PeerRecord)
  | .ended peers => some peers
  | _ => none

structure FleetNet where
  net : Net
  pc : QueryPc

inductive FleetAction where
  | net (a : NetAction)
  | query (a : QueryAction)

def FleetAction.daemon? : FleetAction → Option Action
  | .net a => a.daemon?
  | .query _ => none

namespace FleetNet

def start (file : DurableState) (log : List BroadcastMsg) (now : Nat) : FleetNet :=
  ⟨.start file log now, .start⟩

def client (w : FleetNet) : Option Client := w.pc.client.bind (fun i => w.net.clients[i]?)

def acts (q : FleetQuery) (w : FleetNet) : FleetAction → Option (Option NetAction × QueryPc)
  | .net a =>
      if a.client.any (fun i => decide (w.pc.client = some i)) then none else some (some a, w.pc)
  | .query a => q.step w.net a w.pc

def step (cfg : Config) (fromStr : String → Option ClientMessage) (q : FleetQuery) (w : FleetNet)
    (a : FleetAction) : Option FleetNet := do
  let (b, pc) ← w.acts q a
  let n ← b.elim (some w.net) (w.net.step cfg fromStr)
  some ⟨n, pc⟩

variable (cfg : Config) (fromStr : String → Option ClientMessage) (q : FleetQuery)

def stamped (es : Action → List ServerEvent) (w : FleetNet) (a : FleetAction) :
    List (ServerEvent × Nat) :=
  (w.step cfg fromStr q a).elim [] (fun w' =>
    (a.daemon?.elim [] es).map (fun e => (e, w'.net.daemon.clock)))

def arrives (w : FleetNet) : FleetAction → List (ServerEvent × Nat) :=
  w.stamped cfg fromStr q (fun d => (w.net.daemon.sends cfg fromStr d).map BroadcastMsg.toEvent)

/-- What reaches the bus when the daemon has taken the query's `Subscribe`. -/
def arrivesLate (w : FleetNet) : FleetAction → List (ServerEvent × Nat) :=
  w.stamped cfg fromStr q (fun d => w.client.elim [] (fun l => l.hears cfg fromStr w.net.daemon d))

def reads (w : FleetNet) : FleetAction → List (ServerEvent × Nat)
  | .query .nextEvent =>
      match w.pc with
      | .collecting i _ => ((w.net.clients[i]?).bind (fun l => l.incoming.head?)).elim []
          (fun x => (events [x]).map (fun e => (e, w.net.daemon.clock)))
      | _ => []
  | _ => []

end FleetNet

namespace FleetQuery

open FleetNet (arrives arrivesLate reads)

variable {cfg : Config} {fromStr : String → Option ClientMessage} {q : FleetQuery}
  {n n' : Net} {pc pc' : QueryPc} {b : Option NetAction} {w w' : FleetNet} {a : FleetAction}

inductive Goes (q : FleetQuery) (n : Net) :
    QueryAction → QueryPc → Option NetAction → QueryPc → Prop
  | fails (e : QueryAction) (pc : QueryPc) (b : Option NetAction)
      (hpc : ∀ i store, pc ≠ .collecting i store) : Goes q n e pc b (.ended [])
  | closes (e : QueryAction) (i : Nat) (store : FleetStore) (b : Option NetAction)
      (hb : b = none ∨ b = some (.read i)) :
      Goes q n e (.collecting i store) b (.ended (store.livePeers n.daemon.clock))
  | connect : Goes q n .connect .start (some .connect) (.connected n.clients.length)
  | sendAnnounce (i : Nat) :
      Goes q n .sendAnnounce (.connected i) (some (.send i q.announce)) (.announcing i)
  | announceReply (i : Nat) :
      Goes q n .announceReply (.announcing i) (some (.read i)) (.announced i)
  | sendSubscribe (i : Nat) :
      Goes q n .sendSubscribe (.announced i) (some (.send i (.subscribe "wm.fleet.presence")))
        (.subscribing i)
  | subscribeReply (i : Nat) :
      Goes q n .subscribeReply (.subscribing i) (some (.read i))
        (.collecting i (.withTtl q.ttlSecs))
  | collect (i : Nat) (store : FleetStore) (l : Client) (x : OutLine) (ls : List OutLine)
      (hl : n.clients[i]? = some l) (hx : l.incoming = x :: ls) :
      Goes q n .nextEvent (.collecting i store) (some (.read i))
        (.collecting i ((events [x]).foldl (fun st e => st.observe (e, n.daemon.clock)) store))

theorem goes_sending {e : QueryAction} {i : Nat} {m : ClientMessage} {sent : QueryPc}
    (h : n.sending i m sent (.ended []) = (b, pc')) (hpc : ∀ i store, pc ≠ .collecting i store)
    (hg : Goes q n e pc (some (.send i m)) sent) : Goes q n e pc b pc' := by
  obtain ⟨rfl, rfl⟩ | ⟨rfl, rfl⟩ := Net.sending_eq h
  · exact hg
  · exact .fails _ _ _ hpc

theorem goes_reading {e : QueryAction} {i : Nat} {next : QueryPc}
    (h : n.reading i (done next) = some (b, pc')) (hpc : ∀ i store, pc ≠ .collecting i store)
    (hg : Goes q n e pc (some (.read i)) next) : Goes q n e pc b pc' := by
  obtain ⟨r, hr, rfl⟩ := Net.reading_eq.mp h
  cases r with
  | none => exact .fails _ _ _ hpc
  | some r =>
    obtain ⟨rfl, _⟩ := Net.readReply_some hr
    exact hg

theorem goes {e : QueryAction} (h : q.step n e pc = some (b, pc')) : Goes q n e pc b pc' := by
  unfold FleetQuery.step at h
  split at h
  · -- connect
    split at h <;> cases h
    · exact .connect
    · exact .fails _ _ _ nofun
  · exact goes_sending (Option.some.inj h) nofun (.sendAnnounce _)
  · exact goes_reading h nofun (.announceReply _)
  · exact goes_sending (Option.some.inj h) nofun (.sendSubscribe _)
  · exact goes_reading h nofun (.subscribeReply _)
  · -- nextEvent
    rename_i i store
    simp only [Option.bind_eq_bind, Option.bind_eq_some_iff] at h
    obtain ⟨l, hl, h⟩ := h
    split at h
    · rename_i line ls hx
      cases h
      cases line with
      | reply r => exact .collect i store l _ ls hl hx
      | event ev => exact .collect i store l _ ls hl hx
      | notice d => exact .closes _ _ _ _ (Or.inr rfl)
    · split at h <;> cases h
      exact .closes _ _ _ _ (Or.inl rfl)
  · cases h
    exact .closes _ _ _ _ (Or.inl rfl)
  · cases h

theorem step_acts (h : w.step cfg fromStr q a = some w') :
    ∃ b, w.acts q a = some (b, w'.pc) ∧ b.elim (some w.net) (w.net.step cfg fromStr) =
      some w'.net := by
  simp only [FleetNet.step, Option.bind_eq_bind, Option.bind_eq_some_iff, Prod.exists] at h
  obtain ⟨b, pc, hb, n, hn, h⟩ := h
  cases h
  exact ⟨b, hb, hn⟩

theorem step_cases (h : w.step cfg fromStr q a = some w') :
    (∃ b, a = .net b ∧ (∀ i, w.pc.client = some i → b.client ≠ some i) ∧
      w.net.step cfg fromStr b = some w'.net ∧ w'.pc = w.pc) ∨
    (∃ e b, a = .query e ∧ Goes q w.net e w.pc b w'.pc ∧
      b.elim (some w.net) (w.net.step cfg fromStr) = some w'.net) := by
  obtain ⟨b, hb, hn⟩ := step_acts h
  cases a with
  | net c =>
    rw [FleetNet.acts] at hb
    split at hb
    · cases hb
    · rename_i hc
      obtain ⟨rfl, hpc⟩ := Prod.mk.inj (Option.some.inj hb)
      refine Or.inl ⟨c, rfl, fun i hi he => hc ?_, hn, hpc.symm⟩
      simp [he, hi]
  | query e => exact Or.inr ⟨e, b, rfl, goes hb, hn⟩

def Collected (q : FleetQuery) (heard : List (ServerEvent × Nat)) : QueryPc → Prop
  | .collecting _ store => store = collectStore heard q.ttlSecs
  | .ended _ => True
  | _ => heard = []

theorem collected_step {heard : List (ServerEvent × Nat)} (hc : Collected q heard w.pc)
    (h : w.step cfg fromStr q a = some w') : Collected q (heard ++ reads w a) w'.pc := by
  obtain ⟨b, rfl, _, _, hpc⟩ | ⟨e, b, rfl, hg, _⟩ := step_cases h
  · have hreads : reads w (.net b) = [] := rfl
    rw [hpc, hreads, List.append_nil]
    exact hc
  · obtain ⟨n, pc⟩ := w
    obtain ⟨n', pc'⟩ := w'
    dsimp only at *
    cases hg with
    | fails _ pc b hpc => trivial
    | closes _ i store b hb => trivial
    | collect i store l x ls hl hx =>
      have hreads : reads ⟨n, .collecting i store⟩ (.query .nextEvent) =
          (events [x]).map (fun e => (e, n.daemon.clock)) := by
        simp [reads, hl, hx]
      obtain rfl : store = collectStore heard q.ttlSecs := hc
      rw [hreads, Collected, collectStore, collectStore, List.foldl_append, List.foldl_map]
    | subscribeReply i =>
      obtain rfl : heard = [] := hc
      rfl
    | _ => exact (List.append_nil _).trans hc

/-- What is on its way to the query, and what it has collected, has reached the bus since the daemon
took the `Subscribe`. -/
structure Late (w : FleetNet) (late : List (ServerEvent × Nat)) : Prop where
  wired : w.net.Wired
  behind : Behind w.net.daemon
  client : ∀ i, w.pc.client = some i → ∃ l, w.net.clients[i]? = some l ∧
    l.ComesFrom w.net.daemon (late.map Prod.fst)
  store : ∀ i store, w.pc = .collecting i store → ∀ n sid e,
    store.entries.lookup ⟨sid, n⟩ = some e → ∃ x ∈ late, announces n sid x.1 = true

theorem late_start (file : DurableState) (log : List BroadcastMsg) (now : Nat) :
    Late (.start file log now) [] :=
  ⟨Net.wired_start file log now, behind_start file log now, nofun, nofun⟩

/-- What the observed events put into the store. -/
theorem lookup_foldl {store : FleetStore} {now : Nat} {es : List ServerEvent} {n sid : String}
    {e : FleetEntry}
    (h : (es.foldl (fun st x => st.observe (x, now)) store).entries.lookup ⟨sid, n⟩ = some e) :
    (∃ e', store.entries.lookup ⟨sid, n⟩ = some e') ∨ ∃ x ∈ es, announces n sid x = true := by
  induction es generalizing store with
  | nil => exact Or.inl ⟨e, h⟩
  | cons x xs ih =>
    obtain ⟨e', he'⟩ | ⟨y, hy, ha⟩ := ih h
    · have hseen := lookup_observe store (x, now) n sid
      rw [he'] at hseen
      split at hseen
      · rename_i ha
        exact Or.inr ⟨x, List.mem_cons_self, ha⟩
      · obtain ⟨e₀, he₀, _⟩ := Option.map_eq_some_iff.mp hseen.symm
        exact Or.inl ⟨e₀, he₀⟩
    · exact Or.inr ⟨y, List.mem_cons_of_mem _ hy, ha⟩

theorem late_other {late : List (ServerEvent × Nat)} {c : NetAction} (hw : Late w late)
    (h : w.step cfg fromStr q (.net c) = some w')
    (hc : ∀ i, w.pc.client = some i → c.client ≠ some i)
    (hn : w.net.step cfg fromStr c = some w'.net) (hpc : w'.pc = w.pc) :
    Late w' (late ++ arrivesLate cfg fromStr q w (.net c)) := by
  refine ⟨Net.wired_step hw.wired hn,
    Net.daemon_invariant (fun _ _ _ hi ht => behind_step hi ht) hn hw.behind, ?_, ?_⟩
  · intro i hi
    rw [hpc] at hi
    obtain ⟨l, hl, hcomes⟩ := hw.client i hi
    obtain ⟨d, hd, ht, hfit, hl'⟩ | ⟨hd, hdaemon, hl'⟩ := Net.step_client hn (hc i hi) hl
    · refine ⟨_, hl', ?_⟩
      have hlate : (arrivesLate cfg fromStr q w (.net c)).map Prod.fst =
          l.hears cfg fromStr w.net.daemon d := by
        simp [arrivesLate, FleetNet.stamped, h, FleetAction.daemon?, hd, FleetNet.client, hi, hl,
          Function.comp_def]
      rw [List.map_append, hlate]
      exact Client.comesFrom_served hw.behind hw.wired.notices
        (hw.wired.attached l (List.mem_of_getElem? hl)) hfit ht hcomes
    · refine ⟨l, hl', ?_⟩
      rw [List.map_append, hdaemon]
      exact hcomes.append _
  · intro i store hcol n sid e he
    rw [hpc] at hcol
    obtain ⟨x, hx, ha⟩ := hw.store i store hcol n sid e he
    exact ⟨x, List.mem_append_left _ hx, ha⟩

theorem late_goes {late : List (ServerEvent × Nat)} {e : QueryAction} (hw : Late w late)
    (hg : Goes q w.net e w.pc b w'.pc)
    (hn : b.elim (some w.net) (w.net.step cfg fromStr) = some w'.net) : Late w' late := by
  obtain ⟨n, pc⟩ := w
  obtain ⟨n', pc'⟩ := w'
  obtain ⟨hwired, hbehind, hclient, hstore⟩ := hw
  dsimp only at *
  have hwired' : n'.Wired := Net.elim_wired hwired hn
  have hbehind' : Behind n'.daemon :=
    Net.elim_invariant hn (fun _ _ _ hi ht => behind_step hi ht) hbehind
  have taken {c : NetAction} (hb : b = some c) : n.step cfg fromStr c = some n' :=
    Net.elim_some hn hb
  -- what the query does on its own client puts nothing on its way
  have sent {i : Nat} {m : ClientMessage} (hb : b = some (.send i m)) (hi : pc.client = some i) :
      ∃ l, n'.clients[i]? = some l ∧ l.ComesFrom n'.daemon (late.map Prod.fst) := by
    obtain ⟨l, hl, hcomes⟩ := hclient i hi
    obtain ⟨l₁, hl₁, _, rfl⟩ := Net.step_send.mp (taken hb)
    obtain rfl : l = l₁ := Option.some.inj (hl.symm.trans hl₁)
    exact ⟨_, Net.getElem?_setClient hl _, hcomes.channel, hcomes.lines⟩
  have read {i : Nat} (hb : b = some (.read i)) (hi : pc.client = some i) :
      ∃ l, n'.clients[i]? = some l ∧ l.ComesFrom n'.daemon (late.map Prod.fst) := by
    obtain ⟨l, hl, hcomes⟩ := hclient i hi
    obtain ⟨l₁, x, xs, hl₁, hx, rfl⟩ := Net.step_read.mp (taken hb)
    obtain rfl : l = l₁ := Option.some.inj (hl.symm.trans hl₁)
    exact ⟨_, Net.getElem?_setClient hl _, hcomes.read hx⟩
  cases hg with
  | fails => exact ⟨hwired', hbehind', nofun, nofun⟩
  | closes => exact ⟨hwired', hbehind', nofun, nofun⟩
  | connect =>
    refine ⟨hwired', hbehind', ?_, nofun⟩
    rintro i ⟨⟩
    obtain ⟨t, ht, rfl⟩ := Net.step_connect.mp (taken rfl)
    obtain ⟨_, rfl⟩ := Daemon.step_connect.mp ht
    refine ⟨_, List.getElem?_concat_length, fun rx hrx => ?_, fun e he => ?_⟩
    · rw [Client.rx_of rfl List.getElem?_concat_length] at hrx
      cases hrx
    · rw [Client.flight_of rfl List.getElem?_concat_length] at he
      cases he
  | sendAnnounce i =>
    refine ⟨hwired', hbehind', ?_, nofun⟩
    rintro i ⟨⟩
    exact sent rfl rfl
  | announceReply i =>
    refine ⟨hwired', hbehind', ?_, nofun⟩
    rintro i ⟨⟩
    exact read rfl rfl
  | sendSubscribe i =>
    refine ⟨hwired', hbehind', ?_, nofun⟩
    rintro i ⟨⟩
    exact sent rfl rfl
  | subscribeReply i =>
    refine ⟨hwired', hbehind', ?_, ?_⟩
    · rintro i ⟨⟩
      exact read rfl rfl
    · rintro i store ⟨⟩ n sid e he
      cases he
  | collect i store l x ls hl hx =>
    refine ⟨hwired', hbehind', ?_, ?_⟩
    · rintro i ⟨⟩
      exact read rfl rfl
    · rintro i st ⟨⟩ n sid e he
      obtain ⟨e', he'⟩ | ⟨y, hy, ha⟩ := lookup_foldl he
      · exact hstore _ store rfl n sid e' he'
      · obtain ⟨l₁, hl₁, hcomes⟩ := hclient i rfl
        obtain rfl : l = l₁ := Option.some.inj (hl.symm.trans hl₁)
        have hy : y ∈ late.map Prod.fst := by
          refine hcomes.lines y ?_
          rw [Client.flight_read hx, ← List.singleton_append, events_append]
          exact List.mem_append_left _ hy
        obtain ⟨z, hz, rfl⟩ := List.mem_map.mp hy
        exact ⟨z, hz, ha⟩

theorem late_step {late : List (ServerEvent × Nat)} (hw : Late w late)
    (h : w.step cfg fromStr q a = some w') : Late w' (late ++ arrivesLate cfg fromStr q w a) := by
  obtain ⟨c, rfl, hc, hn, hpc⟩ | ⟨e, b, rfl, hg, hn⟩ := step_cases h
  · exact late_other hw h hc hn hpc
  · have hnone : arrivesLate cfg fromStr q w (.query e) = [] := by
      rw [arrivesLate, FleetNet.stamped, h]
      rfl
    rw [hnone, List.append_nil]
    exact late_goes hw hg hn

/-- The last announcement of the session on the node is within the TTL. -/
def Recent (n sid : String) (ttlSecs now : Nat) (events : List (ServerEvent × Nat)) : Prop :=
  ∃ e ∈ events.reverse.find? (fun e => announces n sid e.1), now - e.2 ≤ ttlSecs

instance (n sid : String) (ttlSecs now : Nat) (events : List (ServerEvent × Nat)) :
    Decidable (Recent n sid ttlSecs now events) :=
  inferInstanceAs (Decidable (∃ _ ∈ _, _))

/-- Every remote peer whose last announcement on the bus is within the TTL is listed. -/
def Complete (node : String) (ttlSecs now : Nat) (arrived : List (ServerEvent × Nat))
    (peers : List PeerRecord) : Prop :=
  ∀ n sid, n ≠ node → Recent n sid ttlSecs now arrived →
    ∃ r ∈ peers, r.node = some n ∧ r.sessionId = sid

/-- Every such peer is announced once more when the daemon has taken the query's `Subscribe`, and
the query reads an announcement of it in its window, the last within the TTL. -/
def Retold (node : String) (ttlSecs now : Nat) (arrived late heard : List (ServerEvent × Nat)) :
    Prop :=
  ∀ n sid, n ≠ node → Recent n sid ttlSecs now arrived →
    (∃ e ∈ late, announces n sid e.1 = true) ∧ Recent n sid ttlSecs now heard

theorem recent_iff_lookup (n sid : String) (ttlSecs now : Nat)
    (heard : List (ServerEvent × Nat)) : Recent n sid ttlSecs now heard ↔
      ∃ e, (collectStore heard ttlSecs).entries.lookup ⟨sid, n⟩ = some e ∧
        now - e.lastSeenUnixSecs ≤ ttlSecs := by
  have hlast := lookup_collectStore heard ttlSecs n sid
  constructor
  · rintro ⟨e, he, hfresh⟩
    rw [Option.mem_def.mp he, Option.map_some] at hlast
    obtain ⟨entry, hentry, hseen⟩ := Option.map_eq_some_iff.mp hlast
    exact ⟨entry, hentry, by rw [hseen]; exact hfresh⟩
  · rintro ⟨entry, hentry, hfresh⟩
    rw [hentry, Option.map_some] at hlast
    obtain ⟨e, he, hseen⟩ := Option.map_eq_some_iff.mp hlast.symm
    exact ⟨e, he, by rw [hseen]; exact hfresh⟩

theorem listed_iff {late heard : List (ServerEvent × Nat)} {peers : List PeerRecord}
    (hl : Late w late) (hc : Collected q heard w.pc) (h : w.step cfg fromStr q a = some w')
    (hbefore : w.pc.listed = none) (hend : w'.pc.listed = some peers) (n sid : String) :
    (∃ r ∈ peers, r.node = some n ∧ r.sessionId = sid) ↔
      (∃ e ∈ late, announces n sid e.1 = true) ∧
        Recent n sid q.ttlSecs w'.net.daemon.clock heard := by
  obtain ⟨c, rfl, _, _, hpc⟩ | ⟨e, b, rfl, hg, hn⟩ := step_cases h
  · rw [hpc, hbefore] at hend
    cases hend
  · obtain ⟨n', pc'⟩ := w'
    obtain ⟨net, pc⟩ := w
    dsimp only at *
    have none_listed (hheard : heard = []) : ¬ Recent n sid q.ttlSecs n'.daemon.clock heard := by
      rw [hheard]
      rintro ⟨e, he, _⟩
      cases he
    cases hg with
    | fails _ _ _ hpc =>
      cases hend
      have hheard : heard = [] := by
        cases pc with
        | collecting i store => exact absurd rfl (hpc i store)
        | ended peers => cases hbefore
        | _ => exact hc
      exact ⟨fun ⟨r, hr, _⟩ => (nomatch hr), fun ⟨_, hrec⟩ => absurd hrec (none_listed hheard)⟩
    | closes _ i store _ hb =>
      cases hend
      have hclock : n'.daemon = net.daemon := by
        obtain rfl | rfl := hb
        · cases hn
          rfl
        · obtain ⟨_, _, _, _, _, rfl⟩ := Net.step_read.mp (Net.elim_some hn rfl)
          rfl
      obtain rfl : store = collectStore heard q.ttlSecs := hc
      rw [hclock, mem_livePeers, collectStore_ttlSecs, ← recent_iff_lookup]
      refine ⟨fun hrec => ⟨?_, hrec⟩, fun ⟨_, hrec⟩ => hrec⟩
      obtain ⟨entry, hentry, _⟩ := (recent_iff_lookup n sid _ _ heard).mp hrec
      exact hl.store i _ rfl n sid entry hentry
    | _ => cases hend

/-- A query lists every remote peer within the TTL exactly if it is told of each of them once more
in its window: the announcements that reach the bus before its `Subscribe` do not count, in
whatever order they come with the query, and whether or not they are within the TTL. -/
theorem complete_iff_retold (cfg : Config) (fromStr : String → Option ClientMessage)
    (q : FleetQuery) (file : DurableState) (log : List BroadcastMsg) (now : Nat)
    (as : List FleetAction) (w w' : FleetNet) (a : FleetAction) (peers : List PeerRecord)
    (hr : run (FleetNet.step cfg fromStr q) (.start file log now) as = some w)
    (h : w.step cfg fromStr q a = some w') (hbefore : w.pc.listed = none)
    (hend : w'.pc.listed = some peers) :
    Complete cfg.node q.ttlSecs w'.net.daemon.clock
        (trace (FleetNet.step cfg fromStr q) (arrives cfg fromStr q) (.start file log now) as)
        peers ↔
      Retold cfg.node q.ttlSecs w'.net.daemon.clock
        (trace (FleetNet.step cfg fromStr q) (arrives cfg fromStr q) (.start file log now) as)
        (trace (FleetNet.step cfg fromStr q) (arrivesLate cfg fromStr q) (.start file log now) as)
        (trace (FleetNet.step cfg fromStr q) reads (.start file log now) as) := by
  have hlate : Late w ([] ++ trace (FleetNet.step cfg fromStr q) (arrivesLate cfg fromStr q)
      (.start file log now) as) :=
    run_trace_invariant (fun _ _ _ _ hw _ h => late_step hw h) (along_true _ as) hr
      (late_start file log now)
  have hstart : Collected q [] (FleetNet.start file log now).pc := rfl
  have hcol : Collected q ([] ++ trace (FleetNet.step cfg fromStr q) reads
      (.start file log now) as) w.pc :=
    run_trace_invariant (I := fun w heard => Collected q heard w.pc)
      (fun _ _ _ _ hc _ h => collected_step hc h) (along_true _ as) hr hstart
  have hiff := listed_iff hlate hcol h hbefore hend
  constructor
  · exact fun hc n sid hn hrec => (hiff n sid).mp (hc n sid hn hrec)
  · exact fun hc n sid hn hrec => (hiff n sid).mpr (hc n sid hn hrec)

def peersQuery : FleetQuery := ⟨"cli", fleetPeerTtlSecs, 7, "/"⟩

def presenceLine : String := "\x7b\"op\":\"subscribe\",\"prefix\":\"wm.fleet.presence\"\x7d"

def queryLines : String → Option ClientMessage :=
  decodeFrom [(clientLine "cli-fleet-sub" "fleet-peers-query", peersQuery.announce),
    (presenceLine, .subscribe "wm.fleet.presence")]

def remoteActions (now : Nat) : List FleetAction :=
  [.net (.serve (.tick now)), .net (.serve (.uplinkInbound fleetPresenceSubjectAnnounce
    (FleetPresenceEvent.toValue ⟨"s9", 9, "/", "testb", now⟩) "testb"))]

def subscribeActions : List FleetAction :=
  [.query .connect, .query .sendAnnounce,
    .net (.serve (.line 0 (clientLine "cli-fleet-sub" "fleet-peers-query") 6)),
    .net (.serve (.proceed 0 6 true)), .query .announceReply, .query .sendSubscribe,
    .net (.serve (.line 0 presenceLine 6)), .net (.serve (.proceed 0 6 true)),
    .query .subscribeReply]

def retoldActions : List FleetAction :=
  remoteActions 5 ++ subscribeActions ++ remoteActions 6 ++ [.net (.serve (.event 0)),
    .net (.serve (.proceed 0 6 true)), .query .nextEvent]

theorem complete_retold : ∃ w w' peers,
    run (FleetNet.step uplinkConfig queryLines peersQuery) (.start .default [] 0) retoldActions =
      some w ∧ w.step uplinkConfig queryLines peersQuery (.query .timeout) = some w' ∧
    w'.pc.listed = some peers ∧
    Complete uplinkConfig.node peersQuery.ttlSecs w'.net.daemon.clock
      (trace (FleetNet.step uplinkConfig queryLines peersQuery)
        (arrives uplinkConfig queryLines peersQuery) (.start .default [] 0) retoldActions) peers ∧
    ∃ r ∈ peers, r.node = some "testb" ∧ r.sessionId = "s9" := by
  obtain ⟨h, honly⟩ : (run (FleetNet.step uplinkConfig queryLines peersQuery)
        (.start .default [] 0) retoldActions).bind (fun w =>
          (w.step uplinkConfig queryLines peersQuery (.query .timeout)).bind (fun w' =>
            w'.pc.listed.map (fun peers => (w.pc.listed.isNone, w'.net.daemon.clock,
              decide (∃ r ∈ peers, r.node = some "testb" ∧ r.sessionId = "s9"))))) =
        some (true, 6, true) ∧
      ∀ e ∈ trace (FleetNet.step uplinkConfig queryLines peersQuery)
        (arrives uplinkConfig queryLines peersQuery) (.start .default [] 0) retoldActions,
        (FleetPresenceEvent.fromValue e.1.data).all
          (fun ev => ev.node = "testb" && ev.sessionId = "s9") = true := by decide +kernel
  obtain ⟨w, hw, h⟩ := Option.bind_eq_some_iff.mp h
  obtain ⟨w', hw', h⟩ := Option.bind_eq_some_iff.mp h
  obtain ⟨peers, hp, h⟩ := Option.map_eq_some_iff.mp h
  simp only [Prod.mk.injEq, Option.isNone_iff_eq_none, decide_eq_true_eq] at h
  obtain ⟨hbefore, hclock, hlisted⟩ := h
  refine ⟨w, w', peers, hw, hw', hp, ?_, hlisted⟩
  refine (complete_iff_retold uplinkConfig queryLines peersQuery .default [] 0 retoldActions w w'
    (.query .timeout) peers hw hw' hbefore hp).mpr (fun n sid _ hrec => ?_)
  -- nobody else has been announced
  obtain ⟨rfl, rfl⟩ : n = "testb" ∧ sid = "s9" := by
    obtain ⟨e, he, _⟩ := hrec
    have hann := List.find?_some he
    have hmem := honly e (List.mem_reverse.mp (List.mem_of_find?_eq_some he))
    simp only [announces, Bool.and_eq_true, Option.any_eq_true, decide_eq_true_eq] at hann
    obtain ⟨_, ev, hev, rfl, rfl⟩ := hann
    rw [hev] at hmem
    simpa using hmem
  rw [hclock]
  exact ⟨by decide +kernel, by decide +kernel⟩

/-- A query that is not told of it does not list a peer that was announced a second before. -/
theorem recent_peer_missing : uplinkConfig.uplinkEnabled = true ∧ ∃ w w' peers,
    run (FleetNet.step uplinkConfig queryLines peersQuery) (.start .default [] 0)
      (remoteActions 5 ++ subscribeActions) = some w ∧
    w.step uplinkConfig queryLines peersQuery (.query .timeout) = some w' ∧
    w'.pc.listed = some peers ∧
    ¬ Complete uplinkConfig.node fleetPeerTtlSecs w'.net.daemon.clock
      (trace (FleetNet.step uplinkConfig queryLines peersQuery)
        (arrives uplinkConfig queryLines peersQuery) (.start .default [] 0)
        (remoteActions 5 ++ subscribeActions)) peers := by
  obtain ⟨h, hrecent⟩ : (run (FleetNet.step uplinkConfig queryLines peersQuery)
        (.start .default [] 0) (remoteActions 5 ++ subscribeActions)).bind (fun w =>
          (w.step uplinkConfig queryLines peersQuery (.query .timeout)).bind (fun w' =>
            w'.pc.listed.map (fun peers => (w'.net.daemon.clock,
              decide (∃ r ∈ peers, r.node = some "testb" ∧ r.sessionId = "s9"))))) =
        some (6, false) ∧
      Recent "testb" "s9" fleetPeerTtlSecs 6
        (trace (FleetNet.step uplinkConfig queryLines peersQuery)
          (arrives uplinkConfig queryLines peersQuery) (.start .default [] 0)
          (remoteActions 5 ++ subscribeActions)) := by decide +kernel
  obtain ⟨w, hw, h⟩ := Option.bind_eq_some_iff.mp h
  obtain ⟨w', hw', h⟩ := Option.bind_eq_some_iff.mp h
  obtain ⟨peers, hp, h⟩ := Option.map_eq_some_iff.mp h
  simp only [Prod.mk.injEq, decide_eq_false_iff_not] at h
  refine ⟨rfl, w, w', peers, hw, hw', hp, fun hc => h.2 (hc "testb" "s9" (by decide) ?_)⟩
  rw [h.1]
  exact hrecent

end FleetQuery

end Agorabus
