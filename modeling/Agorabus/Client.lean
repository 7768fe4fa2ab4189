import Agorabus.Subscriber

namespace Agorabus

open Daemon StepSystem
open Subscriber (unwritten events notices events_append notices_append handleLine_stream Plain
  unwritten_plain)

/-- The daemon reads the line as the message. -/
def Encodes (fromStr : String → Option ClientMessage) (text : String) (m : ClientMessage) : Prop :=
  (trim text).isEmpty = false ∧ fromStr (trim text) = some m

instance (fromStr : String → Option ClientMessage) (text : String) (m : ClientMessage) :
    Decidable (Encodes fromStr text m) :=
  inferInstanceAs (Decidable (_ ∧ _))

/-- A client's end of its connection: the messages it has written and the handler has not taken,
and the lines the handler has written and it has not read. When the daemon is gone, so is the
connection, but not what can still be read. -/
structure Client where
  conn : Option Nat
  outgoing : List ClientMessage
  incoming : List OutLine

/-- A daemon and some of its clients. Its other connections may bring any line at any time. -/
structure Net where
  daemon : Daemon
  clients : List Client

inductive NetAction where
  | serve (a : Action)
  | connect
  | send (i : Nat) (m : ClientMessage)
  | read (i : Nat)

def NetAction.client : NetAction → Option Nat
  | .send i _ | .read i => some i
  | .serve _ | .connect => none

def Effect.line? : Effect → Option OutLine
  | .write l => some l
  | .writeNotice n => some (.notice n)
  | _ => none

def Effect.isCleanup : Effect → Bool
  | .cleanup => true
  | _ => false

def OutLine.reply? : OutLine → Option Reply
  | .reply r => some r
  | _ => none

def replies (ls : List OutLine) : List Reply :=
  ls.filterMap (fun l => match l with
    | .reply r => some r
    | _ => none)

def Conn.wire (k : Conn) : List OutLine := if k.status = .running then unwritten k.pending else []

namespace Daemon

def writes (s : Daemon) (c : Nat) : Action → List OutLine
  | .proceed d _ true =>
      if d = c then
        (do
          let k ← s.conns[c]?
          let e ← k.pending.head?
          e.line?).toList
      else []
  | _ => []

def nextEvent (cfg : Config) (s : Daemon) (c : Nat) : Option ServerEvent := do
  let k ← s.conns[c]?
  let rx ← k.bcastRx
  let m ← s.log[rx]?
  if s.log.length - rx ≤ cfg.broadcastCapacity.nextPowerOfTwo ∧
      topicMatches k.subscribedPrefixes m.topic then some m.toEvent else none

/-- The reply that a line is answered with. -/
def answer (cfg : Config) (fromStr : String → Option ClientMessage) (s : Daemon) :
    Action → Option Reply
  | .line c text now => do
      let k ← s.conns[c]?
      (replies (unwritten (handleLine cfg fromStr k c s.bus s.uplinkStatus s.log.length now
        text).conn.pending)).head?
  | _ => none

end Daemon

namespace Client

def fits (fromStr : String → Option ClientMessage) (l : Client) : Action → Bool
  | .line c text _ =>
      decide (l.conn ≠ some c) || l.outgoing.head?.any (fun m => decide (Encodes fromStr text m))
  | _ => true

def served (s : Daemon) (a : Action) (l : Client) : Client :=
  match l.conn with
  | none => l
  | some c =>
    match a with
    | .boot _ => { l with conn := none }
    | .line d _ _ => if d = c then { l with outgoing := l.outgoing.tail } else l
    | _ => { l with incoming := l.incoming ++ s.writes c a }

def alive (s : Daemon) (l : Client) : Bool :=
  (l.conn.bind (fun c => s.conns[c]?)).any (fun k => decide (k.status = .running))

/-- The lines on their way to the client. -/
def flight (s : Daemon) (l : Client) : List OutLine :=
  l.incoming ++ (l.conn.bind (fun c => s.conns[c]?)).elim [] Conn.wire

def Gone (s : Daemon) (l : Client) : Prop :=
  l.conn = none ∨ ∃ c k, l.conn = some c ∧ s.conns[c]? = some k ∧
    (k.status ≠ .running ∨ .cleanup ∈ k.pending)

instance (es : List Effect) : Decidable (.cleanup ∈ es) :=
  decidable_of_iff (es.any Effect.isCleanup = true) <| by
    rw [List.any_eq_true]
    constructor
    · rintro ⟨e, he, hc⟩
      cases e with
      | cleanup => exact he
      | _ => cases hc
    · exact fun h => ⟨.cleanup, h, rfl⟩

instance (s : Daemon) (l : Client) : Decidable (l.Gone s) :=
  decidable_of_iff (l.conn = none ∨ ∃ c ∈ l.conn, ∃ k ∈ s.conns[c]?,
      k.status ≠ .running ∨ Effect.cleanup ∈ k.pending) <| by
    refine or_congr_right ⟨?_, ?_⟩
    · rintro ⟨c, hc, k, hk, hg⟩
      exact ⟨c, k, hc, hk, hg⟩
    · rintro ⟨c, k, hc, hk, hg⟩
      exact ⟨c, hc, k, hk, hg⟩

def Introduced (s : Daemon) (sid : String) (l : Client) : Prop :=
  ∀ c k, l.conn = some c → s.conns[c]? = some k → k.sessionId = some sid ∨
    (k.sessionId = none ∧ ∃ pid cwd intent node ms,
      l.outgoing = .announce sid pid cwd intent node :: ms)

def Silent (s : Daemon) (l : Client) : Prop :=
  ∀ c k, l.conn = some c → s.conns[c]? = some k → k.sessionId = none ∧ l.outgoing = []

end Client

namespace Net

def setClient (n : Net) (i : Nat) (l : Client) : Net := { n with clients := n.clients.set i l }

def step (cfg : Config) (fromStr : String → Option ClientMessage) (n : Net) :
    NetAction → Option Net
  | .serve a =>
      if n.clients.all (fun l => l.fits fromStr a) then
        (n.daemon.step cfg fromStr a).map (fun t =>
          ⟨t, n.clients.map (fun l => l.served n.daemon a)⟩)
      else none
  | .connect =>
      (n.daemon.step cfg fromStr .connect).map (fun t =>
        ⟨t, n.clients ++ [⟨some n.daemon.conns.length, [], []⟩]⟩)
  | .send i m => do
      let l ← n.clients[i]?
      if l.alive n.daemon then some (n.setClient i { l with outgoing := l.outgoing ++ [m] })
      else none
  | .read i => do
      let l ← n.clients[i]?
      if l.incoming.isEmpty then none
      else some (n.setClient i { l with incoming := l.incoming.tail })

def start (file : DurableState) (log : List BroadcastMsg) (now : Nat) : Net :=
  ⟨.start file log now, []⟩

/-- The client reads its next line as a reply; the second part is the result of the request. There
is nothing to read yet if it gets neither a line nor the end of the stream. -/
def readReply (n : Net) (i : Nat) : Option (Option NetAction × Option Reply) := do
  let l ← n.clients[i]?
  match l.incoming with
  | x :: _ => some (some (.read i), x.reply?)
  | [] => if l.alive n.daemon then none else some (none, none)

/-- The write that a client tries; nothing is written to a socket without a task. -/
def trySend (n : Net) (i : Nat) (m : ClientMessage) : Option NetAction := do
  let l ← n.clients[i]?
  if l.alive n.daemon then some (.send i m) else none

def reading {α : Type} (n : Net) (i : Nat) (next : Option Reply → α) :
    Option (Option NetAction × α) :=
  (n.readReply i).map (fun (b, r) => (b, next r))

def sending {α : Type} (n : Net) (i : Nat) (m : ClientMessage) (sent failed : α) :
    Option NetAction × α :=
  match n.trySend i m with
  | some b => (some b, sent)
  | none => (none, failed)

end Net

theorem replies_append (ls ms : List OutLine) : replies (ls ++ ms) = replies ls ++ replies ms :=
  List.filterMap_append

theorem unwritten_cons (e : Effect) (es : List Effect) :
    unwritten (e :: es) = e.line?.toList ++ unwritten es := by
  cases e <;> rfl

theorem no_replies_of_initial {ls ms : List OutLine} (h : ls <+: ms) (hm : replies ms = []) :
    replies ls = [] := by
  have hp : replies ls <+: replies ms := h.filterMap _
  rw [hm] at hp
  exact List.prefix_nil.mp hp

theorem no_events_of_initial {ls ms : List OutLine} (h : ls <+: ms) (hm : events ms = []) :
    events ls = [] := by
  have hp : events ls <+: events ms := h.filterMap _
  rw [hm] at hp
  exact List.prefix_nil.mp hp

theorem mem_replies_of_initial {ls ms ns : List OutLine} {r : Reply} (h : ls <+: ms ++ ns)
    (hns : replies ns = []) (hr : r ∈ replies ls) : r ∈ replies ms := by
  have hp : replies ls <+: replies (ms ++ ns) := h.filterMap _
  rw [replies_append, hns, List.append_nil] at hp
  exact hp.subset hr

theorem mem_events_of_initial {ls ms ns : List OutLine} {e : ServerEvent} (h : ls <+: ms ++ ns)
    (hns : events ns = []) (he : e ∈ events ls) : e ∈ events ms := by
  have hp : events ls <+: events (ms ++ ns) := h.filterMap _
  rw [events_append, hns, List.append_nil] at hp
  exact hp.subset he

theorem eq_nil_of_no_line {ls : List OutLine} (hr : replies ls = []) (he : events ls = [])
    (hn : notices ls = []) : ls = [] := by
  cases ls with
  | nil => rfl
  | cons x xs => cases x <;> simp [replies, events, notices] at hr he hn

theorem tail_nil {x : OutLine} {xs : List OutLine} (hr : replies (x :: xs) = []) :
    replies xs = [] :=
  (List.append_eq_nil_iff.mp ((replies_append [x] xs).symm.trans hr)).2

theorem notices_tail_nil {x : OutLine} {xs : List OutLine} (hr : notices (x :: xs) = []) :
    notices xs = [] :=
  (List.append_eq_nil_iff.mp ((notices_append [x] xs).symm.trans hr)).2

section line

variable (cfg : Config) (fromStr : String → Option ClientMessage) (k : Conn) (c : Nat)
  (bus : BusState) (uplink : UplinkStatus) (sent now : Nat)

def Answers (es : List Effect) : Prop :=
  (∃ r, unwritten es = [.reply r]) ∧ .cleanup ∉ es ∧ ∀ n, .writeNotice n ∉ es

theorem answers_single (r : Reply) : Answers [.write (.reply r)] := by
  refine ⟨⟨r, rfl⟩, by simp, by simp⟩

theorem handleMessage_answers (sid : String) (msg : ClientMessage) :
    Answers (handleMessage cfg k sid bus uplink sent now msg).conn.pending := by
  cases msg with
  | heartbeat tool skill prdSlug paths =>
    simp only [handleMessage]
    split
    · exact answers_single _
    · split
      · exact ⟨⟨_, rfl⟩, by simp, by simp⟩
      · exact answers_single _
  | claimAcquire path ttl reason force =>
    rw [handleMessage_claimAcquire]
    split
    · exact answers_single _
    · exact ⟨⟨_, rfl⟩, by simp, by simp⟩
  | claimRelease path =>
    simp only [handleMessage]
    split
    · exact ⟨⟨_, rfl⟩, by simp, by simp⟩
    · exact answers_single _
  | publish topic data => exact ⟨⟨_, rfl⟩, by simp [handleMessage], by simp [handleMessage]⟩
  | _ => exact answers_single _

theorem handleLine_answers {line : String} (ht : (trim line).isEmpty = false) :
    Answers (handleLine cfg fromStr k c bus uplink sent now line).conn.pending := by
  simp only [handleLine, ht, Bool.false_eq_true, ↓reduceIte]
  cases fromStr (trim line) with
  | none => exact ⟨⟨_, rfl⟩, by simp, by simp⟩
  | some msg =>
    cases k.sessionId with
    | some sid => exact handleMessage_answers ..
    | none =>
      cases msg with
      | announce sid pid cwd intent node => exact answers_single _
      | _ => exact ⟨⟨_, rfl⟩, by simp [handleFirst], by simp [handleFirst]⟩

end line

variable {cfg : Config} {fromStr : String → Option ClientMessage} {s t : Daemon} {a : Action}

def NoticeLast (k : Conn) : Prop :=
  ∀ n, .writeNotice n ∈ k.pending → k.pending = [.writeNotice n, .cleanup]

theorem noticeLast_step {c : Nat} {k k' : Conn} (hn : NoticeLast k)
    (h : ConnStep cfg fromStr s c k a k') : NoticeLast k' := by
  cases h with
  | other ha => exact hn
  | @line text now hi =>
    intro n hm
    rw [Conn.idle_iff] at hi
    have hplain := (handleLine_stream cfg fromStr k c s.bus s.uplinkStatus s.log.length now hi.2
      text).1
    exact absurd rfl ((hplain _ hm).2.2 n)
  | hangup hi =>
    intro n hm
    simp at hm
  | lag hi => exact hn
  | event hi hrx hup hm =>
    intro n hmem
    dsimp only at hmem
    split at hmem <;> simp at hmem
  | drain hi =>
    intro n hm
    dsimp only at hm ⊢
    cases hrx : k.bcastRx with
    | none => simp [hrx] at hm
    | some rx =>
      simp only [hrx, Option.map_some, Option.toList_some, List.cons_append, List.nil_append,
        List.mem_cons, Effect.writeNotice.injEq, reduceCtorEq, List.not_mem_nil, or_false] at hm ⊢
      rw [hm]
  | @proceed e es now ok hp hr =>
    have kept : ∀ n, .writeNotice n ∈ es → es = [.writeNotice n, .cleanup] := by
      intro n hm
      have he := hn n (by rw [hp]; exact List.mem_cons_of_mem _ hm)
      rw [hp, List.cons.injEq] at he
      rw [he.2] at hm
      simp at hm
    cases e with
    | write l =>
      cases ok with
      | true => exact kept
      | false => intro n hm; cases hm
    | writeNotice n => cases ok <;> exact kept
    | bail => intro n hm; cases hm
    | _ => exact kept
  | abort hr hw => intro n hm; cases hm

namespace Client

variable {l : Client} {c : Nat} {k : Conn}

theorem flight_of (hc : l.conn = some c) (hk : s.conns[c]? = some k) :
    l.flight s = l.incoming ++ k.wire := by
  simp [flight, hc, hk]

theorem gone_of (hc : l.conn = some c) (hk : s.conns[c]? = some k) :
    l.Gone s ↔ k.status ≠ .running ∨ .cleanup ∈ k.pending := by
  constructor
  · rintro (hn | ⟨c', k', hc', hk', hg⟩)
    · rw [hc] at hn
      cases hn
    · obtain rfl : c = c' := Option.some.inj (hc.symm.trans hc')
      obtain rfl : k = k' := Option.some.inj (hk.symm.trans hk')
      exact hg
  · exact fun hg => Or.inr ⟨c, k, hc, hk, hg⟩

theorem not_gone_of_idle (hc : l.conn = some c) (hk : s.conns[c]? = some k) (hi : k.idle) :
    ¬ l.Gone s := by
  rw [Conn.idle_iff] at hi
  rw [gone_of hc hk, hi.1, hi.2]
  simp

theorem fits_line {text : String} {now : Nat} (h : l.fits fromStr (.line c text now) = true)
    (hc : l.conn = some c) : ∃ m ms, l.outgoing = m :: ms ∧ Encodes fromStr text m := by
  simp only [fits, hc, ne_eq, not_true_eq_false, decide_false, Bool.false_or] at h
  cases ho : l.outgoing with
  | nil => simp [ho] at h
  | cons m ms => exact ⟨m, ms, rfl, by simpa [ho] using h⟩

theorem writes_other (ha : a.conn ≠ some c) : s.writes c a = [] := by
  cases a with
  | proceed d now ok =>
    cases ok with
    | true => exact if_neg (fun he => ha (congrArg some he))
    | false => rfl
  | _ => rfl

theorem served_other (hc : l.conn = some c) (hb : ∀ now, a ≠ .boot now)
    (ha : a.conn ≠ some c) : l.served s a = l := by
  have hw : s.writes c a = [] := writes_other ha
  have hl : { l with incoming := l.incoming ++ s.writes c a } = l := by rw [hw, List.append_nil]
  cases a with
  | line d text now =>
    simp only [served, hc]
    exact if_neg (fun he => ha (congrArg some he))
  | boot now => exact absurd rfl (hb now)
  | _ => simpa only [served, hc] using hl

theorem served_connected (hc : l.conn = some c) (hb : ∀ now, a ≠ .boot now) :
    (l.served s a).conn = some c := by
  cases a with
  | line d text now =>
    simp only [served, hc]
    split <;> simp [hc]
  | boot now => exact absurd rfl (hb now)
  | _ => simp [served, hc]

/-- What a step of the daemon does to the lines on their way from and to a client: nothing new,
one message taken and answered, one event more, or the last there will be. -/
inductive Carries (cfg : Config) (fromStr : String → Option ClientMessage) (s t : Daemon)
    (a : Action) (l l' : Client) : Prop
  | same (ho : l'.outgoing = l.outgoing) (hf : l'.flight t = l.flight s)
      (hg : l.Gone s → l'.Gone t)
  | took {c now : Nat} {text : String} {m : ClientMessage} {r : Reply} (ha : a = .line c text now)
      (hc : l.conn = some c) (hm : Encodes fromStr text m) (ho : l.outgoing = m :: l'.outgoing)
      (hr : s.answer cfg fromStr a = some r) (hf : l'.flight t = l.flight s ++ [.reply r])
      (hg : ¬ l.Gone s)
  | event {c : Nat} {e : ServerEvent} (ha : a = .event c) (hc : l.conn = some c)
      (he : s.nextEvent cfg c = some e) (ho : l'.outgoing = l.outgoing)
      (hf : l'.flight t = l.flight s ++ [.event e]) (hg : ¬ l.Gone s)
  | leaves (ho : l'.outgoing = l.outgoing) (hg : l'.Gone t)
      (hf : ∃ ns, replies ns = [] ∧ events ns = [] ∧ l'.flight t <+: l.flight s ++ ns)

theorem wire_of_idle (hi : k.idle) : k.wire = [] := by
  rw [Conn.idle_iff] at hi
  rw [Conn.wire, if_pos hi.1, hi.2]
  rfl

theorem wire_of_running (hr : k.status = .running) : k.wire = unwritten k.pending := if_pos hr

theorem wire_of_ended (hr : k.status ≠ .running) : k.wire = [] := if_neg hr

theorem carries_leaves {l' : Client} {k' : Conn} (ns : List OutLine) (hc : l.conn = some c)
    (hk : s.conns[c]? = some k) (hc' : l'.conn = some c) (hk' : t.conns[c]? = some k')
    (ho : l'.outgoing = l.outgoing) (hi : l'.incoming = l.incoming)
    (hg : k'.status ≠ .running ∨ .cleanup ∈ k'.pending)
    (hr : replies ns = []) (he : events ns = []) (hw : k'.wire <+: k.wire ++ ns) :
    Carries cfg fromStr s t a l l' := by
  refine .leaves ho ((gone_of hc' hk').mpr hg) ⟨ns, hr, he, ?_⟩
  rw [flight_of hc hk, flight_of hc' hk', hi, List.append_assoc, List.prefix_append_right_inj]
  exact hw

theorem carries_proceed {e : Effect} {es : List Effect} {now : Nat} {ok : Bool}
    (hc : l.conn = some c) (hk : s.conns[c]? = some k) (hn : NoticeLast k)
    (hk' : t.conns[c]? = some (Conn.performed { k with pending := es } ok e))
    (hp : k.pending = e :: es) (hr : k.status = .running) :
    Carries cfg fromStr s t (.proceed c now ok) l (l.served s (.proceed c now ok)) := by
  have hc' : (l.served s (.proceed c now ok)).conn = some c := by simp [served, hc]
  have ho : (l.served s (.proceed c now ok)).outgoing = l.outgoing := by simp [served, hc]
  have hi : (l.served s (.proceed c now ok)).incoming =
      l.incoming ++ if ok then e.line?.toList else [] := by
    cases ok <;> simp [served, hc, writes, hk, hp]
  have hw : k.wire = e.line?.toList ++ unwritten es := by
    rw [wire_of_running hr, hp, unwritten_cons]
  -- the line, if there is one, is written, and the rest stays
  have kept (he : e ≠ .cleanup) {k' : Conn} (hk' : t.conns[c]? = some k')
      (hs : k'.status = .running) (hes : k'.pending = es) (hok : ok = true ∨ e.line? = none) :
      Carries cfg fromStr s t (.proceed c now ok) l (l.served s (.proceed c now ok)) := by
    refine .same ho ?_ ?_
    · rw [flight_of hc hk, flight_of hc' hk', hi, hw, wire_of_running hs, hes, List.append_assoc]
      obtain rfl | hok := hok
      · rfl
      · simp [hok]
    · rw [gone_of hc hk, gone_of hc' hk', hs, hes, hr, hp]
      simp [Ne.symm he]
  -- the task ends, and what it has not written is lost
  have ended {k' : Conn} (hk' : t.conns[c]? = some k') (hs : k'.status ≠ .running)
      (hok : ok = false ∨ e.line? = none) :
      Carries cfg fromStr s t (.proceed c now ok) l (l.served s (.proceed c now ok)) := by
    refine carries_leaves [] hc hk hc' hk' ho ?_ (Or.inl hs) rfl rfl ?_
    · rw [hi]
      obtain rfl | hok := hok
      · simp
      · simp [hok]
    · rw [wire_of_ended hs]
      exact List.nil_prefix
  cases e with
  | write x =>
    cases ok with
    | true => exact kept (fun h => by cases h) hk' hr rfl (Or.inl rfl)
    | false => exact ended hk' (fun h => by cases h) (Or.inl rfl)
  | writeNotice n =>
    cases ok with
    | true => exact kept (fun h => by cases h) hk' hr rfl (Or.inl rfl)
    | false =>
      have hes : es = [.cleanup] := by
        have he := hn n (by rw [hp]; exact List.mem_cons_self)
        rw [hp] at he
        exact (List.cons.inj he).2
      refine carries_leaves [] hc hk hc' hk' ho ?_ (Or.inr ?_) rfl rfl ?_
      · simp [hi]
      · simp [Conn.performed, hes]
      · have hw' : (Conn.performed { k with pending := es } false (.writeNotice n)).wire = [] := by
          rw [hes]
          exact if_pos hr
        rw [hw']
        exact List.nil_prefix
  | bail => exact ended hk' (fun h => by cases h) (Or.inr rfl)
  | cleanup => exact ended hk' (fun h => by cases h) (Or.inr rfl)
  | _ => exact kept (fun h => by cases h) hk' hr rfl (Or.inr rfl)

theorem carries_line {text : String} {now : Nat} {k' : Conn} (hc : l.conn = some c)
    (hk : s.conns[c]? = some k) (hk' : t.conns[c]? = some k') (hi : k.idle)
    (hfit : l.fits fromStr (.line c text now) = true)
    (he : k' = (handleLine cfg fromStr k c s.bus s.uplinkStatus s.log.length now text).conn) :
    Carries cfg fromStr s t (.line c text now) l (l.served s (.line c text now)) := by
  obtain ⟨m, ms, ho, hm⟩ := fits_line hfit hc
  obtain ⟨⟨r, hr⟩, _, _⟩ := handleLine_answers cfg fromStr k c s.bus s.uplinkStatus s.log.length
    now hm.1
  have hst := (handleLine_conn cfg fromStr k c s.bus s.uplinkStatus s.log.length now text).1
  have hrun : k'.status = .running := by
    rw [he, hst]
    exact (Conn.idle_iff.mp hi).1
  refine .took rfl hc hm (r := r) ?_ ?_ ?_ (not_gone_of_idle hc hk hi)
  · simp [served, hc, ho]
  · simp [Daemon.answer, hk, hr, replies]
  · have hc' : (l.served s (.line c text now)).conn = some c := by simp [served, hc]
    rw [flight_of hc hk, flight_of hc' hk', wire_of_idle hi, wire_of_running hrun, he, hr]
    simp [served, hc]

theorem carries (hn : ∀ (c : Nat) (k : Conn), s.conns[c]? = some k → NoticeLast k)
    (hatt : ∀ c, l.conn = some c → ∃ k, s.conns[c]? = some k)
    (hfit : l.fits fromStr a = true) (h : Daemon.step cfg fromStr s a = some t) :
    Carries cfg fromStr s t a l (l.served s a) := by
  cases hc : l.conn with
  | none =>
    have hl : l.served s a = l := by simp [served, hc]
    rw [hl]
    exact .same rfl (by simp [flight, hc]) (fun _ => Or.inl hc)
  | some c =>
    obtain ⟨k, hk⟩ := hatt c hc
    by_cases hb : ∃ now, a = .boot now
    · obtain ⟨now, rfl⟩ := hb
      refine .leaves (by simp [served, hc]) (Or.inl (by simp [served, hc])) ⟨[], rfl, rfl, ?_⟩
      rw [flight_of hc hk]
      simp [served, hc, flight]
    have hb' : ∀ now, a ≠ .boot now := fun now he => hb ⟨now, he⟩
    obtain ⟨k', hk', hstep⟩ := step_conn h hb' hk
    have hsame (hw : s.writes c a = []) (hline : ∀ d text now, a ≠ .line d text now) :
        l.served s a = l := by
      have hl : { l with incoming := l.incoming ++ s.writes c a } = l := by
        rw [hw, List.append_nil]
      cases a with
      | line d text now => exact absurd rfl (hline d text now)
      | boot now => exact absurd rfl (hb' now)
      | _ => simpa only [served, hc] using hl
    cases hstep with
    | other ha =>
      rw [served_other hc hb' ha]
      refine .same rfl ?_ ?_
      · rw [flight_of hc hk, flight_of hc hk']
      · rw [gone_of hc hk, gone_of hc hk']
        exact id
    | line hi => exact carries_line hc hk hk' hi hfit rfl
    | hangup hi =>
      rw [hsame rfl nofun]
      refine carries_leaves [] hc hk hc hk' rfl rfl (Or.inr (by simp)) rfl rfl ?_
      have hw : ({ k with pending := [.cleanup] } : Conn).wire = [] :=
        if_pos (Conn.idle_iff.mp hi).1
      rw [hw]
      exact List.nil_prefix
    | @lag rx hi hrx hlag =>
      rw [hsame rfl nofun]
      refine .same rfl ?_ ?_
      · rw [flight_of hc hk, flight_of hc hk', wire_of_idle hi]
        exact congrArg (l.incoming ++ ·) (wire_of_idle hi)
      · rw [gone_of hc hk, gone_of hc hk']
        exact id
    | @event rx m hi hrx hup hm =>
      rw [hsame rfl nofun]
      have hrun : k.status = .running := (Conn.idle_iff.mp hi).1
      cases hmatch : topicMatches k.subscribedPrefixes m.topic with
      | true =>
        rw [hmatch] at hk'
        refine .event rfl hc (e := m.toEvent) ?_ rfl ?_ (not_gone_of_idle hc hk hi)
        · simp only [nextEvent, hk, hrx, hm, hup, hmatch, Option.bind_eq_bind, Option.bind_some,
            and_self, ↓reduceIte]
        · rw [flight_of hc hk, flight_of hc hk', wire_of_idle hi, List.append_nil]
          exact congrArg (l.incoming ++ ·) (if_pos hrun)
      | false =>
        rw [hmatch] at hk'
        refine .same rfl ?_ ?_
        · rw [flight_of hc hk, flight_of hc hk', wire_of_idle hi]
          exact congrArg (l.incoming ++ ·) (if_pos hrun)
        · exact fun hg => absurd hg (not_gone_of_idle hc hk hi)
    | drain hi =>
      rw [hsame rfl nofun]
      have hrun : k.status = .running := (Conn.idle_iff.mp hi).1
      refine carries_leaves ((k.bcastRx.map (fun _ =>
        OutLine.notice (.new cfg.drainResumeHintMs))).toList) hc hk hc hk' rfl rfl
        (Or.inr (by simp)) ?_ ?_ ?_
      · cases k.bcastRx <;> rfl
      · cases k.bcastRx <;> rfl
      · have hw : ({ k with pending := (k.bcastRx.map (fun _ =>
            Effect.writeNotice (.new cfg.drainResumeHintMs))).toList ++ [.cleanup] } : Conn).wire =
            (k.bcastRx.map (fun _ => OutLine.notice (.new cfg.drainResumeHintMs))).toList := by
          refine (if_pos hrun).trans ?_
          cases k.bcastRx <;> rfl
        rw [wire_of_idle hi, List.nil_append, hw]
    | @proceed e es now ok hp hr => exact carries_proceed hc hk (hn c k hk) hk' hp hr
    | abort hr hw =>
      rw [hsame rfl nofun]
      refine carries_leaves [] hc hk hc hk' rfl rfl (Or.inl nofun) rfl rfl ?_
      have hw' : ({ k with status := .aborted, pending := [] } : Conn).wire = [] := rfl
      rw [hw']
      exact List.nil_prefix

theorem flight_read {x : OutLine} {xs : List OutLine} (hx : l.incoming = x :: xs) :
    l.flight s = x :: Client.flight s { l with incoming := xs } := by
  rw [flight, hx]
  rfl

theorem served_conn (hc : l.conn = some c) (hk : s.conns[c]? = some k)
    (hfit : l.fits fromStr a = true) (h : Daemon.step cfg fromStr s a = some t) :
    ((l.served s a).conn = none ∧ (l.served s a).outgoing = l.outgoing) ∨
      ∃ k', (l.served s a).conn = some c ∧ t.conns[c]? = some k' ∧
        (((l.served s a).outgoing = l.outgoing ∧ k'.sessionId = k.sessionId) ∨
          ∃ text now m, a = .line c text now ∧ Encodes fromStr text m ∧
            l.outgoing = m :: (l.served s a).outgoing ∧
            k' = (handleLine cfg fromStr k c s.bus s.uplinkStatus s.log.length now text).conn) := by
  by_cases hb : ∃ now, a = .boot now
  · obtain ⟨now, rfl⟩ := hb
    exact Or.inl ⟨by simp [served, hc], by simp [served, hc]⟩
  have hb' : ∀ now, a ≠ .boot now := fun now he => hb ⟨now, he⟩
  obtain ⟨k', hk', hstep⟩ := step_conn h hb' hk
  refine Or.inr ⟨k', served_connected hc hb', hk', ?_⟩
  cases hstep with
  | other ha =>
    rw [served_other hc hb' ha]
    exact Or.inl ⟨rfl, rfl⟩
  | @line text now hi =>
    obtain ⟨m, ms, ho, hm⟩ := fits_line hfit hc
    exact Or.inr ⟨text, now, m, rfl, hm, by simp [served, hc, ho], rfl⟩
  | @proceed e es now ok hp hr =>
    refine Or.inl ⟨by simp [served, hc], ?_⟩
    cases e <;> cases ok <;> rfl
  | _ => exact Or.inl ⟨by simp [served, hc], rfl⟩

theorem handleLine_session {text : String} {now : Nat} {sid cwd intent : String} {pid : Nat}
    {node : Option String} (hk : k.sessionId = none)
    (hm : Encodes fromStr text (.announce sid pid cwd intent node)) :
    (handleLine cfg fromStr k c s.bus s.uplinkStatus s.log.length now text).conn.sessionId =
      some sid := by
  simp [handleLine, hm.1, hm.2, hk, handleFirst, Agorabus.answer]

theorem introduced_served {sid : String} (hi : l.Introduced s sid)
    (hatt : ∀ c, l.conn = some c → ∃ k, s.conns[c]? = some k) (hfit : l.fits fromStr a = true)
    (h : Daemon.step cfg fromStr s a = some t) : (l.served s a).Introduced t sid := by
  intro c k' hc' hk'
  cases hc : l.conn with
  | none => simp [served, hc] at hc'
  | some d =>
    obtain ⟨k, hk⟩ := hatt d hc
    obtain ⟨hn, _⟩ | ⟨k₁, hd, hk₁, hs⟩ := served_conn hc hk hfit h
    · rw [hn] at hc'
      cases hc'
    obtain rfl : d = c := Option.some.inj (hd.symm.trans hc')
    obtain rfl : k₁ = k' := Option.some.inj (hk₁.symm.trans hk')
    obtain ⟨ho, hsid⟩ | ⟨text, now, m, _, hm, ho, rfl⟩ := hs
    · rw [ho, hsid]
      exact hi d k hc hk
    · obtain hsid | ⟨hsid, pid, cwd, intent, node, ms, hms⟩ := hi d k hc hk
      · exact Or.inl ((handleLine_conn cfg fromStr k d s.bus s.uplinkStatus s.log.length now
          text).2.2 sid hsid)
      · obtain rfl : m = _ := (List.cons.inj (ho.symm.trans hms)).1
        exact Or.inl (handleLine_session hsid hm)

theorem silent_served (hi : l.Silent s)
    (hatt : ∀ c, l.conn = some c → ∃ k, s.conns[c]? = some k) (hfit : l.fits fromStr a = true)
    (h : Daemon.step cfg fromStr s a = some t) : (l.served s a).Silent t := by
  intro c k' hc' hk'
  cases hc : l.conn with
  | none => simp [served, hc] at hc'
  | some d =>
    obtain ⟨k, hk⟩ := hatt d hc
    obtain ⟨hsid, hout⟩ := hi d k hc hk
    obtain ⟨hn, _⟩ | ⟨k₁, hd, hk₁, hs⟩ := served_conn hc hk hfit h
    · rw [hn] at hc'
      cases hc'
    obtain rfl : d = c := Option.some.inj (hd.symm.trans hc')
    obtain rfl : k₁ = k' := Option.some.inj (hk₁.symm.trans hk')
    obtain ⟨ho, hs⟩ | ⟨text, now, m, _, _, ho, _⟩ := hs
    · rw [ho, hs]
      exact ⟨hsid, hout⟩
    · rw [hout] at ho
      cases ho

theorem Introduced.send {sid : String} (hi : l.Introduced s sid) (m : ClientMessage) :
    Client.Introduced s sid { l with outgoing := l.outgoing ++ [m] } := by
  intro c k hc hk
  obtain hs | ⟨hs, pid, cwd, intent, node, ms, ho⟩ := hi c k hc hk
  · exact Or.inl hs
  · exact Or.inr ⟨hs, pid, cwd, intent, node, ms ++ [m], by simp [ho]⟩

theorem Silent.introduce (hi : l.Silent s) (sid : String) (pid : Nat) (cwd intent : String)
    (node : Option String) : Client.Introduced s sid
      { l with outgoing := l.outgoing ++ [.announce sid pid cwd intent node] } := by
  intro c k hc hk
  obtain ⟨hs, ho⟩ := hi c k hc hk
  exact Or.inr ⟨hs, pid, cwd, intent, node, [], by simp [ho]⟩

theorem Introduced.transaction {sid text : String} {now : Nat} {tr : Transaction}
    (hi : l.Introduced s sid) (hc : l.conn = some c)
    (hfit : l.fits fromStr (.line c text now) = true)
    (h : s.transaction cfg fromStr (.line c text now) = some tr) :
    ∃ m ms, l.outgoing = m :: ms ∧ (m.transaction cfg sid = some tr ∨
      ∃ sid pid cwd intent node, tr = .announce c sid pid cwd intent node) := by
  obtain ⟨m, ms, ho, hm⟩ := fits_line hfit hc
  refine ⟨m, ms, ho, ?_⟩
  cases transaction_section h with
  | first hk hs ht hm => exact Or.inr ⟨_, _, _, _, _, rfl⟩
  | @message _ _ _ k₀ sid' msg _ hk hs ht hmsg htr =>
    obtain hsid | ⟨hsid, _⟩ := hi c k₀ hc hk
    · obtain rfl : msg = m := Option.some.inj (hmsg.symm.trans hm.2)
      obtain rfl : sid' = sid := Option.some.inj (hs.symm.trans hsid)
      exact Or.inl htr
    · rw [hs] at hsid
      cases hsid

theorem Introduced.takes {sid text : String} {now : Nat} {m : ClientMessage}
    {ms : List ClientMessage} (hi : l.Introduced s sid) (hc : l.conn = some c)
    (hk : s.conns[c]? = some k) (hfit : l.fits fromStr (.line c text now) = true)
    (ho : l.outgoing = m :: ms)
    (hm : ∀ sid pid cwd intent node, m ≠ .announce sid pid cwd intent node) :
    s.transaction cfg fromStr (.line c text now) = m.transaction cfg sid := by
  obtain ⟨m', ms', ho', ht, hm'⟩ := fits_line hfit hc
  obtain rfl : m = m' := (List.cons.inj (ho.symm.trans ho')).1
  obtain hs | ⟨_, pid, cwd, intent, node, ms'', ho''⟩ := hi c k hc hk
  · simp [Daemon.transaction, request, hk, ht, hm', hs]
  · exact absurd (List.cons.inj (ho.symm.trans ho'')).1 (hm _ _ _ _ _)

theorem gone_of_not_alive (hl : l.alive s = false)
    (hatt : ∀ c, l.conn = some c → ∃ k, s.conns[c]? = some k) :
    l.Gone s ∧ l.flight s = l.incoming := by
  cases hc : l.conn with
  | none => exact ⟨Or.inl hc, by simp [flight, hc]⟩
  | some c =>
    obtain ⟨k, hk⟩ := hatt c hc
    have hr : k.status ≠ .running := by simpa [alive, hc, hk] using hl
    exact ⟨Or.inr ⟨c, k, hc, hk, Or.inl hr⟩, by
      rw [flight_of hc hk, wire_of_ended hr, List.append_nil]⟩

end Client

def NetAction.daemon? : NetAction → Option Action
  | .serve a => some a
  | .connect => some .connect
  | .send .. | .read _ => none

namespace Net

variable {n n' : Net} {i : Nat} {l : Client}

theorem step_serve : step cfg fromStr n (.serve a) = some n' ↔
    (∀ l ∈ n.clients, l.fits fromStr a = true) ∧ ∃ t, n.daemon.step cfg fromStr a = some t ∧
      ⟨t, n.clients.map (fun l => l.served n.daemon a)⟩ = n' := by
  simp [step]

theorem step_connect : step cfg fromStr n .connect = some n' ↔
    ∃ t, n.daemon.step cfg fromStr .connect = some t ∧
      ⟨t, n.clients ++ [⟨some n.daemon.conns.length, [], []⟩]⟩ = n' := by
  simp [step]

theorem step_send {m : ClientMessage} : step cfg fromStr n (.send i m) = some n' ↔
    ∃ l, n.clients[i]? = some l ∧ l.alive n.daemon = true ∧
      n.setClient i { l with outgoing := l.outgoing ++ [m] } = n' := by
  simp [step, Option.bind_eq_some_iff]

theorem step_read : step cfg fromStr n (.read i) = some n' ↔
    ∃ l x xs, n.clients[i]? = some l ∧ l.incoming = x :: xs ∧
      n.setClient i { l with incoming := xs } = n' := by
  simp only [step, Option.bind_eq_bind, Option.bind_eq_some_iff]
  constructor
  · rintro ⟨l, hl, h⟩
    cases hi : l.incoming with
    | nil => simp [hi] at h
    | cons x xs =>
      simp only [hi, List.isEmpty_cons, Bool.false_eq_true, ↓reduceIte, List.tail_cons,
        Option.some.injEq] at h
      exact ⟨l, x, xs, hl, hi, h⟩
  · rintro ⟨l, x, xs, hl, hi, h⟩
    refine ⟨l, hl, ?_⟩
    simp only [hi, List.isEmpty_cons, Bool.false_eq_true, ↓reduceIte, List.tail_cons]
    exact congrArg some h

theorem step_daemon {a : NetAction} (h : step cfg fromStr n a = some n') :
    (∃ b, a.daemon? = some b ∧ n.daemon.step cfg fromStr b = some n'.daemon) ∨
      (a.daemon? = none ∧ n'.daemon = n.daemon) := by
  cases a with
  | serve a =>
    obtain ⟨_, t, ht, rfl⟩ := step_serve.mp h
    exact Or.inl ⟨a, rfl, ht⟩
  | connect =>
    obtain ⟨t, ht, rfl⟩ := step_connect.mp h
    exact Or.inl ⟨.connect, rfl, ht⟩
  | send i m =>
    obtain ⟨l, _, _, rfl⟩ := step_send.mp h
    exact Or.inr ⟨rfl, rfl⟩
  | read i =>
    obtain ⟨l, x, xs, _, _, rfl⟩ := step_read.mp h
    exact Or.inr ⟨rfl, rfl⟩

theorem daemon_invariant {I : Daemon → Prop}
    (hstep : ∀ s b t, I s → Daemon.step cfg fromStr s b = some t → I t) {a : NetAction}
    (h : step cfg fromStr n a = some n') (hi : I n.daemon) : I n'.daemon := by
  obtain ⟨b, _, hb⟩ | ⟨_, hd⟩ := step_daemon h
  · exact hstep _ b _ hi hb
  · rw [hd]
    exact hi

section process

variable {b : Option NetAction} (h : b.elim (some n) (n.step cfg fromStr) = some n')

include h

theorem elim_some {a : NetAction} (hb : b = some a) : n.step cfg fromStr a = some n' := by
  subst hb
  exact h

theorem elim_invariant {I : Daemon → Prop}
    (hstep : ∀ s b t, I s → Daemon.step cfg fromStr s b = some t → I t) (hi : I n.daemon) :
    I n'.daemon := by
  cases b with
  | none =>
    cases h
    exact hi
  | some a => exact daemon_invariant hstep h hi

end process

theorem step_client {a : NetAction} (h : step cfg fromStr n a = some n') (ha : a.client ≠ some i)
    (hl : n.clients[i]? = some l) :
    (∃ b, a.daemon? = some b ∧ n.daemon.step cfg fromStr b = some n'.daemon ∧
      l.fits fromStr b = true ∧ n'.clients[i]? = some (l.served n.daemon b)) ∨
    (a.daemon? = none ∧ n'.daemon = n.daemon ∧ n'.clients[i]? = some l) := by
  have hlt : i < n.clients.length := (List.getElem?_eq_some_iff.mp hl).1
  cases a with
  | serve a =>
    obtain ⟨hfit, t, ht, rfl⟩ := step_serve.mp h
    refine Or.inl ⟨a, rfl, ht, hfit l (List.mem_of_getElem? hl), ?_⟩
    rw [List.getElem?_map, hl]
    rfl
  | connect =>
    obtain ⟨t, ht, rfl⟩ := step_connect.mp h
    refine Or.inl ⟨.connect, rfl, ht, rfl, ?_⟩
    have hs : l.served n.daemon .connect = l := by
      cases hc : l.conn with
      | none => simp [Client.served, hc]
      | some c => exact Client.served_other hc nofun nofun
    rw [hs, List.getElem?_append_left hlt, hl]
  | send j m =>
    obtain ⟨l', _, _, rfl⟩ := step_send.mp h
    refine Or.inr ⟨rfl, rfl, ?_⟩
    exact (List.getElem?_set_ne (fun he => ha (congrArg some he))).trans hl
  | read j =>
    obtain ⟨l', x, xs, _, _, rfl⟩ := step_read.mp h
    refine Or.inr ⟨rfl, rfl, ?_⟩
    exact (List.getElem?_set_ne (fun he => ha (congrArg some he))).trans hl

theorem getElem?_setClient (hl : n.clients[i]? = some l) (l' : Client) :
    (n.setClient i l').clients[i]? = some l' := by
  rw [setClient, List.getElem?_set_self']
  simp [hl]

section requests

variable {α : Type} {b : Option NetAction} {x y z : α}

theorem readReply_eq {r : Option Reply} (h : n.readReply i = some (b, r)) :
    ∃ l, n.clients[i]? = some l ∧
      ((∃ x xs, l.incoming = x :: xs ∧ b = some (.read i) ∧ r = x.reply?) ∨
        (b = none ∧ r = none)) := by
  simp only [readReply, Option.bind_eq_bind, Option.bind_eq_some_iff] at h
  obtain ⟨l, hl, h⟩ := h
  refine ⟨l, hl, ?_⟩
  split at h
  · rename_i x xs hx
    cases h
    exact Or.inl ⟨x, xs, hx, rfl, rfl⟩
  · split at h
    · cases h
    · cases h
      exact Or.inr ⟨rfl, rfl⟩

theorem readReply_action {r : Option Reply} (h : n.readReply i = some (b, r)) :
    b = none ∨ b = some (.read i) := by
  obtain ⟨_, _, ⟨_, _, _, hb, _⟩ | ⟨hb, _⟩⟩ := readReply_eq h
  · exact Or.inr hb
  · exact Or.inl hb

theorem readReply_some {r : Reply} (h : n.readReply i = some (b, some r)) :
    b = some (.read i) ∧ ∃ l xs, n.clients[i]? = some l ∧ l.incoming = .reply r :: xs := by
  obtain ⟨l, hl, ⟨x, xs, hx, hb, hr⟩ | ⟨_, hr⟩⟩ := readReply_eq h
  · cases x with
    | reply r' =>
      cases hr
      exact ⟨hb, l, xs, hl, hx⟩
    | _ => cases hr
  · cases hr

theorem trySend_eq (n : Net) (i : Nat) (m : ClientMessage) :
    n.trySend i m = none ∨ n.trySend i m = some (.send i m) := by
  cases hl : n.clients[i]? with
  | none => exact Or.inl (by simp [trySend, hl])
  | some l => cases ha : l.alive n.daemon <;> simp [trySend, hl, ha]

theorem reading_eq {next : Option Reply → α} :
    n.reading i next = some (b, y) ↔ ∃ r, n.readReply i = some (b, r) ∧ next r = y := by
  simp only [reading, Option.map_eq_some_iff, Prod.exists, Prod.mk.injEq]
  constructor
  · rintro ⟨b', r, hr, rfl, rfl⟩
    exact ⟨r, hr, rfl⟩
  · rintro ⟨r, hr, rfl⟩
    exact ⟨b, r, hr, rfl, rfl⟩

theorem sending_eq {m : ClientMessage} (h : n.sending i m x z = (b, y)) :
    (b = some (.send i m) ∧ y = x) ∨ (b = none ∧ y = z) := by
  rw [sending] at h
  obtain hs | hs := trySend_eq n i m <;> rw [hs] at h <;> cases h
  · exact Or.inr ⟨rfl, rfl⟩
  · exact Or.inl ⟨rfl, rfl⟩

end requests

inductive ClientStep (cfg : Config) (fromStr : String → Option ClientMessage) (n n' : Net)
    (i : Nat) (l : Client) : NetAction → Client → Prop
  | served {b : NetAction} {d : Action} (hb : b.daemon? = some d)
      (ht : n.daemon.step cfg fromStr d = some n'.daemon) (hfit : l.fits fromStr d = true) :
      ClientStep cfg fromStr n n' i l b (l.served n.daemon d)
  | other {b : NetAction} (hb : b.client ≠ some i) (hd : n'.daemon = n.daemon) :
      ClientStep cfg fromStr n n' i l b l
  | read {x : OutLine} {xs : List OutLine} (hd : n'.daemon = n.daemon)
      (hx : l.incoming = x :: xs) :
      ClientStep cfg fromStr n n' i l (.read i) { l with incoming := xs }
  | sent {m : ClientMessage} (hd : n'.daemon = n.daemon) :
      ClientStep cfg fromStr n n' i l (.send i m) { l with outgoing := l.outgoing ++ [m] }

theorem client_step {b : NetAction} (h : step cfg fromStr n b = some n')
    (hl : n.clients[i]? = some l) :
    ∃ l', n'.clients[i]? = some l' ∧ ClientStep cfg fromStr n n' i l b l' := by
  by_cases hc : b.client = some i
  · cases b with
    | serve a => cases hc
    | connect => cases hc
    | send j m =>
      obtain rfl : j = i := Option.some.inj hc
      obtain ⟨l₁, hl₁, _, rfl⟩ := step_send.mp h
      obtain rfl : l = l₁ := Option.some.inj (hl.symm.trans hl₁)
      exact ⟨_, getElem?_setClient hl _, .sent rfl⟩
    | read j =>
      obtain rfl : j = i := Option.some.inj hc
      obtain ⟨l₁, x, xs, hl₁, hx, rfl⟩ := step_read.mp h
      obtain rfl : l = l₁ := Option.some.inj (hl.symm.trans hl₁)
      exact ⟨_, getElem?_setClient hl _, .read rfl hx⟩
  · obtain ⟨d, hd, ht, hfit, hl'⟩ | ⟨_, hd, hl'⟩ := step_client h hc hl
    · exact ⟨_, hl', .served hd ht hfit⟩
    · exact ⟨l, hl', .other hc hd⟩

structure Wired (n : Net) : Prop where
  attached : ∀ l ∈ n.clients, ∀ c, l.conn = some c → ∃ k, n.daemon.conns[c]? = some k
  notices : ∀ (c : Nat) (k : Conn), n.daemon.conns[c]? = some k → NoticeLast k

theorem wired_start (file : DurableState) (log : List BroadcastMsg) (now : Nat) :
    Wired (start file log now) :=
  ⟨fun _ hl => (nomatch hl), fun _ _ hk => (nomatch hk)⟩

theorem served_attached {b : Action} (ht : s.step cfg fromStr b = some t)
    (hl : ∀ c, l.conn = some c → ∃ k, s.conns[c]? = some k) (c : Nat)
    (hc : (l.served s b).conn = some c) : ∃ k, t.conns[c]? = some k := by
  by_cases hb : ∃ now, b = .boot now
  · obtain ⟨now, rfl⟩ := hb
    cases hn : l.conn <;> simp [Client.served, hn] at hc
  have hb' : ∀ now, b ≠ .boot now := fun now he => hb ⟨now, he⟩
  have hcl : l.conn = some c := by
    cases hn : l.conn with
    | none => simp [Client.served, hn] at hc
    | some d => exact (Client.served_connected hn hb').symm.trans hc
  obtain ⟨k, hk⟩ := hl c hcl
  obtain ⟨k', hk', _⟩ := step_conn ht hb' hk
  exact ⟨k', hk'⟩

theorem wired_step (hw : Wired n) {a : NetAction} (h : step cfg fromStr n a = some n') :
    Wired n' := by
  refine ⟨?_, daemon_invariant (I := fun s => ∀ (c : Nat) (k : Conn), s.conns[c]? = some k →
    NoticeLast k) ?_ h hw.notices⟩
  · cases a with
    | serve a =>
      obtain ⟨_, t, ht, rfl⟩ := step_serve.mp h
      rintro l' hl' c hc
      obtain ⟨l, hl, rfl⟩ := List.mem_map.mp hl'
      exact served_attached ht (hw.attached l hl) c hc
    | connect =>
      obtain ⟨t, ht, rfl⟩ := step_connect.mp h
      obtain ⟨_, rfl⟩ := Daemon.step_connect.mp ht
      intro l hl c hc
      obtain hl | hl := List.mem_append.mp hl
      · obtain ⟨k, hk⟩ := hw.attached l hl c hc
        refine ⟨k, ?_⟩
        exact (List.getElem?_append_left (List.getElem?_eq_some_iff.mp hk).1).trans hk
      · obtain rfl := List.mem_singleton.mp hl
        cases hc
        exact ⟨.fresh, by simp⟩
    | send j m =>
      obtain ⟨l, hl, _, rfl⟩ := step_send.mp h
      intro l' hl' c hc
      obtain hl' | rfl := List.mem_or_eq_of_mem_set hl'
      · exact hw.attached l' hl' c hc
      · exact hw.attached l (List.mem_of_getElem? hl) c hc
    | read j =>
      obtain ⟨l, x, xs, hl, _, rfl⟩ := step_read.mp h
      intro l' hl' c hc
      obtain hl' | rfl := List.mem_or_eq_of_mem_set hl'
      · exact hw.attached l' hl' c hc
      · exact hw.attached l (List.mem_of_getElem? hl) c hc
  · intro s b t hs ht
    exact conn_invariant (fun n hm => by cases hm) (fun _ _ _ => noticeLast_step) ht hs

theorem elim_wired {b : Option NetAction} (hw : Wired n)
    (h : b.elim (some n) (n.step cfg fromStr) = some n') : Wired n' := by
  cases b with
  | none =>
    cases h
    exact hw
  | some a => exact wired_step hw h

end Net

end Agorabus
