import Agorabus.Client

namespace Agorabus.Correlation

open Agorabus Daemon StepSystem Client Net Subscriber

/-- A client of the net that awaits its requests one after the other, and the message of the one
that is under way. -/
structure Requester where
  net : Net
  waiting : Option ClientMessage

/-- A request that cannot be sent leaves everything as it was. Between its requests the client may
read events. -/
inductive Move where
  | net (a : NetAction)
  | request (m : ClientMessage)
  | readReply
  | nextEvent

inductive Exchange where
  | asked (m : ClientMessage)
  | answered (m : ClientMessage) (r : Reply)

def asked (xs : List Exchange) : List ClientMessage :=
  xs.filterMap (fun x => match x with
    | .asked m => some m
    | _ => none)

def answered (xs : List Exchange) : List (ClientMessage × Reply) :=
  xs.filterMap (fun x => match x with
    | .answered m r => some (m, r)
    | _ => none)

def heard (cfg : Config) (fromStr : String → Option ClientMessage) (s : Daemon) (l : Client) :
    Action → List Exchange
  | .line c text now =>
      (do
        let m ← if l.conn = some c then l.outgoing.head? else none
        let r ← s.answer cfg fromStr (.line c text now)
        some (Exchange.answered m r)).toList
  | _ => []

namespace Requester

def start (file : DurableState) (log : List BroadcastMsg) (now : Nat) : Requester :=
  ⟨.start file log now, none⟩

def nextLine (s : Requester) (i : Nat) : Option OutLine := do
  let l ← s.net.clients[i]?
  l.incoming.head?

/-- The line that is read first is returned as the reply, or as an error if it is none. Without a
line, and with no one left to write one, the request fails. -/
def step (cfg : Config) (fromStr : String → Option ClientMessage) (i : Nat) (s : Requester) :
    Move → Option Requester
  | .net a =>
      if a.client = some i then none
      else (s.net.step cfg fromStr a).map (fun n => { s with net := n })
  | .request m =>
      match s.waiting with
      | none => (s.net.step cfg fromStr (.send i m)).map (fun n => ⟨n, some m⟩)
      | some _ => none
  | .readReply => do
      let _ ← s.waiting
      let l ← s.net.clients[i]?
      if l.incoming.isEmpty then
        if l.alive s.net.daemon then none else some { s with waiting := none }
      else (s.net.step cfg fromStr (.read i)).map (fun n => ⟨n, none⟩)
  | .nextEvent =>
      match s.waiting with
      | none => (s.net.step cfg fromStr (.read i)).map (fun n => { s with net := n })
      | some _ => none

def exchange (cfg : Config) (fromStr : String → Option ClientMessage) (i : Nat) (s : Requester) :
    Move → List Exchange
  | .request m => [.asked m]
  | .net (.serve a) => s.net.clients[i]?.elim [] (fun l => heard cfg fromStr s.net.daemon l a)
  | _ => []

end Requester

open Requester

namespace Move

def isRequest : Move → Bool
  | .request _ => true
  | _ => false

/-- The connection whose handler looks for the next event. -/
def forwards : Move → Option Nat
  | .net (.serve (.event c)) => some c
  | _ => none

end Move

/-- No event is on its way to the client when it sends a request, and none is forwarded to it
until the handler has taken the request. -/
def NoEventFirst (cfg : Config) (i : Nat) (s : Requester) (b : Move) : Prop :=
  (b.isRequest = true → ∀ l ∈ s.net.clients[i]?, events (l.flight s.net.daemon) = []) ∧
    ∀ c ∈ b.forwards, ∀ l ∈ s.net.clients[i]?, l.conn = some c →
      l.outgoing = [] ∨ s.net.daemon.nextEvent cfg c = none

instance (cfg : Config) (i : Nat) (s : Requester) (b : Move) :
    Decidable (NoEventFirst cfg i s b) :=
  inferInstanceAs (Decidable (_ ∧ _))

/-- The line that a request is about to read is no event, and a reply only if the daemon has
taken all the client has asked, and answered the last of it with that reply. -/
def Correlated (i : Nat) (s : Requester) (xs : List Exchange) : Prop :=
  ∀ m x, s.waiting = some m → s.nextLine i = some x → (∀ e, x ≠ .event e) ∧
    ∀ r, x = .reply r → (answered xs).map Prod.fst = asked xs ∧
      (answered xs).getLast? = some (m, r)

theorem asked_append (xs ys : List Exchange) : asked (xs ++ ys) = asked xs ++ asked ys :=
  List.filterMap_append

theorem answered_append (xs ys : List Exchange) :
    answered (xs ++ ys) = answered xs ++ answered ys :=
  List.filterMap_append

/-- Where a client is with its requests: the other end has left, nothing is under way, the request
waits for the handler, or the reply is on its way, in front of any other. -/
inductive Turn (s : Daemon) (l : Client) (xs : List Exchange) : Option ClientMessage → Prop
  | gone {w : Option ClientMessage} (hg : l.Gone s) (hr : replies (l.flight s) = [])
      (he : w.isSome → events (l.flight s) = []) : Turn s l xs w
  | quiet (ho : l.outgoing = []) (hr : replies (l.flight s) = [])
      (hn : notices (l.flight s) = []) (hx : (answered xs).map Prod.fst = asked xs) :
      Turn s l xs none
  | sent {m : ClientMessage} (ho : l.outgoing = [m]) (hf : l.flight s = [])
      (hx : asked xs = (answered xs).map Prod.fst ++ [m]) : Turn s l xs (some m)
  | replied {m : ClientMessage} {r : Reply} (rest : List OutLine) (ho : l.outgoing = [])
      (hf : l.flight s = .reply r :: rest) (hr : replies rest = [])
      (hn : l.Gone s ∨ notices rest = []) (hx : (answered xs).map Prod.fst = asked xs)
      (hl : (answered xs).getLast? = some (m, r)) : Turn s l xs (some m)

variable {cfg : Config} {fromStr : String → Option ClientMessage} {s t : Daemon} {a : Action}
  {l : Client}

theorem heard_nil (hfit : l.fits fromStr a = true)
    (ho : (l.served s a).outgoing = l.outgoing) : heard cfg fromStr s l a = [] := by
  cases a with
  | line c text now =>
    by_cases hc : l.conn = some c
    · obtain ⟨m, ms, hm, _⟩ := fits_line hfit hc
      simp [served, hc, hm] at ho
    · simp [heard, hc]
  | _ => rfl

theorem heard_line {c now : Nat} {text : String} {m : ClientMessage} {ms : List ClientMessage}
    {r : Reply} (hc : l.conn = some c) (ho : l.outgoing = m :: ms)
    (hr : s.answer cfg fromStr (.line c text now) = some r) :
    heard cfg fromStr s l (.line c text now) = [.answered m r] := by
  simp [heard, hc, ho, hr]

theorem turn_carries {xs : List Exchange} {w : Option ClientMessage} (h : Turn s l xs w)
    (hfit : l.fits fromStr a = true) (hc : Carries cfg fromStr s t a l (l.served s a))
    (hq : ∀ c, a = .event c → l.conn = some c → l.outgoing = [] ∨ s.nextEvent cfg c = none) :
    Turn t (l.served s a) (xs ++ heard cfg fromStr s l a) w := by
  cases hc with
  | same ho hf hg =>
    rw [heard_nil hfit ho, List.append_nil]
    cases h with
    | gone hgone hr he => exact .gone (hg hgone) (hf ▸ hr) (hf ▸ he)
    | quiet ho' hr hn hx => exact .quiet (ho.trans ho') (hf ▸ hr) (hf ▸ hn) hx
    | sent ho' hf' hx => exact .sent (ho.trans ho') (hf.trans hf') hx
    | replied rest ho' hf' hr hn hx hl =>
      exact .replied rest (ho.trans ho') (hf.trans hf') hr (hn.imp_left hg) hx hl
  | @took c now text m r ha hc hm ho hr hf hg =>
    subst ha
    rw [heard_line hc ho hr]
    cases h with
    | gone hgone => exact absurd hgone hg
    | quiet ho' => rw [ho] at ho'; cases ho'
    | sent ho' hf' hx =>
      rw [ho] at ho'
      obtain ⟨rfl, hout⟩ := List.cons.inj ho'
      refine .replied [] hout (by rw [hf, hf']; rfl) rfl (Or.inr rfl) ?_ ?_
      · rw [answered_append, asked_append, List.map_append, hx]
        simp [answered, asked]
      · rw [answered_append]
        simp [answered]
    | replied rest ho' => rw [ho] at ho'; cases ho'
  | @event c e ha hc he ho hf hg =>
    rw [heard_nil hfit ho, List.append_nil]
    have hout : l.outgoing = [] := (hq c ha hc).resolve_right (by rw [he]; nofun)
    cases h with
    | gone hgone => exact absurd hgone hg
    | quiet ho' hr hn hx =>
      refine .quiet (ho.trans ho') ?_ ?_ hx
      · rw [hf, replies_append, hr]
        rfl
      · rw [hf, notices_append, hn]
        rfl
    | sent ho' => rw [hout] at ho'; cases ho'
    | replied rest ho' hf' hr hn hx hl =>
      refine .replied (rest ++ [.event e]) (ho.trans ho') (by rw [hf, hf']; rfl) ?_ ?_ hx hl
      · rw [replies_append, hr]
        rfl
      · refine Or.inr ?_
        rw [notices_append, hn.resolve_left hg]
        rfl
  | leaves ho hg hf =>
    rw [heard_nil hfit ho, List.append_nil]
    obtain ⟨ns, hnr, hne, hpre⟩ := hf
    cases h with
    | gone _ hr he =>
      refine .gone hg (no_replies_of_initial hpre ?_) (fun hw => no_events_of_initial hpre ?_)
      · rw [replies_append, hr, hnr, List.append_nil]
      · rw [events_append, he hw, hne, List.append_nil]
    | quiet _ hr =>
      refine .gone hg (no_replies_of_initial hpre ?_) nofun
      rw [replies_append, hr, hnr, List.append_nil]
    | sent _ hf' =>
      rw [hf', List.nil_append] at hpre
      exact .gone hg (no_replies_of_initial hpre hnr) (fun _ => no_events_of_initial hpre hne)
    | replied rest ho' hf' hr hn hx hl =>
      rw [hf', List.cons_append] at hpre
      cases hl' : (l.served s a).flight t with
      | nil => exact .gone hg (by rw [hl']; rfl) (fun _ => by rw [hl']; rfl)
      | cons y ys =>
        rw [hl'] at hpre
        obtain ⟨rfl, hys⟩ := List.cons_prefix_cons.mp hpre
        refine .replied ys (ho.trans ho') hl' (no_replies_of_initial hys ?_) (Or.inl hg) hx hl
        rw [replies_append, hr, hnr, List.append_nil]

theorem turn_request {xs : List Exchange} (h : Turn s l xs none)
    (hq : events (l.flight s) = []) (m : ClientMessage) :
    Turn s { l with outgoing := l.outgoing ++ [m] } (xs ++ [.asked m]) (some m) := by
  cases h with
  | gone hg hr => exact .gone hg hr (fun _ => hq)
  | quiet ho hr hn hx =>
    refine .sent (by rw [ho]; rfl) (eq_nil_of_no_line hr hq hn) ?_
    rw [asked_append, answered_append, ← hx]
    simp [asked, answered]

theorem turn_read {xs : List Exchange} {w : Option ClientMessage} (h : Turn s l xs w)
    {x : OutLine} {rest : List OutLine} (hx : l.incoming = x :: rest) :
    Turn s { l with incoming := rest } xs none := by
  have hf := flight_read (s := s) hx
  cases h with
  | gone hg hr =>
    rw [hf] at hr
    exact .gone hg (tail_nil hr) nofun
  | quiet ho hr hn hxs =>
    rw [hf] at hr hn
    exact .quiet ho (tail_nil hr) (notices_tail_nil hn) hxs
  | sent ho hf' =>
    rw [hf] at hf'
    cases hf'
  | replied rest' ho hf' hr hn hxs =>
    rw [hf, List.cons.injEq] at hf'
    rw [← hf'.2] at hr hn
    obtain hg | hn := hn
    · exact .gone hg hr nofun
    · exact .quiet ho hr hn hxs

theorem turn_eof (xs : List Exchange) (hatt : ∀ c, l.conn = some c → ∃ k, s.conns[c]? = some k)
    (hl : l.alive s = false) (hi : l.incoming = []) : Turn s l xs none := by
  obtain ⟨hg, hf⟩ := gone_of_not_alive hl hatt
  rw [hi] at hf
  exact .gone hg (by rw [hf]; rfl) nofun

structure InTurn (i : Nat) (s : Requester) (xs : List Exchange) : Prop where
  wired : Wired s.net
  unborn : s.net.clients[i]? = none → s.waiting = none ∧ xs = []
  turn : ∀ l, s.net.clients[i]? = some l → Turn s.net.daemon l xs s.waiting

variable {i : Nat} {r r' : Requester} {b : Move}

theorem inTurn_net {a : NetAction} {xs : List Exchange} {n : Net} (hr : InTurn i r xs)
    (ha : a.client ≠ some i) (hq : NoEventFirst cfg i r (.net a))
    (h : r.net.step cfg fromStr a = some n) :
    InTurn i { r with net := n } (xs ++ exchange cfg fromStr i r (.net a)) := by
  refine ⟨wired_step hr.wired h, ?_, ?_⟩
  · intro hn
    cases hl : r.net.clients[i]? with
    | none =>
      obtain ⟨hw, hx⟩ := hr.unborn hl
      refine ⟨hw, ?_⟩
      rw [hx]
      cases a with
      | serve a => simp [exchange, hl]
      | _ => rfl
    | some l =>
      obtain ⟨_, _, _, _, hl'⟩ | ⟨_, _, hl'⟩ := step_client h ha hl <;> rw [hn] at hl' <;> cases hl'
  · intro l' hl'
    cases hl : r.net.clients[i]? with
    | some l =>
      obtain ⟨b, hb, ht, hfit, hs⟩ | ⟨hb, hd, hs⟩ := step_client h ha hl
      · obtain rfl := Option.some.inj (hs.symm.trans hl')
        have hatt := hr.wired.attached l (List.mem_of_getElem? hl)
        have hx : exchange cfg fromStr i r (.net a) = heard cfg fromStr r.net.daemon l b := by
          cases a with
          | serve a =>
            cases hb
            simp [exchange, hl]
          | connect =>
            cases hb
            rfl
          | _ => cases hb
        rw [hx]
        refine turn_carries (hr.turn l hl) hfit (carries hr.wired.notices hatt hfit ht) ?_
        rintro c rfl hc
        cases a with
        | serve a =>
          cases hb
          exact hq.2 c rfl l hl hc
        | _ => cases hb
      · obtain rfl := Option.some.inj (hs.symm.trans hl')
        have hx : exchange cfg fromStr i r (.net a) = [] := by
          cases a with
          | serve a => cases hb
          | _ => rfl
        rw [hx, List.append_nil]
        dsimp only
        rw [hd]
        exact hr.turn l hl
    | none =>
      -- the client has just connected
      obtain ⟨hw, rfl⟩ := hr.unborn hl
      cases a with
      | serve a =>
        obtain ⟨_, t, _, rfl⟩ := step_serve.mp h
        simp [hl] at hl'
      | connect =>
        obtain ⟨t, ht, rfl⟩ := step_connect.mp h
        obtain ⟨_, rfl⟩ := Daemon.step_connect.mp ht
        have hlen : r.net.clients.length ≤ i := List.getElem?_eq_none_iff.mp hl
        have hnew : l' = ⟨some r.net.daemon.conns.length, [], []⟩ := by
          rw [List.getElem?_append_right hlen] at hl'
          exact List.mem_singleton.mp (List.mem_of_getElem? hl')
        rw [hw, hnew]
        have hf : Client.flight { r.net.daemon with conns := r.net.daemon.conns ++ [.fresh] }
            ⟨some r.net.daemon.conns.length, [], []⟩ = [] := by
          simp [flight, Conn.wire, Conn.fresh, unwritten]
        exact .quiet rfl (by rw [hf]; rfl) (by rw [hf]; rfl) rfl
      | send j m =>
        obtain ⟨l, hl₁, _, rfl⟩ := step_send.mp h
        rw [setClient, List.getElem?_set_ne (fun he => ha (congrArg some he)), hl] at hl'
        cases hl'
      | read j =>
        obtain ⟨l, x, xs, hl₁, _, rfl⟩ := step_read.mp h
        rw [setClient, List.getElem?_set_ne (fun he => ha (congrArg some he)), hl] at hl'
        cases hl'

theorem inTurn_read {xs : List Exchange} {n : Net} (hr : InTurn i r xs)
    (h : r.net.step cfg fromStr (.read i) = some n) : InTurn i ⟨n, none⟩ xs := by
  have hw := wired_step hr.wired h
  obtain ⟨l, x, rest, hl, hx, rfl⟩ := step_read.mp h
  refine ⟨hw, fun hn => ?_, fun l' hl' => ?_⟩
  · rw [getElem?_setClient hl] at hn
    cases hn
  · obtain rfl := Option.some.inj ((getElem?_setClient hl _).symm.trans hl')
    exact turn_read (hr.turn l hl) hx

theorem inTurn_step {xs : List Exchange} (hr : InTurn i r xs) (hq : NoEventFirst cfg i r b)
    (h : Requester.step cfg fromStr i r b = some r') :
    InTurn i r' (xs ++ exchange cfg fromStr i r b) := by
  cases b with
  | net a =>
    simp only [Requester.step] at h
    split at h
    · cases h
    · rename_i ha
      obtain ⟨n, hn, rfl⟩ := Option.map_eq_some_iff.mp h
      exact inTurn_net hr ha hq hn
  | request m =>
    cases hw : r.waiting with
    | some m' => simp [Requester.step, hw] at h
    | none =>
      simp only [Requester.step, hw] at h
      obtain ⟨n, hn, rfl⟩ := Option.map_eq_some_iff.mp h
      have hwired := wired_step hr.wired hn
      obtain ⟨l, hl, _, rfl⟩ := step_send.mp hn
      refine ⟨hwired, fun hnone => ?_, fun l' hl' => ?_⟩
      · rw [getElem?_setClient hl] at hnone
        cases hnone
      · obtain rfl := Option.some.inj ((getElem?_setClient hl _).symm.trans hl')
        exact turn_request (hw ▸ hr.turn l hl) (hq.1 rfl l hl) m
  | readReply =>
    simp only [Requester.step, Option.bind_eq_bind, Option.bind_eq_some_iff] at h
    obtain ⟨m, hw, l, hl, h⟩ := h
    have hx : exchange cfg fromStr i r .readReply = [] := rfl
    rw [hx, List.append_nil]
    split at h
    · rename_i hi
      split at h
      · cases h
      · rename_i hal
        cases h
        have hatt := hr.wired.attached l (List.mem_of_getElem? hl)
        refine ⟨hr.wired, fun hn => ?_, fun l' hl' => ?_⟩
        · rw [hl] at hn
          cases hn
        · obtain rfl := Option.some.inj (hl.symm.trans hl')
          exact turn_eof xs hatt (by simpa using hal) (List.isEmpty_iff.mp hi)
    · obtain ⟨n, hn, rfl⟩ := Option.map_eq_some_iff.mp h
      exact inTurn_read hr hn
  | nextEvent =>
    have hx : exchange cfg fromStr i r .nextEvent = [] := rfl
    rw [hx, List.append_nil]
    cases hw : r.waiting with
    | some m' => simp [Requester.step, hw] at h
    | none =>
      simp only [Requester.step, hw] at h
      obtain ⟨n, hn, rfl⟩ := Option.map_eq_some_iff.mp h
      rw [← hw]
      have hread := inTurn_read hr hn
      rw [← hw] at hread
      exact hread

theorem inTurn_correlated {xs : List Exchange} (hr : InTurn i r xs) : Correlated i r xs := by
  intro m x hw hx
  cases hl : r.net.clients[i]? with
  | none => simp [nextLine, hl] at hx
  | some l =>
    cases hi : l.incoming with
    | nil => simp [nextLine, hl, hi] at hx
    | cons y ys =>
      obtain rfl : y = x := by simpa [nextLine, hl, hi] using hx
      have hf := flight_read (s := r.net.daemon) hi
      have hturn := hr.turn l hl
      rw [hw] at hturn
      cases hturn with
      | gone hg hrep he =>
        have hev := he rfl
        rw [hf] at hrep hev
        refine ⟨fun e he => ?_, fun r he => ?_⟩
        · rw [he] at hev
          cases hev
        · rw [he] at hrep
          cases hrep
      | sent ho hf' =>
        rw [hf] at hf'
        cases hf'
      | replied rest ho hf' hrep hn hxs hlast =>
        rw [hf, List.cons.injEq] at hf'
        refine ⟨fun e he => ?_, fun r he => ?_⟩
        · rw [he] at hf'
          cases hf'.1
        · rw [he] at hf'
          cases hf'.1
          exact ⟨hxs, hlast⟩

/-- A client that awaits its requests one after the other gets the replies it has asked for, and
loses no event to a request, as long as no event gets in front of a reply. -/
theorem correlated_of_no_event_first (cfg : Config) (fromStr : String → Option ClientMessage)
    (i : Nat) (file : DurableState) (log : List BroadcastMsg) (now : Nat) (bs : List Move)
    (r : Requester)
    (hq : Along (Requester.step cfg fromStr i) (NoEventFirst cfg i) (Requester.start file log now)
      bs)
    (h : run (Requester.step cfg fromStr i) (Requester.start file log now) bs = some r) :
    Correlated i r (trace (Requester.step cfg fromStr i) (exchange cfg fromStr i)
      (Requester.start file log now) bs) := by
  have hstart : InTurn i (Requester.start file log now) [] :=
    ⟨wired_start file log now, fun _ => ⟨rfl, rfl⟩, fun l hl => by cases hl⟩
  have hr := run_trace_invariant (I := InTurn i) (P := NoEventFirst cfg i)
    (fun _ _ _ _ hr hq h => inTurn_step hr hq h) hq h hstart
  rw [List.nil_append] at hr
  exact inTurn_correlated hr

def exchangeLines : String → Option ClientMessage :=
  decodeFrom [(announceLine "s1", .announce "s1" 7 "/" "" none),
    (announceLine "s2", .announce "s2" 7 "/" "" none), (subscribeLine, .subscribe "a."),
    (publishLine "a.b", .publish "a.b" .null), (heartbeatLine, .heartbeat "" none none none),
    (claimListLine, .claimList)]

def exchangeConfig : Config := ⟨60, 1024, 3000, false, "carbon"⟩

def subscribing : List Move :=
  [.net .connect, .request (.announce "s1" 7 "/" "" none),
    .net (.serve (.line 0 (announceLine "s1") 1)), .net (.serve (.proceed 0 1 true)), .readReply,
    .request (.subscribe "a."), .net (.serve (.line 0 subscribeLine 1)),
    .net (.serve (.proceed 0 1 true)), .readReply]

def publishing : List Move :=
  [.net (.serve .connect), .net (.serve (.line 1 (announceLine "s2") 2)),
    .net (.serve (.proceed 1 2 true)), .net (.serve (.line 1 (publishLine "a.b") 2))]

/-- The event is forwarded after the heartbeat has been taken, and comes after its reply. -/
def beating : List Move :=
  subscribing ++ publishing ++ [.request (.heartbeat "" none none none),
    .net (.serve (.line 0 heartbeatLine 3)), .net (.serve (.proceed 0 3 true)),
    .net (.serve (.event 0)), .net (.serve (.proceed 0 3 true))]

theorem correlated_beating : ∃ r,
    run (Requester.step exchangeConfig exchangeLines 0) (Requester.start .default [] 0) beating =
      some r ∧
    r.nextLine 0 = some (.reply .okEmpty) ∧
    (answered (trace (Requester.step exchangeConfig exchangeLines 0)
      (exchange exchangeConfig exchangeLines 0) (Requester.start .default [] 0)
      beating)).getLast? = some (.heartbeat "" none none none, .okEmpty) := by
  obtain ⟨hquiet, hend⟩ : Along (Requester.step exchangeConfig exchangeLines 0)
        (NoEventFirst exchangeConfig 0) (Requester.start .default [] 0) beating ∧
      (run (Requester.step exchangeConfig exchangeLines 0) (Requester.start .default [] 0)
        beating).map (fun r => (r.waiting, r.nextLine 0)) =
        some (some (.heartbeat "" none none none), some (.reply .okEmpty)) := by decide +kernel
  obtain ⟨r, hr, he⟩ := Option.map_eq_some_iff.mp hend
  simp only [Prod.mk.injEq] at he
  have hc := correlated_of_no_event_first exchangeConfig exchangeLines 0 .default [] 0 beating r
    hquiet hr
  exact ⟨r, hr, he.2, ((hc _ _ he.1 he.2).2 _ rfl).2⟩

/-- The event is forwarded before the heartbeat is sent. -/
def overtaking : List Move :=
  subscribing ++ publishing ++ [.net (.serve (.event 0)), .net (.serve (.proceed 0 2 true)),
    .request (.heartbeat "" none none none)]

def listing : List Move :=
  [.readReply, .net (.serve (.line 0 heartbeatLine 3)), .net (.serve (.proceed 0 3 true)),
    .request .claimList]

/-- A request reads an event, and the next one the reply to the request before it, while its own
message has not been taken. -/
theorem event_read_as_reply : ∃ r r',
    run (Requester.step exchangeConfig exchangeLines 0) (Requester.start .default [] 0)
      overtaking = some r ∧
    r.waiting = some (.heartbeat "" none none none) ∧
    r.nextLine 0 = some (.event ⟨"a.b", .null, "s2"⟩) ∧
    run (Requester.step exchangeConfig exchangeLines 0) r listing = some r' ∧
    r'.waiting = some .claimList ∧ r'.nextLine 0 = some (.reply .okEmpty) ∧
    r'.net.clients[0]?.map Client.outgoing = some [.claimList] := by
  obtain ⟨hfst, hsnd⟩ : (run (Requester.step exchangeConfig exchangeLines 0)
        (Requester.start .default [] 0) overtaking).map (fun r => (r.waiting, r.nextLine 0)) =
        some (some (.heartbeat "" none none none), some (.event ⟨"a.b", .null, "s2"⟩)) ∧
      (run (Requester.step exchangeConfig exchangeLines 0)
        (Requester.start .default [] 0) (overtaking ++ listing)).map (fun r =>
          (r.waiting, r.nextLine 0, r.net.clients[0]?.map Client.outgoing)) =
        some (some .claimList, some (.reply .okEmpty), some [.claimList]) := by decide +kernel
  obtain ⟨r, hr, he⟩ := Option.map_eq_some_iff.mp hfst
  obtain ⟨r', hr', he'⟩ := Option.map_eq_some_iff.mp hsnd
  rw [run_append, hr, Option.bind_some] at hr'
  simp only [Prod.mk.injEq] at he he'
  exact ⟨r, r', hr, he.1, he.2, hr', he'.1, he'.2.1, he'.2.2⟩

end Agorabus.Correlation
