import Agorabus.ClaimTable
import Agorabus.Library.Outbox
import Agorabus.Steps

namespace Agorabus.ClaimEvents

open Agorabus Daemon StepSystem Outbox

variable {cfg : Config} {fromStr : String → Option ClientMessage} {s t : Daemon} {a : Action}

inductive ClaimEvent where
  | acquire (path sid : String) (ttlUnixSecs : Nat)
  | release (path sid : String)
  deriving DecidableEq

def ClaimEvent.path : ClaimEvent → String
  | .acquire path _ _ => path
  | .release path _ => path

@[simp] theorem ClaimEvent.path_release (path sid : String) : (release path sid).path = path := rfl

def ClaimEvent.ofMsg (m : BroadcastMsg) : Option ClaimEvent := do
  let path ← (← m.data.get? "path").asStr?
  let sid ← (← m.data.get? "session_id").asStr?
  if m.topic = "claim.acquire" then
    some (.acquire path sid (← (← m.data.get? "ttl_unix_secs").asU64?))
  else if m.topic = "claim.release" then some (.release path sid)
  else none

@[simp] theorem ofMsg_claimAcquireMsg (path sid reason : String) (ttl : Nat) :
    ClaimEvent.ofMsg (claimAcquireMsg path sid ttl reason) = some (.acquire path sid ttl) := rfl

@[simp] theorem ofMsg_claimReleaseMsg (path sid source : String) :
    ClaimEvent.ofMsg (claimReleaseMsg path sid source) = some (.release path sid) := rfl

/-- Holder and expiry of a path, if it is claimed. -/
abbrev Cell := Option (String × Nat)

def ClaimEvent.applyCell (v : Cell) : ClaimEvent → Cell
  | .acquire _ sid ttl => some (sid, ttl)
  | .release _ sid => if v.any (fun h => h.1 = sid) then none else v

def ClaimEvent.apply (v : String → Cell) (e : ClaimEvent) : String → Cell :=
  fun p => if p = e.path then e.applyCell (v p) else v p

def live (now : Nat) (v : Cell) : Cell := v.filter (fun h => decide (now < h.2))

def cell (bus : BusState) (p : String) : Cell :=
  (bus.claims.lookup p).map (fun c => (c.sessionId, c.ttlUnixSecs))

theorem live_cell (bus : BusState) (now : Nat) (p : String) :
    live now (cell bus p) =
      (liveClaim bus.claims now p).map (fun c => (c.sessionId, c.ttlUnixSecs)) := by
  rw [live, cell, liveClaim, Option.filter_map]
  rfl

theorem live_some (now : Nat) (h : String × Nat) :
    live now (some h) = if now < h.2 then some h else none := by
  by_cases hn : now < h.2 <;> simp [live, Option.filter, hn]

theorem live_none (now : Nat) : live now none = none := rfl

theorem live_later {now later : Nat} (hl : now ≤ later) {v w : Cell} (h : live now v = live now w) :
    live later v = live later w := by
  have again (u : Cell) : live later u = live later (live now u) := by
    cases u with
    | none => rfl
    | some x =>
      by_cases hx : now < x.2
      · rw [live_some now, if_pos hx]
      · rw [live_some now, if_neg hx, live_some, if_neg (by omega), live_none]
  rw [again v, again w, h]

theorem live_applyCell {now : Nat} {v w : Cell} (h : live now v = live now w) (e : ClaimEvent) :
    live now (e.applyCell v) = live now (e.applyCell w) := by
  cases e with
  | acquire path sid ttl => rfl
  | release path sid =>
    have cleared (u : Cell) : live now ((ClaimEvent.release path sid).applyCell u) =
        if (live now u).any (fun x => x.1 = sid) then none else live now u := by
      cases u with
      | none => rfl
      | some x =>
        by_cases hx : x.1 = sid <;> by_cases hn : now < x.2 <;>
          simp [live_some, live_none, ClaimEvent.applyCell, hx, hn]
    rw [cleared, cleared, h]

def pendingEvents (es : List Effect) : List ClaimEvent :=
  es.filterMap (fun e => match e with
    | .broadcast m => ClaimEvent.ofMsg m
    | _ => none)

/-- What a step adds to the history of the claims: a line updates the table, tells the release
of an evicted holder under the lock and leaves its own event pending; a broadcast tells it. -/
def history (cfg : Config) (fromStr : String → Option ClientMessage) (s : Daemon) :
    Action → List (Entry ClaimEvent)
  | .line c text now =>
      match s.conns[c]? with
      | some k =>
          let r := handleLine cfg fromStr k c s.bus s.uplinkStatus s.log.length now text
          (pendingEvents r.conn.pending).map (.updated (r.sent.filterMap ClaimEvent.ofMsg))
      | none => []
  | .proceed c now ok =>
      ((s.sends cfg fromStr (.proceed c now ok)).filterMap ClaimEvent.ofMsg).map .told
  | _ => []

def Prompt (es : List Effect) : Prop :=
  pendingEvents es = [] ∨ (∃ m fs, es = .broadcast m :: fs ∧ pendingEvents fs = []) ∨
    ∃ m fs, es = .signal :: .broadcast m :: fs ∧ pendingEvents fs = []

/-- A line that leaves no event pending leaves the unexpired claims alone; otherwise its event
says what it has done to them, and what it has told already is the release of a holder whose
path it takes over. -/
structure Served.Tells (bus : BusState) (now : Nat) (r : Served) : Prop where
  prompt : Prompt r.conn.pending
  events : (pendingEvents r.conn.pending = [] ∧
      ∀ p, live now (cell r.bus p) = live now (cell bus p)) ∨
    ∃ e, pendingEvents r.conn.pending = [e] ∧
      (∀ p, live now (cell r.bus p) = live now (e.apply (cell bus) p)) ∧
      (r.sent.filterMap ClaimEvent.ofMsg = [] ∨
        ∃ sid sid' ttl, r.sent.filterMap ClaimEvent.ofMsg = [.release e.path sid'] ∧
          e = .acquire e.path sid ttl)

theorem Served.Tells.quiet {bus : BusState} {now : Nat} {r : Served}
    (hp : pendingEvents r.conn.pending = [])
    (hc : ∀ p, liveClaim r.bus.claims now p = liveClaim bus.claims now p) :
    Served.Tells bus now r :=
  ⟨Or.inl hp, Or.inl ⟨hp, fun p => by rw [live_cell, live_cell, hc p]⟩⟩

theorem claimAcquire_tells (k : Conn) (sid : String) {bus : BusState} (hk : Keyed bus.claims)
    (uplink : UplinkStatus) (sent now : Nat) (path : String) (ttl : Nat)
    (reason : String) (force : Bool) :
    Served.Tells bus now (handleMessage cfg k sid bus uplink sent now
      (.claimAcquire path ttl reason force)) := by
  have hg : (Transaction.claimAcquire sid path ttl reason force).changesDurable bus now =
      bus.grants now sid path force := changesDurable_claimAcquire ..
  rw [Transaction.changesDurable] at hg
  rw [handleMessage_claimAcquire]
  cases hd : (bus.claimAcquire sid path ttl reason force now).2 with
  | conflict c =>
    rw [hd] at hg
    have hc : (Transaction.claimAcquire sid path ttl reason force).changesDurable bus now =
        false := by rw [changesDurable_claimAcquire, ← hg]
    exact .quiet rfl (fun p => (apply_unchanged hc).2 p)
  | granted evicted =>
    rw [hd] at hg
    refine ⟨Or.inr (Or.inr ⟨_, _, rfl, rfl⟩), Or.inr ⟨.acquire path sid ttl, rfl, ?_, ?_⟩⟩
    · intro p
      dsimp only
      rw [live_cell, liveClaim_claimAcquire, ← hg]
      by_cases hp : p = path
      · subst hp
        simp only [and_self, ↓reduceIte, ClaimEvent.apply, ClaimEvent.path]
        by_cases ht : now < ttl <;> simp [live_some, ClaimEvent.applyCell, ht]
      · simp only [hp, false_and, ↓reduceIte, ClaimEvent.apply, ClaimEvent.path]
        rw [live_cell]
    · cases evicted with
      | none => exact Or.inl rfl
      | some c =>
        refine Or.inr ⟨sid, c.sessionId, ttl, ?_, rfl⟩
        have hpath : c.path = path :=
          hk path c (liveClaim_eq_some.mp (BusState.claimAcquire_evicts hd).1).1
        simp [ClaimEvent.path, hpath]

theorem claimRelease_tells (k : Conn) (sid : String) (bus : BusState) (uplink : UplinkStatus)
    (sent now : Nat) (path : String) :
    Served.Tells bus now (handleMessage cfg k sid bus uplink sent now (.claimRelease path)) := by
  have hg : (bus.claimRelease sid path now).2 =
      (liveClaim bus.claims now path).any (·.sessionId = sid) := changesDurable_claimRelease ..
  have hlive (p : String) := liveClaim_claimRelease bus now sid path p
  cases hd : (bus.claimRelease sid path now).2 with
  | false =>
    rw [hd] at hg
    refine .quiet ?_ (fun p => ?_)
    · simp only [handleMessage, hd]
      rfl
    · exact (hlive p).trans (if_neg (fun h => by rw [← hg] at h; cases h.2))
  | true =>
    rw [hd] at hg
    refine ⟨?_, Or.inr ⟨.release path sid, ?_, fun p => ?_, Or.inl rfl⟩⟩
    · simp only [handleMessage, hd]
      exact Or.inr (Or.inr ⟨_, _, rfl, rfl⟩)
    · simp only [handleMessage, hd]
      rfl
    · simp only [handleMessage]
      rw [live_cell, hlive, ← hg]
      by_cases hp : p = path
      · subst hp
        obtain ⟨c, hc, hsid⟩ := Option.any_eq_true _ _ |>.mp hg.symm
        simp only [ClaimEvent.apply, ClaimEvent.path, ClaimEvent.applyCell, cell,
          (liveClaim_eq_some.mp hc).1, ↓reduceIte, and_self, Option.map_some, Option.map_none,
          Option.any_some, hsid]
        rfl
      · simp only [hp, false_and, ↓reduceIte, ClaimEvent.apply, ClaimEvent.path]
        rw [live_cell]

theorem handleMessage_tells (k : Conn) (sid : String) {bus : BusState} (hk : Keyed bus.claims)
    (uplink : UplinkStatus) (sent now : Nat) (msg : ClientMessage) :
    Served.Tells bus now (handleMessage cfg k sid bus uplink sent now msg) := by
  have hbus : (handleMessage cfg k sid bus uplink sent now msg).bus =
      bus.commit now (msg.transaction cfg sid) := handleMessage_bus ..
  cases msg with
  | claimAcquire path ttl reason force => exact claimAcquire_tells k sid hk ..
  | claimRelease path => exact claimRelease_tells k sid bus ..
  | heartbeat tool skill prdSlug paths =>
    refine .quiet ?_ (fun p => ?_)
    · simp only [handleMessage]
      split
      · rfl
      · split <;> rfl
    · rw [hbus]
      simp only [ClientMessage.transaction]
      split
      · rfl
      · exact liveClaim_apply ..
  | update cwd intent => exact .quiet rfl (fun p => by rw [hbus]; exact liveClaim_apply ..)
  | peers => exact .quiet rfl (fun p => by rw [hbus]; exact liveClaim_apply ..)
  | claimList => exact .quiet rfl (fun p => by rw [hbus]; exact liveClaim_apply ..)
  | _ => exact .quiet rfl (fun p => rfl)

theorem handleLine_tells {k : Conn} (hp : k.pending = []) (c : Nat) {bus : BusState}
    (hk : Keyed bus.claims) (uplink : UplinkStatus) (sent now : Nat) (line : String) :
    Served.Tells bus now (handleLine cfg fromStr k c bus uplink sent now line) := by
  unfold handleLine
  split
  · exact ⟨Or.inl (by rw [hp]; rfl), Or.inl ⟨by rw [hp]; rfl, fun _ => rfl⟩⟩
  · cases fromStr (trim line) with
    | none => exact ⟨Or.inl rfl, Or.inl ⟨rfl, fun _ => rfl⟩⟩
    | some msg =>
      cases k.sessionId with
      | some sid => exact handleMessage_tells k sid hk uplink sent now msg
      | none =>
        cases msg with
        | announce sid pid cwd intent node =>
          refine ⟨Or.inl rfl, Or.inl ⟨rfl, fun p => ?_⟩⟩
          simp only [handleFirst, answer, BusState.announce]
          split <;> rfl
        | _ => exact ⟨Or.inl rfl, Or.inl ⟨rfl, fun _ => rfl⟩⟩

/-- The events about a path that tasks have still to broadcast. -/
def outstanding (conns : List Conn) (p : String) : Nat :=
  (conns.map (fun k => ((pendingEvents k.pending).filter (fun e => e.path = p)).length)).sum

theorem sum_map_set {conns : List Conn} {c : Nat} {k : Conn} (hk : conns[c]? = some k) (k' : Conn)
    (f : Conn → Nat) : ((conns.set c k').map f).sum + f k = (conns.map f).sum + f k' := by
  induction conns generalizing c with
  | nil => cases hk
  | cons k₀ conns ih =>
    cases c with
    | zero =>
      cases hk
      simp only [List.set_cons_zero, List.map_cons, List.sum_cons]
      omega
    | succ c =>
      have hrest := ih (c := c) (by simpa using hk)
      simp only [List.set_cons_succ, List.map_cons, List.sum_cons] at hrest ⊢
      omega

theorem outstanding_set {conns : List Conn} {c : Nat} {k : Conn} (hk : conns[c]? = some k)
    (k' : Conn) (p : String) :
    outstanding (conns.set c k') p +
        ((pendingEvents k.pending).filter (fun e => e.path = p)).length =
      outstanding conns p + ((pendingEvents k'.pending).filter (fun e => e.path = p)).length :=
  sum_map_set hk k' (fun k =>
    ((pendingEvents k.pending).filter (fun e : ClaimEvent => decide (e.path = p))).length)

inductive HistoryStep (s t : Daemon) : List (Entry ClaimEvent) → Prop
  | quiet (hlive : ∀ p, live t.clock (cell t.bus p) = live t.clock (cell s.bus p))
      (hout : ∀ p, outstanding t.conns p = outstanding s.conns p) : HistoryStep s t []
  | updated {early : List ClaimEvent} {e : ClaimEvent}
      (hlive : ∀ p, live t.clock (cell t.bus p) = live t.clock (e.apply (cell s.bus) p))
      (hearly : early = [] ∨ ∃ sid sid' ttl, early = [.release e.path sid'] ∧
        e = .acquire e.path sid ttl)
      (hout : ∀ p, outstanding t.conns p =
        outstanding s.conns p + ([e].filter (fun e => e.path = p)).length) :
      HistoryStep s t [.updated early e]
  | told {e : ClaimEvent}
      (hlive : ∀ p, live t.clock (cell t.bus p) = live t.clock (cell s.bus p))
      (hout : ∀ p, outstanding t.conns p + ([e].filter (fun e => e.path = p)).length =
        outstanding s.conns p) : HistoryStep s t [.told e]

def Orderly (s : Daemon) : Prop :=
  Keyed s.bus.claims ∧ ∀ (c : Nat) (k : Conn), s.conns[c]? = some k → Prompt k.pending

theorem line_history (ho : Orderly s) {c now : Nat} {text : String}
    (h : step cfg fromStr s (.line c text now) = some t) :
    HistoryStep s t (history cfg fromStr s (.line c text now)) := by
  obtain ⟨k, hk, ⟨hi, _⟩, rfl⟩ := step_line.mp h
  rw [Conn.idle_iff] at hi
  have ht : Served.Tells s.bus now (handleLine cfg fromStr k c s.bus s.uplinkStatus s.log.length
    now text) := handleLine_tells hi.2 c ho.1 _ _ now text
  simp only [takeLine, history, hk]
  generalize handleLine cfg fromStr k c s.bus s.uplinkStatus s.log.length now text = r at ht
  have hset (p : String) := outstanding_set hk r.conn p
  rw [hi.2] at hset
  obtain ⟨hnone, hlive⟩ | ⟨e, he, hlive, hearly⟩ := ht.events
  · rw [hnone] at hset ⊢
    exact .quiet hlive hset
  · rw [he] at hset ⊢
    exact .updated hlive hearly hset

theorem quiet_of_set {c : Nat} {k k' : Conn} (hk : s.conns[c]? = some k)
    (hconns : t.conns = s.conns.set c k')
    (hlive : ∀ p, live t.clock (cell t.bus p) = live t.clock (cell s.bus p))
    (hp : pendingEvents k'.pending = pendingEvents k.pending) : HistoryStep s t [] := by
  refine .quiet hlive (fun p => ?_)
  have := outstanding_set hk k' p
  rw [hp] at this
  rw [hconns]
  omega

theorem perform_live (s : Daemon) (c : Nat) (k : Conn) (ok : Bool) (e : Effect) (p : String) :
    live (s.perform c k s.clock ok e).clock (cell (s.perform c k s.clock ok e).bus p) =
      live (s.perform c k s.clock ok e).clock (cell s.bus p) := by
  rw [perform_bus, perform_clock]
  cases e with
  | cleanup =>
    cases k.sessionId with
    | none => rfl
    | some sid => simp only [Option.map_some, BusState.commit, live_cell, liveClaim_apply]
  | _ => rfl

theorem Prompt.last {e : Effect} {es : List Effect} (h : Prompt (e :: es))
    (hne : ∀ m, e ≠ .broadcast m) (hns : e ≠ .signal) : pendingEvents es = [] := by
  obtain h | ⟨m, fs, he, _⟩ | ⟨m, fs, he, _⟩ := h
  · cases e with
    | broadcast m => exact absurd rfl (hne m)
    | _ => exact h
  · exact absurd (List.cons.inj he).1 (hne m)
  · exact absurd (List.cons.inj he).1 hns

theorem proceed_history (ho : Orderly s) {c now : Nat} {ok : Bool}
    (h : step cfg fromStr s (.proceed c now ok) = some t) :
    HistoryStep s t (history cfg fromStr s (.proceed c now ok)) := by
  obtain ⟨k, e, es, hk, hp, _, rfl⟩ := step_proceed.mp h
  have hprompt := ho.2 c k hk
  rw [hp] at hprompt
  have hlive := perform_live { s with clock := now } c { k with pending := es } ok e
  cases e with
  | broadcast m =>
    have hset (p : String) := outstanding_set hk { k with pending := es } p
    simp only [history, sends, hk, hp]
    cases hm : ClaimEvent.ofMsg m with
    | none =>
      simp only [List.filterMap_cons, hm, List.filterMap_nil, List.map_nil]
      refine quiet_of_set hk (perform_conns ..) hlive ?_
      rw [hp]
      simp [pendingEvents, hm]
    | some ev =>
      simp only [List.filterMap_cons, hm, List.filterMap_nil, List.map_cons, List.map_nil]
      refine .told hlive (fun p => ?_)
      have hsum := hset p
      have hcons : pendingEvents k.pending = ev :: pendingEvents es := by
        rw [hp]
        simp [pendingEvents, hm]
      rw [hcons, ← List.singleton_append, List.filter_append, List.length_append] at hsum
      rw [perform_conns]
      dsimp only at hsum ⊢
      omega
  | write l =>
    simp only [history, sends, hk, hp]
    refine quiet_of_set hk (perform_conns ..) hlive ?_
    rw [hp]
    cases ok with
    | true => rfl
    | false => exact (hprompt.last (fun _ h => by cases h) (fun h => by cases h)).symm
  | writeNotice n =>
    simp only [history, sends, hk, hp]
    refine quiet_of_set hk (perform_conns ..) hlive ?_
    rw [hp]
    cases ok <;> rfl
  | bail =>
    simp only [history, sends, hk, hp]
    refine quiet_of_set hk (perform_conns ..) hlive ?_
    rw [hp]
    exact (hprompt.last (fun _ h => by cases h) (fun h => by cases h)).symm
  | _ =>
    simp only [history, sends, hk, hp]
    refine quiet_of_set hk (perform_conns ..) hlive ?_
    rw [hp]
    rfl

theorem history_step (ho : Orderly s) (hb : ∀ now, a ≠ .boot now)
    (h : step cfg fromStr s a = some t) : HistoryStep s t (history cfg fromStr s a) := by
  have idle {k : Conn} (hi : k.idle = true) : pendingEvents k.pending = [] := by
    rw [Conn.idle_iff] at hi
    rw [hi.2]
    rfl
  have same (hbus : t.bus = s.bus) (p : String) :
      live t.clock (cell t.bus p) = live t.clock (cell s.bus p) := by rw [hbus]
  by_cases hint : a.internal
  · obtain ⟨hbus, _, hconns, _⟩ := step_internal h hint
    have hnil : history cfg fromStr s a = [] := by
      cases a <;> first | rfl | simp [Action.internal] at hint
    rw [hnil]
    exact .quiet (same hbus) (fun p => by rw [hconns])
  cases a with
  | line c text now => exact line_history ho h
  | proceed c now ok => exact proceed_history ho h
  | connect =>
    obtain ⟨_, rfl⟩ := step_connect.mp h
    refine .quiet (same rfl) (fun p => ?_)
    simp [outstanding, Conn.fresh, pendingEvents]
  | hangup c =>
    obtain ⟨k, hk, hi, rfl⟩ := step_hangup.mp h
    exact quiet_of_set hk rfl (same rfl) (idle hi).symm
  | event c =>
    obtain ⟨k, rx, hk, _, hi, he⟩ := step_event.mp h
    obtain ⟨_, _, rfl, rfl | rfl | ⟨ev, rfl⟩⟩ := takeEvent_cases he
    · exact quiet_of_set hk rfl (same rfl) rfl
    · exact quiet_of_set hk rfl (same rfl) (idle hi).symm
    · exact quiet_of_set hk rfl (same rfl) (idle hi).symm
  | drain c =>
    obtain ⟨k, hk, _, hi, rfl⟩ := step_drain.mp h
    refine quiet_of_set hk rfl (same rfl) ?_
    rw [idle hi]
    dsimp only
    cases k.bcastRx <;> rfl
  | abort c =>
    obtain ⟨k, hk, _, ⟨_, hawait⟩, rfl⟩ := step_abort.mp h
    refine quiet_of_set hk rfl (same rfl) ?_
    obtain hprompt | ⟨m, fs, he, _⟩ | ⟨m, fs, he, _⟩ := ho.2 c k hk
    · exact hprompt.symm
    · simp [Conn.atAwait, he] at hawait
    · simp [Conn.atAwait, he] at hawait
  | uplinkInbound topic data origin =>
    obtain ⟨_, rfl⟩ := step_uplinkInbound.mp h
    exact .quiet (same rfl) (fun p => rfl)
  | presenceSend now =>
    obtain ⟨q, qs, _, _, rfl⟩ := step_presenceSend.mp h
    exact .quiet (same rfl) (fun p => rfl)
  | boot now => exact absurd rfl (hb now)
  | _ => simp [Action.internal] at hint

theorem Prompt.tail {e : Effect} {es : List Effect} (h : Prompt (e :: es)) : Prompt es := by
  obtain h | ⟨m, fs, he, hf⟩ | ⟨m, fs, he, hf⟩ := h
  · refine Or.inl ?_
    cases e with
    | broadcast m =>
      cases hm : ClaimEvent.ofMsg m with
      | none => simpa [pendingEvents, hm] using h
      | some ev => simp [pendingEvents, hm] at h
    | _ => exact h
  · cases he
    exact Or.inl hf
  · cases he
    exact Or.inr (Or.inl ⟨m, fs, rfl, hf⟩)

theorem prompt_conn (hk : Keyed s.bus.claims) {c : Nat} {k k' : Conn} (hp : Prompt k.pending)
    (h : ConnStep cfg fromStr s c k a k') : Prompt k'.pending := by
  cases h with
  | other => exact hp
  | @line text now hi =>
    exact (handleLine_tells (Conn.idle_iff.mp hi).2 c hk _ _ now text).prompt
  | hangup => exact Or.inl rfl
  | lag => exact hp
  | event =>
    dsimp only
    split <;> exact Or.inl rfl
  | drain =>
    refine Or.inl ?_
    dsimp only
    cases k.bcastRx <;> rfl
  | @proceed e es now ok hes =>
    rw [hes] at hp
    have htail : Prompt es := hp.tail
    cases e with
    | write l =>
      cases ok with
      | true => exact htail
      | false => exact Or.inl rfl
    | bail => exact Or.inl rfl
    | writeNotice n => cases ok <;> exact htail
    | _ => exact htail
  | abort => exact Or.inl rfl

theorem pendingEvents_task {c : Nat} {k k' : Conn} (hk : s.conns[c]? = some k)
    (hp : Prompt k.pending) (h : ConnStep cfg fromStr s c k a k') (hc : a.conn = some c)
    (hl : ∀ text now, a ≠ .line c text now) :
    pendingEvents k.pending =
      (s.sends cfg fromStr a).filterMap ClaimEvent.ofMsg ++ pendingEvents k'.pending := by
  have idle (hi : k.idle = true) : pendingEvents k.pending = [] := by
    rw [(Conn.idle_iff.mp hi).2]
    rfl
  cases h with
  | other ha => exact absurd hc ha
  | @line text now => exact absurd rfl (hl text now)
  | hangup hi => exact idle hi
  | lag hi => rfl
  | event hi =>
    rw [idle hi]
    dsimp only
    split <;> rfl
  | drain hi =>
    rw [idle hi]
    dsimp only
    cases k.bcastRx <;> rfl
  | @proceed e es now ok hes =>
    simp only [sends, hk, hes]
    rw [hes] at hp
    cases e with
    | broadcast m =>
      cases hm : ClaimEvent.ofMsg m <;> simp [pendingEvents, hm, Conn.performed]
    | write l =>
      cases ok with
      | true => rfl
      | false => exact hp.last (fun _ h => by cases h) (fun h => by cases h)
    | writeNotice n => cases ok <;> rfl
    | bail => exact hp.last (fun _ h => by cases h) (fun h => by cases h)
    | _ => rfl
  | abort hr hw =>
    obtain hp | ⟨m, fs, he, _⟩ | ⟨m, fs, he, _⟩ := hp
    · exact hp
    · simp [Conn.atAwait, he] at hw
    · simp [Conn.atAwait, he] at hw

theorem orderly_step (ho : Orderly s) (h : step cfg fromStr s a = some t)
    (hb : ∀ now, a ≠ .boot now) : Orderly t := by
  constructor
  · obtain ⟨now, rfl⟩ | hbus := step_bus h
    · exact absurd rfl (hb now)
    rw [hbus]
    cases s.transaction cfg fromStr a with
    | none => exact ho.1
    | some tr => exact ho.1.apply t.clock tr
  · exact conn_invariant (Q := fun k => Prompt k.pending) (Or.inl rfl)
      (fun _ _ _ hp hs => prompt_conn ho.1 hp hs) h ho.2

structure Filed (s : Daemon) : Prop where
  orderly : Orderly s
  file : Keyed s.file.claims
  saving : ∀ d, s.persist = .saving d → Keyed d.claims
  flushing : ∀ d, s.main = .flushing d → Keyed d.claims

theorem filed_start {file : DurableState} (hfile : Keyed file.claims) (log : List BroadcastMsg)
    (now : Nat) : Filed (start file log now) :=
  ⟨⟨@Keyed.prune (.fromDurable file) hfile now, fun _ _ hk => nomatch hk⟩, hfile, nofun, nofun⟩

theorem filed_step (hs : Filed s) (h : step cfg fromStr s a = some t) : Filed t := by
  obtain ⟨hfile, hsaving, hflushing⟩ := snapshot_step h
  refine ⟨?_, ?_, fun d hd => ?_, fun d hd => ?_⟩
  · by_cases hb : ∃ now, a = .boot now
    · obtain ⟨now, rfl⟩ := hb
      obtain ⟨_, _, rfl⟩ := step_boot.mp h
      exact (filed_start hs.file s.log now).orderly
    · exact orderly_step hs.orderly h (fun now he => hb ⟨now, he⟩)
  · obtain hf | hf | hf := hfile
    · rw [hf]
      exact hs.file
    · exact hs.saving _ hf
    · exact hs.flushing _ hf
  · obtain hd | rfl := hsaving d hd
    · exact hs.saving d hd
    · exact hs.orderly.1
  · obtain hd | rfl := hflushing d hd
    · exact hs.flushing d hd
    · exact hs.orderly.1

def onPath (p : String) (h : List (Entry ClaimEvent)) : List (Entry ClaimEvent) :=
  h.filter (fun x => x.event.path = p)

/-- Only an eviction is told early, and the acquire of the path that goes with it. -/
def Evicting (x : Entry ClaimEvent) : Prop :=
  ∀ early e, x = .updated early e → early = [] ∨ ∃ sid sid' ttl,
    early = [.release e.path sid'] ∧ e = .acquire e.path sid ttl

theorem replay_onPath {h : List (Entry ClaimEvent)} (hev : ∀ x ∈ h, Evicting x)
    (v : String → Cell) (p : String) :
    replay ClaimEvent.apply v h p = replay ClaimEvent.applyCell (v p) (onPath p h) := by
  induction h generalizing v with
  | nil => rfl
  | cons x h ih =>
    have ih := fun w => ih (fun y hy => hev y (List.mem_cons_of_mem _ hy)) w
    have hhead := hev x List.mem_cons_self
    cases x with
    | told e =>
      change replay ClaimEvent.apply (e.apply v) h p = _
      rw [ih, onPath, onPath, List.filter_cons]
      by_cases he : e.path = p
      · simp only [Entry.event, he, decide_true, ↓reduceIte, ClaimEvent.apply]
        rfl
      · simp only [Entry.event, he, decide_false, ClaimEvent.apply, Ne.symm he]
        rfl
    | updated early e =>
      change replay ClaimEvent.apply (early.foldl ClaimEvent.apply v) h p = _
      rw [ih, onPath, onPath, List.filter_cons]
      obtain rfl | ⟨sid, sid', ttl, rfl, _⟩ := hhead early e rfl
      · by_cases he : e.path = p <;> simp only [Entry.event, he, decide_true, decide_false] <;> rfl
      · by_cases he : e.path = p
        · simp only [Entry.event, he, decide_true, ↓reduceIte, List.foldl_cons, List.foldl_nil,
            ClaimEvent.apply, ClaimEvent.path_release]
          rfl
        · simp only [Entry.event, he, decide_false, List.foldl_cons, List.foldl_nil,
            ClaimEvent.apply, ClaimEvent.path_release, Ne.symm he]
          rfl

/-- Along a run the updates in the history make up the table, and every update whose event has
not been told is outstanding. -/
structure Recorded (v : String → Cell) (s : Daemon) (h : List (Entry ClaimEvent)) : Prop where
  orderly : Orderly s
  table : ∀ p, live s.clock (cell s.bus p) =
    live s.clock ((due (onPath p h)).foldl ClaimEvent.applyCell (v p))
  count : ∀ p, (due (onPath p h)).length =
    (toldEvents (onPath p h)).length + outstanding s.conns p
  evicting : ∀ x ∈ h, Evicting x

theorem recorded_step {v : String → Cell} {h : List (Entry ClaimEvent)} (hr : Recorded v s h)
    (hb : ∀ now, a ≠ .boot now) (hs : step cfg fromStr s a = some t) :
    Recorded v t (h ++ history cfg fromStr s a) := by
  have htable (p : String) := live_later (step_clock hs) (hr.table p)
  have hstep := history_step hr.orderly hb hs
  have horder := orderly_step hr.orderly hs hb
  generalize history cfg fromStr s a = added at hstep ⊢
  have split (p : String) (x : Entry ClaimEvent) :
      onPath p (h ++ [x]) = onPath p h ++ if x.event.path = p then [x] else [] := by
    rw [onPath, List.filter_append]
    by_cases hx : x.event.path = p <;> simp [onPath, hx]
  cases hstep with
  | quiet hlive hout =>
    rw [List.append_nil]
    exact ⟨horder, fun p => (hlive p).trans (htable p), fun p => (hout p) ▸ hr.count p,
      hr.evicting⟩
  | @updated early e hlive hearly hout =>
    refine ⟨horder, fun p => ?_, fun p => ?_, fun x hx => ?_⟩
    · rw [hlive p, split]
      by_cases he : e.path = p
      · subst he
        simp only [Entry.event, ↓reduceIte, due_append, ClaimEvent.apply]
        rw [List.foldl_append]
        exact live_applyCell (htable _) e
      · simp only [Entry.event, he, ↓reduceIte, List.append_nil, ClaimEvent.apply, Ne.symm he]
        exact htable p
    · rw [hout p, split]
      have hc := hr.count p
      by_cases he : e.path = p
      · simp only [Entry.event, he, ↓reduceIte, due_append, toldEvents_append, due_updated,
          toldEvents_updated, List.length_append, List.length_cons, List.length_nil,
          List.filter_cons, List.filter_nil, decide_true] at hc ⊢
        omega
      · simp only [Entry.event, he, ↓reduceIte, List.append_nil, List.filter_cons,
          List.filter_nil, decide_false, Bool.false_eq_true, List.length_nil] at hc ⊢
        exact hc
    · obtain hx | hx := List.mem_append.mp hx
      · exact hr.evicting x hx
      · cases List.mem_singleton.mp hx
        intro early' e' he
        cases he
        exact hearly
  | @told e hlive hout =>
    refine ⟨horder, fun p => ?_, fun p => ?_, fun x hx => ?_⟩
    · rw [hlive p, split]
      by_cases he : e.path = p
      · simp only [Entry.event, he, ↓reduceIte, due_append]
        rw [List.foldl_append]
        exact htable p
      · simp only [Entry.event, he, ↓reduceIte, List.append_nil]
        exact htable p
    · have hc := hr.count p
      have ho := hout p
      rw [split]
      by_cases he : e.path = p
      · simp only [Entry.event, he, ↓reduceIte, due_append, toldEvents_append, due_told,
          toldEvents_told, List.length_append, List.length_cons, List.length_nil,
          List.filter_cons, List.filter_nil, decide_true] at hc ho ⊢
        omega
      · simp only [Entry.event, he, ↓reduceIte, List.append_nil, List.filter_cons,
          List.filter_nil, decide_false, Bool.false_eq_true, List.length_nil] at hc ho ⊢
        omega
    · obtain hx | hx := List.mem_append.mp hx
      · exact hr.evicting x hx
      · cases List.mem_singleton.mp hx
        exact fun early' e' he => nomatch he

theorem recorded_run {v : String → Cell} {as : List Action} (hr : Recorded v s [])
    (hb : ∀ a ∈ as, ∀ now, a ≠ .boot now) (ht : run (step cfg fromStr) s as = some t) :
    Recorded v t (trace (step cfg fromStr) (history cfg fromStr) s as) := by
  have := run_trace_invariant (I := fun s h => Recorded v s h)
    (P := fun _ a => ∀ now, a ≠ .boot now) (fun s a t h hr hb hs => recorded_step hr hb hs)
    (along_of_forall s hb) ht hr
  rwa [List.nil_append] at this

/-- No task is between its table update and its broadcast. -/
def Quiescent (s : Daemon) : Prop := ∀ k ∈ s.conns, ∀ m, .broadcast m ∉ k.pending

theorem outstanding_quiescent (hq : Quiescent s) (p : String) : outstanding s.conns p = 0 := by
  have hnone : ∀ k ∈ s.conns, pendingEvents k.pending = [] := by
    intro k hk
    rw [pendingEvents, List.filterMap_eq_nil_iff]
    intro e he
    cases e with
    | broadcast m => exact absurd he (hq k hk m)
    | _ => rfl
  have hsum : s.conns.map (fun k =>
      ((pendingEvents k.pending).filter (fun e => e.path = p)).length) = s.conns.map (fun _ => 0) :=
    List.map_congr_left (fun k hk => by rw [hnone k hk]; rfl)
  rw [outstanding, hsum]
  simp

/-- In every run of a daemon that tells the events of each path in the order of their table
updates, the replayed messages and the table agree on the unexpired holders whenever no
event is outstanding. -/
theorem replay_agrees_of_in_order (cfg : Config) (fromStr : String → Option ClientMessage)
    (file : DurableState) (hfile : Keyed file.claims) (log : List BroadcastMsg) (now : Nat)
    (as : List Action) (t : Daemon) (hb : ∀ a ∈ as, ∀ now, a ≠ .boot now)
    (ht : run (step cfg fromStr) (start file log now) as = some t)
    (horder : ∀ p, InOrder (onPath p
      (trace (step cfg fromStr) (history cfg fromStr) (start file log now) as)))
    (hq : Quiescent t) (p : String) :
    live t.clock (replay ClaimEvent.apply (cell (start file log now).bus)
      (trace (step cfg fromStr) (history cfg fromStr) (start file log now) as) p) =
      live t.clock (cell t.bus p) := by
  have hr : Recorded (cell (start file log now).bus) (start file log now) [] :=
    ⟨⟨@Keyed.prune (.fromDurable file) hfile now, fun c k hk => by cases hk⟩,
      fun p => rfl, fun p => rfl, fun x hx => by cases hx⟩
  have ht := recorded_run hr hb ht
  rw [replay_onPath ht.evicting, ht.table p]
  congr 1
  refine replay_eq_of_told (horder p) ?_ ?_ _
  · intro early e hm
    obtain he | ⟨sid, sid', ttl, _, he⟩ :=
      ht.evicting _ (List.mem_of_mem_filter hm) early e rfl
    · exact Or.inl he
    · refine Or.inr (fun v w => ?_)
      rw [he]
      rfl
  · rw [ht.count p, outstanding_quiescent hq, Nat.add_zero]

theorem quiescent_of_idle (h : s.conns.all (fun k => k.pending.isEmpty) = true) :
    Quiescent s := by
  intro k hk m hm
  have hnil := List.isEmpty_iff.mp (List.all_eq_true.mp h k hk)
  rw [hnil] at hm
  cases hm

theorem inOrder_onPath {q : String} {h : List (Entry ClaimEvent)}
    (hq : ∀ x ∈ h, x.event.path = q) (ho : InOrder h) (p : String) : InOrder (onPath p h) := by
  by_cases hp : p = q
  · subst hp
    rwa [onPath, List.filter_eq_self.mpr (fun x hx => by simpa using hq x hx)]
  · rw [onPath, List.filter_eq_nil_iff.mpr (fun x hx => by simp [hq x hx, Ne.symm hp])]
    decide

def rivalLines : String → Option ClientMessage :=
  decodeFrom [(announceLine "s1", .announce "s1" 7 "/" "" none),
    (announceLine "s2", .announce "s2" 7 "/" "" none),
    (acquireLine, .claimAcquire "/x" 100 "" false), (forceLine, .claimAcquire "/x" 100 "" true)]

def rivalConfig : Config := ⟨60, 1024, 3000, false, "carbon"⟩

def rivalActions : List Action :=
  [.connect, .connect, .line 0 (announceLine "s1") 1, .proceed 0 1 true,
    .line 1 (announceLine "s2") 1, .proceed 1 1 true]

theorem replay_agrees_after_force :
    ∃ t, run (step rivalConfig rivalLines) (start .default [] 0) (rivalActions ++
        [.line 0 acquireLine 2, .proceed 0 2 true, .proceed 0 2 true, .proceed 0 2 true,
          .line 1 forceLine 3, .proceed 1 3 true, .proceed 1 3 true, .proceed 1 3 true]) =
        some t ∧
      live t.clock (replay ClaimEvent.apply (cell (start .default [] 0).bus)
        [.updated [] (.acquire "/x" "s1" 100), .told (.acquire "/x" "s1" 100),
          .updated [.release "/x" "s1"] (.acquire "/x" "s2" 100),
          .told (.acquire "/x" "s2" 100)] "/x") = live t.clock (cell t.bus "/x") := by
  let as : List Action := rivalActions ++ [.line 0 acquireLine 2, .proceed 0 2 true,
    .proceed 0 2 true, .proceed 0 2 true, .line 1 forceLine 3, .proceed 1 3 true,
    .proceed 1 3 true, .proceed 1 3 true]
  obtain ⟨hr, hh⟩ : (run (step rivalConfig rivalLines) (start .default [] 0) as).map
        (fun t => t.conns.all (fun k => k.pending.isEmpty)) = some true ∧
      trace (step rivalConfig rivalLines) (history rivalConfig rivalLines)
        (start .default [] 0) as = [.updated [] (.acquire "/x" "s1" 100),
          .told (.acquire "/x" "s1" 100), .updated [.release "/x" "s1"] (.acquire "/x" "s2" 100),
          .told (.acquire "/x" "s2" 100)] := by decide +kernel
  obtain ⟨t, ht, hidle⟩ := Option.map_eq_some_iff.mp hr
  refine ⟨t, ht, ?_⟩
  have hkeyed : Keyed DurableState.default.claims := fun p c hc => (by cases hc)
  have hagree := replay_agrees_of_in_order rivalConfig rivalLines .default hkeyed [] 0 as t
    (by simp [as, rivalActions]) ht (fun p => ?_) (quiescent_of_idle hidle) "/x"
  · rwa [hh] at hagree
  · rw [hh]
    exact inOrder_onPath (q := "/x") (by decide) (by decide) p

/-- `s2` takes the path by force and tells of it before `s1` tells of the claim it has lost: the
messages end with `s1` as the holder. -/
theorem overtaken_event_misleads :
    ¬ ∀ (cfg : Config) (fromStr : String → Option ClientMessage) (as : List Action) (t : Daemon)
      (p : String), run (step cfg fromStr) (start .default [] 0) as = some t → Quiescent t →
      live t.clock (replay ClaimEvent.apply (fun _ => none)
        (trace (step cfg fromStr) (history cfg fromStr) (start .default [] 0) as) p) =
        live t.clock (cell t.bus p) := by
  intro h
  let as : List Action := rivalActions ++ [.line 0 acquireLine 2, .proceed 0 2 true,
    .line 1 forceLine 2, .proceed 1 2 true, .proceed 1 2 true, .proceed 1 2 true,
    .proceed 0 2 true, .proceed 0 2 true]
  have hr : (run (step rivalConfig rivalLines) (start .default [] 0) as).map
      (fun t => (t.conns.all (fun k => k.pending.isEmpty), live t.clock (cell t.bus "/x"),
        live t.clock (replay ClaimEvent.apply (fun _ => none) (trace (step rivalConfig rivalLines)
          (history rivalConfig rivalLines) (start .default [] 0) as) "/x"))) =
      some (true, some ("s2", 100), some ("s1", 100)) := by decide +kernel
  obtain ⟨t, ht, hq⟩ := Option.map_eq_some_iff.mp hr
  simp only [Prod.mk.injEq] at hq
  have hagree := h rivalConfig rivalLines as t "/x" ht (quiescent_of_idle hq.1)
  rw [hq.2.1, hq.2.2] at hagree
  exact absurd hagree (by decide)

end Agorabus.ClaimEvents
