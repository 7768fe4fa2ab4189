import Agorabus.Daemon
import Agorabus.Transaction

namespace Agorabus

/-- What a message of an announced session does under the lock. A publish
touches the record later, after its broadcast. -/
def ClientMessage.transaction (cfg : Config) (sid : String) : ClientMessage → Option Transaction
  | .update cwd intent => some (.update sid cwd intent)
  | .heartbeat tool skill prdSlug workingPaths =>
      if workingPaths.any (fun ps => decide (maxWorkingPaths < ps.length)) then none
      else some (.heartbeat sid tool skill prdSlug workingPaths)
  | .peers => some (.peers cfg.heartbeatTimeoutSecs)
  | .claimAcquire path ttl reason force => some (.claimAcquire sid path ttl reason force)
  | .claimRelease path => some (.claimRelease sid path)
  | .claimList => some .claimList
  | .announce .. | .publish .. | .subscribe .. | .uplinkStatus => none

/-- Steps of the clock, the persist task, the presence snapshot and the shutdown
sequence, which touch neither the bus nor a connection nor the broadcast channel. -/
def Action.internal : Action → Bool
  | .connect | .line .. | .hangup _ | .event _ | .drain _ | .proceed .. | .abort _
  | .uplinkInbound .. | .presenceSend _ | .boot _ => false
  | _ => true

def Action.conn : Action → Option Nat
  | .line c _ _ | .hangup c | .event c | .drain c | .proceed c _ _ | .abort c => some c
  | _ => none

def Action.time : Action → Nat
  | .line _ _ now | .proceed _ now _ => now
  | _ => 0

namespace ClientMessage

variable {cfg : Config} {m : ClientMessage} {sid sid' path : String}

theorem transaction_claimAcquire {reason : String} {ttl : Nat} {force : Bool}
    (h : m.transaction cfg sid = some (.claimAcquire sid' path ttl reason force)) :
    sid' = sid ∧ m = .claimAcquire path ttl reason force := by
  cases m with
  | claimAcquire path' ttl' reason' force' =>
    cases h
    exact ⟨rfl, rfl⟩
  | heartbeat tool skill prdSlug paths =>
    simp only [transaction] at h
    split at h <;> cases h
  | _ => cases h

theorem transaction_claimRelease (h : m.transaction cfg sid = some (.claimRelease sid' path)) :
    sid' = sid ∧ m = .claimRelease path := by
  cases m with
  | claimRelease path' =>
    cases h
    exact ⟨rfl, rfl⟩
  | heartbeat tool skill prdSlug paths =>
    simp only [transaction] at h
    split at h <;> cases h
  | _ => cases h

theorem transaction_peers {timeout : Nat} (h : m.transaction cfg sid = some (.peers timeout)) :
    timeout = cfg.heartbeatTimeoutSecs ∧ m = .peers := by
  cases m with
  | peers =>
    cases h
    exact ⟨rfl, rfl⟩
  | heartbeat tool skill prdSlug paths =>
    simp only [transaction] at h
    split at h <;> cases h
  | _ => cases h

theorem transaction_heartbeat {tool : String} {skill prdSlug : Option String}
    {paths : Option (List String)}
    (h : m.transaction cfg sid = some (.heartbeat sid' tool skill prdSlug paths)) :
    sid' = sid ∧ m = .heartbeat tool skill prdSlug paths ∧
      ∀ ps, paths = some ps → ps.length ≤ maxWorkingPaths := by
  cases m with
  | heartbeat tool' skill' prdSlug' paths' =>
    simp only [transaction] at h
    split at h
    · cases h
    · rename_i hle
      cases h
      refine ⟨rfl, rfl, ?_⟩
      rintro ps rfl
      simpa using hle
  | _ => cases h

end ClientMessage

theorem Conn.idle_iff {k : Conn} : k.idle = true ↔ k.status = .running ∧ k.pending = [] := by
  simp [Conn.idle]

namespace Daemon

def request (fromStr : String → Option ClientMessage) (s : Daemon) :
    Action → Option (Option String × ClientMessage)
  | .line c text _ => do
      let k ← s.conns[c]?
      let msg ← if (trim text).isEmpty then none else fromStr (trim text)
      some (k.sessionId, msg)
  | _ => none

/-- The connection whose handler the step makes return through a failed `?`,
past the cleanup that stands after its loop. -/
def leavesEarly (s : Daemon) : Action → Option Nat
  | .proceed c _ ok => do
      let k ← s.conns[c]?
      match k.pending with
      | .bail :: _ => some c
      | .write _ :: _ => if ok then none else some c
      | _ => none
  | _ => none

def transaction (cfg : Config) (fromStr : String → Option ClientMessage) (s : Daemon)
    (a : Action) : Option Transaction :=
  match a with
  | .line c _ _ =>
      match s.request fromStr a with
      | some (none, .announce sid pid cwd intent node) =>
          some (.announce c sid pid cwd intent node)
      | some (some sid, msg) => msg.transaction cfg sid
      | _ => none
  | .proceed c _ _ => do
      let k ← s.conns[c]?
      match k.pending with
      | .touch sid :: _ => some (.touch sid)
      | .cleanup :: _ => k.sessionId.map (.disconnect c)
      | _ => none
  | _ => none

/-- The messages a step puts on the broadcast channel. -/
def sends (cfg : Config) (fromStr : String → Option ClientMessage) (s : Daemon) :
    Action → List BroadcastMsg
  | .line c text now =>
      match s.conns[c]? with
      | some k => (handleLine cfg fromStr k c s.bus s.uplinkStatus s.log.length now text).sent
      | none => []
  | .proceed c _ _ =>
      match s.conns[c]? with
      | some k => match k.pending with
        | .broadcast m :: _ => [m]
        | _ => []
      | none => []
  | .uplinkInbound topic data origin => [⟨topic, data, "uplink:" ++ origin, true⟩]
  | .presenceSend now => (s.presence.head?.map (fun p => presenceMsg cfg p now)).toList
  | _ => []

variable {cfg : Config} {fromStr : String → Option ClientMessage} {s t : Daemon}

section Cases

-- The equations of `step` are made here, and not in each of the proofs.
attribute [local simp] step

theorem step_line {c now : Nat} {text : String} :
    step cfg fromStr s (.line c text now) = some t ↔
      ∃ k, s.conns[c]? = some k ∧ (k.idle ∧ s.clock ≤ now) ∧
        s.takeLine cfg fromStr c k text now = t := by
  simp [step, Option.bind_eq_some_iff]

theorem step_proceed {c now : Nat} {ok : Bool} :
    step cfg fromStr s (.proceed c now ok) = some t ↔
      ∃ k e es, s.conns[c]? = some k ∧ k.pending = e :: es ∧
        (k.status = .running ∧ s.clock ≤ now) ∧
        { s with clock := now }.perform c { k with pending := es } now ok e = t := by
  simp only [step, Option.bind_eq_bind, Option.bind_eq_some_iff]
  constructor
  · rintro ⟨k, hk, h⟩
    cases hp : k.pending with
    | nil => simp [hp] at h
    | cons e es =>
      simp only [hp, Option.ite_none_right_eq_some, Option.some.injEq] at h
      exact ⟨k, e, es, hk, hp, h.1, h.2⟩
  · rintro ⟨k, e, es, hk, hp, hg, h⟩
    refine ⟨k, hk, ?_⟩
    rw [hp]
    simp only [Option.ite_none_right_eq_some, Option.some.injEq]
    exact ⟨hg, h⟩

theorem step_hangup {c : Nat} :
    step cfg fromStr s (.hangup c) = some t ↔
      ∃ k, s.conns[c]? = some k ∧ k.idle ∧ s.setConn c { k with pending := [.cleanup] } = t := by
  simp [step, Option.bind_eq_some_iff]

theorem step_event {c : Nat} :
    step cfg fromStr s (.event c) = some t ↔
      ∃ k rx, s.conns[c]? = some k ∧ k.bcastRx = some rx ∧ k.idle ∧
        s.takeEvent cfg c k rx = some t := by
  simp [step, Option.bind_eq_some_iff]

theorem step_drain {c : Nat} :
    step cfg fromStr s (.drain c) = some t ↔
      ∃ k, s.conns[c]? = some k ∧ (s.main = .draining ∨ s.main = .aborting) ∧ k.idle ∧
        s.setConn c { k with pending := (k.bcastRx.map (fun _ =>
          Effect.writeNotice (.new cfg.drainResumeHintMs))).toList ++ [.cleanup] } = t := by
  cases hm : s.main <;> simp [step, hm, Option.bind_eq_some_iff]

theorem step_abort {c : Nat} :
    step cfg fromStr s (.abort c) = some t ↔
      ∃ k, s.conns[c]? = some k ∧ s.main = .aborting ∧ (k.status = .running ∧ k.atAwait) ∧
        s.setConn c { k with status := .aborted, pending := [] } = t := by
  cases hm : s.main <;> simp [step, hm, Option.bind_eq_some_iff]

theorem step_boot {now : Nat} :
    step cfg fromStr s (.boot now) = some t ↔
      s.main = .stopped ∧ s.clock ≤ now ∧ start s.file s.log now = t := by
  cases hm : s.main <;> simp [step, hm]

theorem step_connect :
    step cfg fromStr s .connect = some t ↔
      s.main.isServing ∧ { s with conns := s.conns ++ [.fresh] } = t := by
  simp [step]

theorem step_uplinkInbound {topic origin : String} {data : Json} :
    step cfg fromStr s (.uplinkInbound topic data origin) = some t ↔
      (cfg.uplinkEnabled ∧ s.main.uplinkAlive) ∧
        { s with log := s.log ++ [⟨topic, data, "uplink:" ++ origin, true⟩] } = t := by
  simp [step]

theorem step_presenceSend {now : Nat} :
    step cfg fromStr s (.presenceSend now) = some t ↔
      ∃ p ps, s.presence = p :: ps ∧ s.clock ≤ now ∧
        { s with clock := now, presence := ps, log := s.log ++ [presenceMsg cfg p now] } = t := by
  cases hp : s.presence <;> simp [step, hp]

theorem step_tick {now : Nat} :
    step cfg fromStr s (.tick now) = some t ↔ s.clock ≤ now ∧ { s with clock := now } = t := by
  simp [step]

theorem step_uplinkEvent {st : UplinkStatus} :
    step cfg fromStr s (.uplinkEvent st) = some t ↔
      (cfg.uplinkEnabled ∧ s.main.uplinkAlive) ∧ { s with uplinkStatus := st } = t := by
  simp [step]

theorem step_presenceTick :
    step cfg fromStr s .presenceTick = some t ↔
      (cfg.uplinkEnabled ∧ s.main.uplinkAlive ∧ s.presence.isEmpty) ∧
        { s with presence := s.bus.peers.values } = t := by
  simp [step]

theorem step_persistRecv :
    step cfg fromStr s .persistRecv = some t ↔ s.persist = .waiting ∧ 0 < s.signals ∧
      { s with signals := s.signals - 1, persist := .sleeping } = t := by
  cases hp : s.persist <;> simp [step, hp]

theorem step_persistWake :
    step cfg fromStr s .persistWake = some t ↔
      s.persist = .sleeping ∧ { s with persist := .draining } = t := by
  cases hp : s.persist <;> simp [step, hp]

theorem step_persistTryRecv :
    step cfg fromStr s .persistTryRecv = some t ↔ s.persist = .draining ∧
      (if 0 < s.signals then { s with signals := s.signals - 1 }
        else { s with persist := .locking }) = t := by
  cases hp : s.persist <;> simp [step, hp]
  split <;> simp

theorem step_persistSnapshot :
    step cfg fromStr s .persistSnapshot = some t ↔
      s.persist = .locking ∧ { s with persist := .saving s.bus.toDurable } = t := by
  cases hp : s.persist <;> simp [step, hp]

theorem step_persistSave {ok : Bool} :
    step cfg fromStr s (.persistSave ok) = some t ↔ ∃ d, s.persist = .saving d ∧
      { s with persist := .waiting, file := if ok then d else s.file } = t := by
  cases hp : s.persist <;> simp [step, hp]

theorem step_persistExit :
    step cfg fromStr s .persistExit = some t ↔
      s.main = .closing ∧ s.persist = .waiting ∧ s.signals = 0 ∧
        { s with persist := .done } = t := by
  cases hm : s.main <;> cases hp : s.persist <;> simp [step, hm, hp]

theorem step_shutdown :
    step cfg fromStr s .shutdown = some t ↔
      s.main = .serving ∧ { s with main := .draining } = t := by
  cases hm : s.main <;> simp [step, hm]

theorem step_graceOver :
    step cfg fromStr s .graceOver = some t ↔
      s.main = .draining ∧ { s with main := .aborting } = t := by
  cases hm : s.main <;> simp [step, hm]

theorem step_finalSnapshot :
    step cfg fromStr s .finalSnapshot = some t ↔
      s.main = .aborting ∧ (∀ k ∈ s.conns, k.status ≠ .running) ∧ s.presence = [] ∧
        { s with main := .flushing s.bus.toDurable } = t := by
  cases hm : s.main <;> simp [step, hm, and_assoc]

theorem step_finalSave {ok : Bool} :
    step cfg fromStr s (.finalSave ok) = some t ↔ ∃ d, s.main = .flushing d ∧
      { s with main := .closing, file := if ok then d else s.file } = t := by
  cases hm : s.main <;> simp [step, hm]

theorem step_finish :
    step cfg fromStr s .finish = some t ↔
      s.main = .closing ∧ s.persist = .done ∧ { s with main := .stopped } = t := by
  cases hm : s.main <;> cases hp : s.persist <;> simp [step, hm, hp]

end Cases

theorem takeEvent_cases {c rx : Nat} {k : Conn} (h : s.takeEvent cfg c k rx = some t) :
    ∃ rx' es, s.setConn c { k with bcastRx := some rx', pending := es } = t ∧
      (es = k.pending ∨ es = [] ∨ ∃ ev, es = [.write (.event ev)]) := by
  unfold takeEvent at h
  split at h
  · exact ⟨_, _, Option.some.inj h, Or.inl rfl⟩
  · obtain ⟨m, _, ht⟩ := Option.map_eq_some_iff.mp h
    refine ⟨_, _, ht, Or.inr ?_⟩
    split
    · exact Or.inr ⟨_, rfl⟩
    · exact Or.inl rfl

@[simp] theorem setConn_bus (c : Nat) (k : Conn) : (s.setConn c k).bus = s.bus := rfl

theorem perform_clock (c now : Nat) (k : Conn) (ok : Bool) (e : Effect) :
    (s.perform c k now ok e).clock = s.clock := by
  cases e with
  | write l => cases ok <;> rfl
  | _ => rfl

theorem perform_bus (c now : Nat) (k : Conn) (ok : Bool) (e : Effect) :
    (s.perform c k now ok e).bus = s.bus.commit now (match e with
      | .touch sid => some (.touch sid)
      | .cleanup => k.sessionId.map (.disconnect c)
      | _ => none) := by
  cases e with
  | write l => cases ok <;> rfl
  | cleanup => cases hs : k.sessionId <;> simp [perform, hs, BusState.commit, Transaction.apply]
  | _ => rfl

theorem handleMessage_bus (k : Conn) (sid : String) (bus : BusState) (uplink : UplinkStatus)
    (sent now : Nat) (msg : ClientMessage) :
    (handleMessage cfg k sid bus uplink sent now msg).bus =
      bus.commit now (msg.transaction cfg sid) := by
  cases msg with
  | heartbeat tool skill prdSlug paths =>
    simp only [handleMessage, ClientMessage.transaction]
    split <;> rfl
  | claimAcquire path ttl reason force =>
    simp only [handleMessage, ClientMessage.transaction, BusState.commit, Transaction.apply]
    split
    · rename_i h; rw [h]; rfl
    · rename_i h; rw [h]
  | _ => rfl

theorem takeLine_bus {c now : Nat} {text : String} {k : Conn} (hk : s.conns[c]? = some k) :
    (s.takeLine cfg fromStr c k text now).bus =
      s.bus.commit now (s.transaction cfg fromStr (.line c text now)) := by
  simp only [takeLine, handleLine, transaction, request, hk, Option.bind_eq_bind,
    Option.bind_some]
  by_cases ht : (trim text).isEmpty
  · simp [ht, BusState.commit]
  · cases hm : fromStr (trim text) with
    | none => simp [ht, BusState.commit]
    | some msg =>
      cases hsid : k.sessionId with
      | none => cases msg <;> simp [ht, handleFirst, answer, BusState.commit, Transaction.apply]
      | some sid => simp [ht, handleMessage_bus]

theorem step_internal {a : Action} (h : step cfg fromStr s a = some t) (ha : a.internal) :
    t.bus = s.bus ∧ t.log = s.log ∧ t.conns = s.conns ∧ s.clock ≤ t.clock := by
  cases a <;> simp only [Action.internal, Bool.false_eq_true] at ha <;> simp only [step] at h
  all_goals
    (repeat' split at h) <;> cases h
  all_goals exact ⟨rfl, rfl, rfl, by first | exact Nat.le_refl _ | assumption⟩

theorem step_clock {a : Action} (h : step cfg fromStr s a = some t) : s.clock ≤ t.clock := by
  by_cases hi : a.internal
  · exact (step_internal h hi).2.2.2
  cases a with
  | connect =>
    obtain ⟨_, rfl⟩ := step_connect.mp h
    exact Nat.le_refl _
  | line c text now =>
    obtain ⟨k, _, ⟨_, hn⟩, rfl⟩ := step_line.mp h
    exact hn
  | hangup c =>
    obtain ⟨k, _, _, rfl⟩ := step_hangup.mp h
    exact Nat.le_refl _
  | event c =>
    obtain ⟨k, rx, _, _, _, he⟩ := step_event.mp h
    obtain ⟨_, _, rfl, _⟩ := takeEvent_cases he
    exact Nat.le_refl _
  | drain c =>
    obtain ⟨k, _, _, _, rfl⟩ := step_drain.mp h
    exact Nat.le_refl _
  | proceed c now ok =>
    obtain ⟨k, e, es, _, _, ⟨_, hn⟩, rfl⟩ := step_proceed.mp h
    rw [perform_clock]
    exact hn
  | abort c =>
    obtain ⟨k, _, _, _, rfl⟩ := step_abort.mp h
    exact Nat.le_refl _
  | uplinkInbound topic data origin =>
    obtain ⟨_, rfl⟩ := step_uplinkInbound.mp h
    exact Nat.le_refl _
  | presenceSend now =>
    obtain ⟨p, ps, _, hn, rfl⟩ := step_presenceSend.mp h
    exact hn
  | boot now =>
    obtain ⟨_, hn, rfl⟩ := step_boot.mp h
    exact hn
  | _ => simp [Action.internal] at hi

theorem run_clock {as : List Action} (h : StepSystem.run (step cfg fromStr) s as = some t) :
    s.clock ≤ t.clock :=
  StepSystem.run_invariant (I := fun u => s.clock ≤ u.clock)
    (fun _ _ _ hu h => hu.trans (step_clock h)) h (Nat.le_refl _)

theorem step_request {c now : Nat} {text : String} {o : Option String} {msg : ClientMessage}
    (h : step cfg fromStr s (.line c text now) = some t)
    (hreq : s.request fromStr (.line c text now) = some (o, msg)) :
    ∃ k, s.conns[c]? = some k ∧ k.idle ∧ k.sessionId = o ∧
      handleLine cfg fromStr k c s.bus s.uplinkStatus s.log.length now text =
        o.elim (handleFirst k c s.bus now msg)
          (fun sid => handleMessage cfg k sid s.bus s.uplinkStatus s.log.length now msg) ∧
      s.takeLine cfg fromStr c k text now = t := by
  obtain ⟨k, hk, ⟨hi, _⟩, ht⟩ := step_line.mp h
  refine ⟨k, hk, hi, ?_⟩
  simp only [request, hk, Option.bind_eq_bind, Option.bind_some] at hreq
  split at hreq
  · cases hreq
  · rename_i he
    obtain ⟨m, hm, hreq⟩ := Option.bind_eq_some_iff.mp hreq
    cases hreq
    refine ⟨rfl, ?_, ht⟩
    simp only [handleLine, he, hm, Bool.false_eq_true, ↓reduceIte]
    cases k.sessionId <;> rfl

theorem step_bus {a : Action} (h : step cfg fromStr s a = some t) :
    (∃ now, a = .boot now) ∨ t.bus = s.bus.commit t.clock (s.transaction cfg fromStr a) := by
  by_cases hi : a.internal
  · refine Or.inr ((step_internal h hi).1.trans ?_)
    cases a <;> first | rfl | simp [Action.internal] at hi
  cases a with
  | connect =>
    obtain ⟨_, rfl⟩ := step_connect.mp h
    exact Or.inr rfl
  | line c text now =>
    obtain ⟨k, hk, _, rfl⟩ := step_line.mp h
    exact Or.inr (takeLine_bus hk)
  | hangup c =>
    obtain ⟨k, _, _, rfl⟩ := step_hangup.mp h
    exact Or.inr rfl
  | event c =>
    obtain ⟨k, rx, _, _, _, he⟩ := step_event.mp h
    obtain ⟨_, _, rfl, _⟩ := takeEvent_cases he
    exact Or.inr rfl
  | drain c =>
    obtain ⟨k, _, _, _, rfl⟩ := step_drain.mp h
    exact Or.inr rfl
  | proceed c now ok =>
    obtain ⟨k, e, es, hk, hp, _, rfl⟩ := step_proceed.mp h
    refine Or.inr ?_
    rw [perform_bus, perform_clock]
    simp only [transaction, hk, hp, Option.bind_eq_bind, Option.bind_some]
    cases e <;> rfl
  | abort c =>
    obtain ⟨k, _, _, _, rfl⟩ := step_abort.mp h
    exact Or.inr rfl
  | uplinkInbound topic data origin =>
    obtain ⟨_, rfl⟩ := step_uplinkInbound.mp h
    exact Or.inr rfl
  | presenceSend now =>
    obtain ⟨p, ps, _, _, rfl⟩ := step_presenceSend.mp h
    exact Or.inr rfl
  | boot now => exact Or.inl ⟨now, rfl⟩
  | _ => simp [Action.internal] at hi

theorem perform_log (c now : Nat) (k : Conn) (ok : Bool) (e : Effect) :
    (s.perform c k now ok e).log = s.log ++ (match e with
      | .broadcast m => [m]
      | _ => []) := by
  cases e with
  | write l => cases ok <;> exact (List.append_nil _).symm
  | broadcast m => rfl
  | _ => exact (List.append_nil _).symm

theorem step_log {a : Action} (h : step cfg fromStr s a = some t) :
    t.log = s.log ++ s.sends cfg fromStr a := by
  by_cases hi : a.internal
  · rw [(step_internal h hi).2.1]
    cases a <;> first | exact (List.append_nil _).symm | simp [Action.internal] at hi
  cases a with
  | connect =>
    obtain ⟨_, rfl⟩ := step_connect.mp h
    exact (List.append_nil _).symm
  | line c text now =>
    obtain ⟨k, hk, _, rfl⟩ := step_line.mp h
    simp only [sends, hk]
    rfl
  | hangup c =>
    obtain ⟨k, _, _, rfl⟩ := step_hangup.mp h
    exact (List.append_nil _).symm
  | event c =>
    obtain ⟨k, rx, _, _, _, he⟩ := step_event.mp h
    obtain ⟨_, _, rfl, _⟩ := takeEvent_cases he
    exact (List.append_nil _).symm
  | drain c =>
    obtain ⟨k, _, _, _, rfl⟩ := step_drain.mp h
    exact (List.append_nil _).symm
  | proceed c now ok =>
    obtain ⟨k, e, es, hk, hp, _, rfl⟩ := step_proceed.mp h
    rw [perform_log]
    simp only [sends, hk, hp]
    cases e <;> rfl
  | abort c =>
    obtain ⟨k, _, _, _, rfl⟩ := step_abort.mp h
    exact (List.append_nil _).symm
  | uplinkInbound topic data origin =>
    obtain ⟨_, rfl⟩ := step_uplinkInbound.mp h
    rfl
  | presenceSend now =>
    obtain ⟨p, ps, hp, _, rfl⟩ := step_presenceSend.mp h
    simp [sends, hp]
  | boot now =>
    obtain ⟨_, _, rfl⟩ := step_boot.mp h
    exact (List.append_nil _).symm
  | _ => simp [Action.internal] at hi

theorem log_grows {a : Action} (h : step cfg fromStr s a = some t) : s.log <+: t.log := by
  rw [step_log h]
  exact List.prefix_append _ _

theorem run_log {as : List Action} (h : StepSystem.run (step cfg fromStr) s as = some t) :
    s.log <+: t.log :=
  StepSystem.run_invariant (I := fun u : Daemon => s.log <+: u.log)
    (fun _ _ _ hu h => hu.trans (log_grows h)) h (List.prefix_refl _)

theorem perform_conns (c now : Nat) (k : Conn) (ok : Bool) (e : Effect) :
    (s.perform c k now ok e).conns = s.conns.set c (match e with
      | .write l => if ok then { k with written := k.written ++ [l] }
          else { k with status := .returned, pending := [] }
      | .writeNotice n => if ok then { k with written := k.written ++ [.notice n] } else k
      | .bail => { k with status := .returned, pending := [] }
      | .cleanup => { k with status := .returned }
      | _ => k) := by
  cases e with
  | write l => cases ok <;> rfl
  | _ => rfl

theorem step_conn_ne {a : Action} (h : step cfg fromStr s a = some t) {c : Nat}
    (hb : ∀ now, a ≠ .boot now) (hc : a.conn ≠ some c) :
    t.conns[c]? = s.conns[c]? ∨ (s.conns[c]? = none ∧ t.conns[c]? = some .fresh) := by
  by_cases hi : a.internal
  · exact Or.inl (by rw [(step_internal h hi).2.2.1])
  cases a with
  | connect =>
    obtain ⟨_, rfl⟩ := step_connect.mp h
    by_cases hl : c < s.conns.length
    · exact Or.inl (List.getElem?_append_left hl)
    · have hn : s.conns[c]? = none := List.getElem?_eq_none (by omega)
      dsimp only
      rw [List.getElem?_append_right (by omega), hn]
      by_cases he : c - s.conns.length = 0
      · exact Or.inr ⟨rfl, by rw [he]; rfl⟩
      · exact Or.inl (List.getElem?_eq_none (by simp; omega))
  | line d text now =>
    obtain ⟨k, _, _, rfl⟩ := step_line.mp h
    exact Or.inl (List.getElem?_set_ne (by simpa [Action.conn] using hc))
  | hangup d =>
    obtain ⟨k, _, _, rfl⟩ := step_hangup.mp h
    exact Or.inl (List.getElem?_set_ne (by simpa [Action.conn] using hc))
  | event d =>
    obtain ⟨k, rx, _, _, _, he⟩ := step_event.mp h
    obtain ⟨_, _, rfl, _⟩ := takeEvent_cases he
    exact Or.inl (List.getElem?_set_ne (by simpa [Action.conn] using hc))
  | drain d =>
    obtain ⟨k, _, _, _, rfl⟩ := step_drain.mp h
    exact Or.inl (List.getElem?_set_ne (by simpa [Action.conn] using hc))
  | proceed d now ok =>
    obtain ⟨k, e, es, _, _, _, rfl⟩ := step_proceed.mp h
    rw [perform_conns]
    exact Or.inl (List.getElem?_set_ne (by simpa [Action.conn] using hc))
  | abort d =>
    obtain ⟨k, _, _, _, rfl⟩ := step_abort.mp h
    exact Or.inl (List.getElem?_set_ne (by simpa [Action.conn] using hc))
  | uplinkInbound topic data origin =>
    obtain ⟨_, rfl⟩ := step_uplinkInbound.mp h
    exact Or.inl rfl
  | presenceSend now =>
    obtain ⟨p, ps, _, _, rfl⟩ := step_presenceSend.mp h
    exact Or.inl rfl
  | boot now => exact absurd rfl (hb now)
  | _ => simp [Action.internal] at hi

theorem conn_kept {a : Action} {c : Nat} {k : Conn} (h : step cfg fromStr s a = some t)
    (hb : ∀ now, a ≠ .boot now) (hc : a.conn ≠ some c) (hk : s.conns[c]? = some k) :
    t.conns[c]? = some k := by
  obtain he | ⟨hn, _⟩ := step_conn_ne h hb hc
  · exact he.trans hk
  · rw [hk] at hn
    cases hn

theorem getElem?_set_conn {c : Nat} {k : Conn} (hk : s.conns[c]? = some k) (k' : Conn) :
    (s.conns.set c k')[c]? = some k' := by
  rw [List.getElem?_set_self']
  simp [hk]

theorem step_conn_self {a : Action} {c : Nat} (h : step cfg fromStr s a = some t)
    (hc : a.conn = some c) :
    ∃ k k', s.conns[c]? = some k ∧ t.conns[c]? = some k' ∧ k.status = .running ∧
      (∀ sid, k.sessionId = some sid → k'.sessionId = some sid) ∧
      (k'.status = .returned ↔ s.leavesEarly a = some c ∨
        ∃ now ok es, a = .proceed c now ok ∧ k.pending = .cleanup :: es) := by
  have running {k : Conn} (hi : k.idle = true) : k.status = .running := (Conn.idle_iff.mp hi).1
  cases a with
  | line d text now =>
    cases hc
    obtain ⟨k, hk, ⟨hi, _⟩, rfl⟩ := step_line.mp h
    have hr := handleLine_conn cfg fromStr k c s.bus s.uplinkStatus s.log.length now text
    refine ⟨k, _, hk, getElem?_set_conn hk _, running hi, hr.2.2, ?_⟩
    rw [hr.1, running hi]
    simp [leavesEarly]
  | hangup d =>
    cases hc
    obtain ⟨k, hk, hi, rfl⟩ := step_hangup.mp h
    refine ⟨k, _, hk, getElem?_set_conn hk _, running hi, fun _ he => he, ?_⟩
    simp [running hi, leavesEarly]
  | event d =>
    cases hc
    obtain ⟨k, rx, hk, _, hi, he⟩ := step_event.mp h
    obtain ⟨_, _, rfl, _⟩ := takeEvent_cases he
    refine ⟨k, _, hk, getElem?_set_conn hk _, running hi, fun _ he => he, ?_⟩
    simp [running hi, leavesEarly]
  | drain d =>
    cases hc
    obtain ⟨k, hk, _, hi, rfl⟩ := step_drain.mp h
    refine ⟨k, _, hk, getElem?_set_conn hk _, running hi, fun _ he => he, ?_⟩
    simp [running hi, leavesEarly]
  | proceed d now ok =>
    cases hc
    obtain ⟨k, e, es, hk, hp, ⟨hr, _⟩, rfl⟩ := step_proceed.mp h
    rw [perform_conns]
    refine ⟨k, _, hk, getElem?_set_conn hk _, hr, fun sid he => ?_, ?_⟩
    · cases e <;> first | exact he | (cases ok <;> exact he)
    · cases e <;> cases ok <;> simp [leavesEarly, hk, hp, hr]
  | abort d =>
    cases hc
    obtain ⟨k, hk, _, ⟨hr, _⟩, rfl⟩ := step_abort.mp h
    refine ⟨k, _, hk, getElem?_set_conn hk _, hr, fun _ he => he, ?_⟩
    simp [leavesEarly]
  | _ => simp [Action.conn] at hc

theorem session_kept {a : Action} {c : Nat} {k : Conn} {sid : String}
    (h : step cfg fromStr s a = some t) (hb : ∀ now, a ≠ .boot now) (hk : s.conns[c]? = some k)
    (hs : k.sessionId = some sid) :
    ∃ k' : Conn, t.conns[c]? = some k' ∧ k'.sessionId = some sid := by
  by_cases hc : a.conn = some c
  · obtain ⟨k₀, k', hk₀, hk', _, hsess, _⟩ := step_conn_self h hc
    obtain rfl : k = k₀ := Option.some.inj (hk.symm.trans hk₀)
    exact ⟨k', hk', hsess sid hs⟩
  · exact ⟨k, conn_kept h hb hc hk, hs⟩

def Conn.performed (k : Conn) (ok : Bool) : Effect → Conn
  | .write l =>
      if ok then { k with written := k.written ++ [l] }
      else { k with status := .returned, pending := [] }
  | .writeNotice n => if ok then { k with written := k.written ++ [.notice n] } else k
  | .bail => { k with status := .returned, pending := [] }
  | .cleanup => { k with status := .returned }
  | _ => k

@[simp] theorem performed_sessionId (k : Conn) (ok : Bool) (e : Effect) :
    (Conn.performed k ok e).sessionId = k.sessionId := by
  cases e <;> cases ok <;> rfl

@[simp] theorem performed_bcastRx (k : Conn) (ok : Bool) (e : Effect) :
    (Conn.performed k ok e).bcastRx = k.bcastRx := by
  cases e <;> cases ok <;> rfl

@[simp] theorem performed_subscribedPrefixes (k : Conn) (ok : Bool) (e : Effect) :
    (Conn.performed k ok e).subscribedPrefixes = k.subscribedPrefixes := by
  cases e <;> cases ok <;> rfl

theorem performed_pending {k : Conn} {ok : Bool} {e f : Effect}
    (hf : f ∈ (Conn.performed k ok e).pending) : f ∈ k.pending := by
  cases e with
  | bail => cases hf
  | write l =>
    cases ok with
    | true => exact hf
    | false => cases hf
  | writeNotice n => cases ok <;> exact hf
  | _ => exact hf

theorem perform_performed (s : Daemon) (c now : Nat) (k : Conn) (ok : Bool) (e : Effect) :
    (s.perform c k now ok e).conns = s.conns.set c (Conn.performed k ok e) := by
  rw [perform_conns]
  cases e <;> rfl

inductive ConnStep (cfg : Config) (fromStr : String → Option ClientMessage) (s : Daemon) (c : Nat)
    (k : Conn) : Action → Conn → Prop
  | other {a : Action} (ha : a.conn ≠ some c) : ConnStep cfg fromStr s c k a k
  | line {text : String} {now : Nat} (hi : k.idle) :
      ConnStep cfg fromStr s c k (.line c text now)
        (handleLine cfg fromStr k c s.bus s.uplinkStatus s.log.length now text).conn
  | hangup (hi : k.idle) : ConnStep cfg fromStr s c k (.hangup c) { k with pending := [.cleanup] }
  | lag {rx : Nat} (hi : k.idle) (hrx : k.bcastRx = some rx)
      (hlag : cfg.broadcastCapacity.nextPowerOfTwo < s.log.length - rx) :
      ConnStep cfg fromStr s c k (.event c)
        { k with bcastRx := some (s.log.length - cfg.broadcastCapacity.nextPowerOfTwo) }
  | event {rx : Nat} {m : BroadcastMsg} (hi : k.idle) (hrx : k.bcastRx = some rx)
      (hup : s.log.length - rx ≤ cfg.broadcastCapacity.nextPowerOfTwo)
      (hm : s.log[rx]? = some m) :
      ConnStep cfg fromStr s c k (.event c)
        { k with
          bcastRx := some (rx + 1)
          pending := if topicMatches k.subscribedPrefixes m.topic
            then [.write (.event m.toEvent)] else [] }
  | drain (hi : k.idle) :
      ConnStep cfg fromStr s c k (.drain c)
        { k with pending := (k.bcastRx.map (fun _ =>
          Effect.writeNotice (.new cfg.drainResumeHintMs))).toList ++ [.cleanup] }
  | proceed {e : Effect} {es : List Effect} {now : Nat} {ok : Bool} (hp : k.pending = e :: es)
      (hr : k.status = .running) :
      ConnStep cfg fromStr s c k (.proceed c now ok) (Conn.performed { k with pending := es } ok e)
  | abort (hr : k.status = .running) (hw : k.atAwait) :
      ConnStep cfg fromStr s c k (.abort c) { k with status := .aborted, pending := [] }

theorem step_task {a : Action} {c : Nat} (h : step cfg fromStr s a = some t)
    (hc : a.conn = some c) : ∃ k k', s.conns[c]? = some k ∧ t.conns = s.conns.set c k' ∧
      ConnStep cfg fromStr s c k a k' := by
  cases a with
  | line d text now =>
    cases hc
    obtain ⟨k, hk, ⟨hi, _⟩, rfl⟩ := step_line.mp h
    exact ⟨k, _, hk, rfl, .line hi⟩
  | hangup d =>
    cases hc
    obtain ⟨k, hk, hi, rfl⟩ := step_hangup.mp h
    exact ⟨k, _, hk, rfl, .hangup hi⟩
  | event d =>
    cases hc
    obtain ⟨k, rx, hk, hrx, hi, he⟩ := step_event.mp h
    unfold takeEvent at he
    split at he
    · rename_i hlag
      cases he
      exact ⟨k, _, hk, rfl, .lag hi hrx hlag⟩
    · rename_i hup
      obtain ⟨m, hm, rfl⟩ := Option.map_eq_some_iff.mp he
      exact ⟨k, _, hk, rfl, .event hi hrx (Nat.not_lt.mp hup) hm⟩
  | drain d =>
    cases hc
    obtain ⟨k, hk, _, hi, rfl⟩ := step_drain.mp h
    exact ⟨k, _, hk, rfl, .drain hi⟩
  | proceed d now ok =>
    cases hc
    obtain ⟨k, e, es, hk, hp, ⟨hr, _⟩, rfl⟩ := step_proceed.mp h
    exact ⟨k, _, hk, perform_performed .., .proceed hp hr⟩
  | abort d =>
    cases hc
    obtain ⟨k, hk, _, ⟨hr, hw⟩, rfl⟩ := step_abort.mp h
    exact ⟨k, _, hk, rfl, .abort hr hw⟩
  | _ => cases hc

theorem step_conn {a : Action} {c : Nat} {k : Conn} (h : step cfg fromStr s a = some t)
    (hb : ∀ now, a ≠ .boot now) (hk : s.conns[c]? = some k) :
    ∃ k', t.conns[c]? = some k' ∧ ConnStep cfg fromStr s c k a k' := by
  by_cases hc : a.conn = some c
  · obtain ⟨k₀, k', hk₀, hconns, hs⟩ := step_task h hc
    obtain rfl : k = k₀ := Option.some.inj (hk.symm.trans hk₀)
    refine ⟨k', ?_, hs⟩
    rw [hconns]
    exact getElem?_set_conn hk k'
  · exact ⟨k, conn_kept h hb hc hk, .other hc⟩

theorem conn_before {a : Action} {c : Nat} {k : Conn} (h : step cfg fromStr s a = some t)
    (hk : t.conns[c]? = some k) : (s.conns[c]? = none ∧ k = .fresh) ∨
      ∃ k₀, s.conns[c]? = some k₀ ∧ ConnStep cfg fromStr s c k₀ a k := by
  by_cases hb : ∃ now, a = .boot now
  · obtain ⟨now, rfl⟩ := hb
    obtain ⟨_, _, rfl⟩ := step_boot.mp h
    cases hk
  have hb' : ∀ now, a ≠ .boot now := fun now he => hb ⟨now, he⟩
  cases hk₀ : s.conns[c]? with
  | some k₀ =>
    obtain ⟨k', hk', hc⟩ := step_conn h hb' hk₀
    obtain rfl : k' = k := Option.some.inj (hk'.symm.trans hk)
    exact Or.inr ⟨k₀, rfl, hc⟩
  | none =>
    have hc : a.conn ≠ some c := by
      intro hc
      obtain ⟨k₁, _, hk₁, _⟩ := step_conn_self h hc
      rw [hk₀] at hk₁
      cases hk₁
    obtain he | ⟨_, he⟩ := step_conn_ne h hb' hc
    · rw [he, hk₀] at hk
      cases hk
    · exact Or.inl ⟨rfl, Option.some.inj (hk.symm.trans he)⟩

theorem conn_invariant {Q : Conn → Prop} {a : Action} (hfresh : Q .fresh)
    (hstep : ∀ c k k', Q k → ConnStep cfg fromStr s c k a k' → Q k')
    (h : step cfg fromStr s a = some t) (hs : ∀ (c : Nat) (k : Conn), s.conns[c]? = some k → Q k)
    (c : Nat) (k : Conn) (hk : t.conns[c]? = some k) : Q k := by
  obtain ⟨_, rfl⟩ | ⟨k₀, hk₀, hc⟩ := conn_before h hk
  · exact hfresh
  · exact hstep c k₀ k (hs c k₀ hk₀) hc

theorem pending_invariant {Q : Option String → Effect → Prop} {a : Action}
    (hevent : ∀ sid ev, Q sid (.write (.event ev))) (hnotice : ∀ sid n, Q sid (.writeNotice n))
    (hcleanup : ∀ sid, Q sid .cleanup)
    (hline : ∀ c k text now, s.conns[c]? = some k → k.idle → ∀ e ∈ (handleLine cfg fromStr k c
      s.bus s.uplinkStatus s.log.length now text).conn.pending, Q (handleLine cfg fromStr k c
        s.bus s.uplinkStatus s.log.length now text).conn.sessionId e)
    (hs : ∀ (c : Nat) (k : Conn), s.conns[c]? = some k → ∀ e ∈ k.pending, Q k.sessionId e)
    (h : step cfg fromStr s a = some t) (c : Nat) (k : Conn) (hk : t.conns[c]? = some k) :
    ∀ e ∈ k.pending, Q k.sessionId e := by
  intro e he
  obtain ⟨_, rfl⟩ | ⟨k₀, hk₀, hst⟩ := conn_before h hk
  · cases he
  cases hst with
  | line hi => exact hline c k₀ _ _ hk₀ hi e he
  | hangup hi =>
    rw [List.mem_singleton.mp he]
    exact hcleanup _
  | event hi hrx hup hm =>
    dsimp only at he
    split at he
    · rw [List.mem_singleton.mp he]
      exact hevent _ _
    · cases he
  | drain hi =>
    obtain he | he := List.mem_append.mp he
    · obtain ⟨rx, _, rfl⟩ := Option.map_eq_some_iff.mp (Option.mem_toList.mp he)
      exact hnotice _ _
    · rw [List.mem_singleton.mp he]
      exact hcleanup _
  | proceed hp hr =>
    have hin := performed_pending he
    rw [performed_sessionId]
    exact hs c k₀ hk₀ e (by rw [hp]; exact List.mem_cons_of_mem _ hin)
  | abort hr hw => cases he
  | _ => exact hs c _ hk₀ e he

theorem conn_frame {a : Action} {c : Nat} (h : step cfg fromStr s a = some t)
    (hc : a.conn = some c) : t.persist = s.persist ∧ t.main = s.main ∧ t.file = s.file ∧
      (t.signals = s.signals ∨ 0 < t.signals) := by
  cases a with
  | line d text now =>
    obtain ⟨k, _, _, rfl⟩ := step_line.mp h
    exact ⟨rfl, rfl, rfl, Or.inl rfl⟩
  | hangup d =>
    obtain ⟨k, _, _, rfl⟩ := step_hangup.mp h
    exact ⟨rfl, rfl, rfl, Or.inl rfl⟩
  | event d =>
    obtain ⟨k, rx, _, _, _, he⟩ := step_event.mp h
    obtain ⟨_, _, rfl, _⟩ := takeEvent_cases he
    exact ⟨rfl, rfl, rfl, Or.inl rfl⟩
  | drain d =>
    obtain ⟨k, _, _, _, rfl⟩ := step_drain.mp h
    exact ⟨rfl, rfl, rfl, Or.inl rfl⟩
  | proceed d now ok =>
    obtain ⟨k, e, es, _, _, _, rfl⟩ := step_proceed.mp h
    cases e with
    | signal =>
      refine ⟨rfl, rfl, rfl, Or.inr ?_⟩
      change 0 < if s.signals < persistCapacity then s.signals + 1 else s.signals
      have hcap : persistCapacity = 64 := rfl
      split <;> omega
    | write l => cases ok <;> exact ⟨rfl, rfl, rfl, Or.inl rfl⟩
    | _ => exact ⟨rfl, rfl, rfl, Or.inl rfl⟩
  | abort d =>
    obtain ⟨k, _, _, _, rfl⟩ := step_abort.mp h
    exact ⟨rfl, rfl, rfl, Or.inl rfl⟩
  | _ => simp [Action.conn] at hc

theorem joined_step {a : Action} (h : step cfg fromStr s a = some t)
    (hs : s.main.uplinkAlive = false →
      ∀ (c : Nat) (k : Conn), s.conns[c]? = some k → k.status ≠ .running)
    (hm : t.main.uplinkAlive = false) (c : Nat) (k : Conn) (hk : t.conns[c]? = some k) :
    k.status ≠ .running := by
  by_cases hc : ∃ d, a.conn = some d
  · obtain ⟨d, hc⟩ := hc
    obtain ⟨k₀, _, hk₀, _, hrun, _⟩ := step_conn_self h hc
    rw [(conn_frame h hc).2.1] at hm
    exact absurd hrun (hs hm d k₀ hk₀)
  cases a with
  | line d text now | hangup d | event d | drain d | proceed d now ok | abort d =>
    exact absurd ⟨d, rfl⟩ hc
  | connect =>
    obtain ⟨hserving, rfl⟩ := step_connect.mp h
    cases hmain : s.main <;> simp [hmain, MainPc.isServing, MainPc.uplinkAlive] at hserving hm
  | shutdown =>
    obtain ⟨_, rfl⟩ := step_shutdown.mp h
    cases hm
  | graceOver =>
    obtain ⟨_, rfl⟩ := step_graceOver.mp h
    cases hm
  | finalSnapshot =>
    obtain ⟨_, hnone, _, rfl⟩ := step_finalSnapshot.mp h
    exact hnone k (List.mem_of_getElem? hk)
  | finalSave ok =>
    obtain ⟨d, hd, rfl⟩ := step_finalSave.mp h
    exact hs (by rw [hd]; rfl) c k hk
  | finish =>
    obtain ⟨hd, _, rfl⟩ := step_finish.mp h
    exact hs (by rw [hd]; rfl) c k hk
  | boot now =>
    obtain ⟨_, _, rfl⟩ := step_boot.mp h
    cases hk
  | tick now =>
    obtain ⟨_, rfl⟩ := step_tick.mp h
    exact hs hm c k hk
  | uplinkEvent st =>
    obtain ⟨_, rfl⟩ := step_uplinkEvent.mp h
    exact hs hm c k hk
  | uplinkInbound topic data origin =>
    obtain ⟨_, rfl⟩ := step_uplinkInbound.mp h
    exact hs hm c k hk
  | presenceTick =>
    obtain ⟨_, rfl⟩ := step_presenceTick.mp h
    exact hs hm c k hk
  | presenceSend now =>
    obtain ⟨_, _, _, _, rfl⟩ := step_presenceSend.mp h
    exact hs hm c k hk
  | persistRecv =>
    obtain ⟨_, _, rfl⟩ := step_persistRecv.mp h
    exact hs hm c k hk
  | persistWake =>
    obtain ⟨_, rfl⟩ := step_persistWake.mp h
    exact hs hm c k hk
  | persistTryRecv =>
    obtain ⟨_, rfl⟩ := step_persistTryRecv.mp h
    split at hm <;> split at hk <;> exact hs hm c k hk
  | persistSnapshot =>
    obtain ⟨_, rfl⟩ := step_persistSnapshot.mp h
    exact hs hm c k hk
  | persistSave ok =>
    obtain ⟨d, hd, rfl⟩ := step_persistSave.mp h
    exact hs hm c k hk
  | persistExit =>
    obtain ⟨_, _, _, rfl⟩ := step_persistExit.mp h
    exact hs hm c k hk

theorem snapshot_step {a : Action} (h : step cfg fromStr s a = some t) :
    (t.file = s.file ∨ s.persist = .saving t.file ∨ s.main = .flushing t.file) ∧
      (∀ d, t.persist = .saving d → s.persist = .saving d ∨ d = s.bus.toDurable) ∧
      ∀ d, t.main = .flushing d → s.main = .flushing d ∨ d = s.bus.toDurable := by
  by_cases hc : ∃ c, a.conn = some c
  · obtain ⟨c, hc⟩ := hc
    obtain ⟨hp, hm, hf, _⟩ := conn_frame h hc
    rw [hp, hm]
    exact ⟨Or.inl hf, fun _ hd => Or.inl hd, fun _ hd => Or.inl hd⟩
  cases a with
  | line c text now | hangup c | event c | drain c | proceed c now ok | abort c =>
    exact absurd ⟨c, rfl⟩ hc
  | tick now =>
    obtain ⟨_, rfl⟩ := step_tick.mp h
    exact ⟨Or.inl rfl, fun _ hd => Or.inl hd, fun _ hd => Or.inl hd⟩
  | connect =>
    obtain ⟨_, rfl⟩ := step_connect.mp h
    exact ⟨Or.inl rfl, fun _ hd => Or.inl hd, fun _ hd => Or.inl hd⟩
  | uplinkEvent st =>
    obtain ⟨_, rfl⟩ := step_uplinkEvent.mp h
    exact ⟨Or.inl rfl, fun _ hd => Or.inl hd, fun _ hd => Or.inl hd⟩
  | uplinkInbound topic data origin =>
    obtain ⟨_, rfl⟩ := step_uplinkInbound.mp h
    exact ⟨Or.inl rfl, fun _ hd => Or.inl hd, fun _ hd => Or.inl hd⟩
  | presenceTick =>
    obtain ⟨_, rfl⟩ := step_presenceTick.mp h
    exact ⟨Or.inl rfl, fun _ hd => Or.inl hd, fun _ hd => Or.inl hd⟩
  | presenceSend now =>
    obtain ⟨_, _, _, _, rfl⟩ := step_presenceSend.mp h
    exact ⟨Or.inl rfl, fun _ hd => Or.inl hd, fun _ hd => Or.inl hd⟩
  | persistRecv =>
    obtain ⟨_, _, rfl⟩ := step_persistRecv.mp h
    exact ⟨Or.inl rfl, nofun, fun _ hd => Or.inl hd⟩
  | persistWake =>
    obtain ⟨_, rfl⟩ := step_persistWake.mp h
    exact ⟨Or.inl rfl, nofun, fun _ hd => Or.inl hd⟩
  | persistTryRecv =>
    obtain ⟨_, rfl⟩ := step_persistTryRecv.mp h
    split
    · exact ⟨Or.inl rfl, fun _ hd => Or.inl hd, fun _ hd => Or.inl hd⟩
    · exact ⟨Or.inl rfl, nofun, fun _ hd => Or.inl hd⟩
  | persistSnapshot =>
    obtain ⟨_, rfl⟩ := step_persistSnapshot.mp h
    refine ⟨Or.inl rfl, fun _ hd => Or.inr ?_, fun _ hd => Or.inl hd⟩
    exact (PersistPc.saving.inj hd).symm
  | persistSave ok =>
    obtain ⟨d, hd, rfl⟩ := step_persistSave.mp h
    refine ⟨?_, nofun, fun _ hd => Or.inl hd⟩
    cases ok with
    | true => exact Or.inr (Or.inl hd)
    | false => exact Or.inl rfl
  | persistExit =>
    obtain ⟨_, _, _, rfl⟩ := step_persistExit.mp h
    exact ⟨Or.inl rfl, nofun, fun _ hd => Or.inl hd⟩
  | shutdown =>
    obtain ⟨_, rfl⟩ := step_shutdown.mp h
    exact ⟨Or.inl rfl, fun _ hd => Or.inl hd, nofun⟩
  | graceOver =>
    obtain ⟨_, rfl⟩ := step_graceOver.mp h
    exact ⟨Or.inl rfl, fun _ hd => Or.inl hd, nofun⟩
  | finalSnapshot =>
    obtain ⟨_, _, _, rfl⟩ := step_finalSnapshot.mp h
    refine ⟨Or.inl rfl, fun _ hd => Or.inl hd, fun _ hd => Or.inr ?_⟩
    exact (MainPc.flushing.inj hd).symm
  | finalSave ok =>
    obtain ⟨d, hd, rfl⟩ := step_finalSave.mp h
    refine ⟨?_, fun _ hd => Or.inl hd, nofun⟩
    cases ok with
    | true => exact Or.inr (Or.inr hd)
    | false => exact Or.inl rfl
  | finish =>
    obtain ⟨_, _, rfl⟩ := step_finish.mp h
    exact ⟨Or.inl rfl, fun _ hd => Or.inl hd, nofun⟩
  | boot now =>
    obtain ⟨_, _, rfl⟩ := step_boot.mp h
    exact ⟨Or.inl rfl, nofun, nofun⟩

inductive LockSection (cfg : Config) (fromStr : String → Option ClientMessage) (s : Daemon) :
    Action → Transaction → Prop
  | first {c now : Nat} {text : String} {k : Conn} {sid : String} {pid : Nat}
      {cwd intent : String} {node : Option String} (hk : s.conns[c]? = some k)
      (hs : k.sessionId = none) (ht : (trim text).isEmpty = false)
      (hm : fromStr (trim text) = some (.announce sid pid cwd intent node)) :
      LockSection cfg fromStr s (.line c text now) (.announce c sid pid cwd intent node)
  | message {c now : Nat} {text : String} {k : Conn} {sid : String} {msg : ClientMessage}
      {tr : Transaction} (hk : s.conns[c]? = some k) (hs : k.sessionId = some sid)
      (ht : (trim text).isEmpty = false) (hm : fromStr (trim text) = some msg)
      (htr : msg.transaction cfg sid = some tr) :
      LockSection cfg fromStr s (.line c text now) tr
  | touch {c now : Nat} {ok : Bool} {k : Conn} {sid : String} {es : List Effect}
      (hk : s.conns[c]? = some k) (hp : k.pending = .touch sid :: es) :
      LockSection cfg fromStr s (.proceed c now ok) (.touch sid)
  | cleanup {c now : Nat} {ok : Bool} {k : Conn} {sid : String} {es : List Effect}
      (hk : s.conns[c]? = some k) (hs : k.sessionId = some sid)
      (hp : k.pending = .cleanup :: es) :
      LockSection cfg fromStr s (.proceed c now ok) (.disconnect c sid)

theorem transaction_section {a : Action} {tr : Transaction}
    (h : s.transaction cfg fromStr a = some tr) : LockSection cfg fromStr s a tr := by
  cases a with
  | line c text now =>
    cases hk : s.conns[c]? with
    | none => simp [transaction, request, hk] at h
    | some k =>
      cases ht : (trim text).isEmpty with
      | true => simp [transaction, request, hk, ht] at h
      | false =>
        cases hm : fromStr (trim text) with
        | none => simp [transaction, request, hk, ht, hm] at h
        | some msg =>
          cases hs : k.sessionId with
          | none =>
            cases msg <;> simp [transaction, request, hk, ht, hm, hs] at h
            subst h
            exact .first hk hs ht hm
          | some sid =>
            simp only [transaction, request, hk, ht, hm, hs, Option.bind_eq_bind,
              Option.bind_some, Bool.false_eq_true, ↓reduceIte] at h
            exact .message hk hs ht hm h
  | proceed c now ok =>
    cases hk : s.conns[c]? with
    | none => simp [transaction, hk] at h
    | some k =>
      cases hp : k.pending with
      | nil => simp [transaction, hk, hp] at h
      | cons e es =>
        cases e <;> simp [transaction, hk, hp] at h
        · subst h
          exact .touch hk hp
        · obtain ⟨sid, hs, rfl⟩ := h
          exact .cleanup hk hs hp
  | _ => simp [transaction] at h

theorem peers_timeout {a : Action} {timeout : Nat}
    (h : s.transaction cfg fromStr a = some (.peers timeout)) :
    timeout = cfg.heartbeatTimeoutSecs := by
  cases transaction_section h with
  | message _ _ _ _ htr => exact (ClientMessage.transaction_peers htr).1

theorem clock_of_transaction {a : Action} {tr : Transaction} (h : step cfg fromStr s a = some t)
    (htr : s.transaction cfg fromStr a = some tr) : t.clock = a.time := by
  cases transaction_section htr with
  | first | message =>
    obtain ⟨k, _, _, rfl⟩ := step_line.mp h
    rfl
  | touch | cleanup =>
    obtain ⟨k, e, es, _, _, _, rfl⟩ := step_proceed.mp h
    exact perform_clock ..

end Daemon

end Agorabus
