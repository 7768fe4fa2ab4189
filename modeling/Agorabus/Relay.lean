import Agorabus.Library.Fanout
import Agorabus.Steps
import Mathlib.Algebra.BigOperators.Fin

namespace Agorabus.Relay

open Agorabus Daemon StepSystem

structure Envelope where
  originNode : String
  data : Json

/-- What the relay uses of the JSON library and of the NATS client: the codec of
envelopes, and the subjects a publish accepts. -/
structure Wire (B : Type) where
  toVec : Envelope → Option (List B)
  fromSlice : List B → Option Envelope
  validSubject : String → Bool

/-- A message on NATS. Its publisher is history, which no subscriber sees. -/
structure Published (ι B : Type) where
  publisher : ι
  subject : String
  payload : List B

def uplinkSubjectPrefix : String := "wm.bus."

def stripPrefix (pre s : String) : Option String :=
  if pre.toList.isPrefixOf s.toList then some (String.ofList (s.toList.drop pre.toList.length))
  else none

def eqIgnoreAsciiCase (a b : String) : Bool :=
  a.toList.map Char.toLower == b.toList.map Char.toLower

variable {ι B : Type}

def outbound (wire : Wire B) (i : ι) (node : String) (m : BroadcastMsg) :
    Option (Published ι B) :=
  if m.fromUplink then none
  else
    (wire.toVec ⟨node, m.data⟩).bind (fun bytes =>
      if wire.validSubject (uplinkSubjectPrefix ++ m.topic) then
        some ⟨i, uplinkSubjectPrefix ++ m.topic, bytes⟩
      else none)

/-- What the relay accepts from NATS: not what the node has published itself. -/
def accept (wire : Wire B) (node : String) (p : Published ι B) : Option (String × Envelope) :=
  (stripPrefix uplinkSubjectPrefix p.subject).bind (fun topic =>
    (wire.fromSlice p.payload).bind (fun env =>
      if eqIgnoreAsciiCase env.originNode node then none else some (topic, env)))

/-- Daemons that are connected to one NATS server. The receiver of a relay is the number
of messages on its own bus that it has taken. -/
structure Fleet (ι B : Type) where
  daemons : ι → Daemon
  localRx : ι → Nat
  nats : Fanout.Net ι (Published ι B)

inductive Move (ι : Type) where
  | daemon (i : ι) (a : Action)
  | relay (i : ι)
  | inbound (i : ι) (k : Nat)

def Own : Action → Bool
  | .uplinkInbound .. | .boot _ => false
  | _ => true

namespace Fleet

def start (file : ι → DurableState) (now : ι → Nat) : Fleet ι B :=
  ⟨fun i => .start (file i) [] (now i), fun _ => 0, .empty⟩

def Lagged (cfg : ι → Config) (s : Fleet ι B) (i : ι) : Prop :=
  (cfg i).broadcastCapacity.nextPowerOfTwo < (s.daemons i).log.length - s.localRx i

instance (cfg : ι → Config) (s : Fleet ι B) (i : ι) : Decidable (s.Lagged cfg i) :=
  inferInstanceAs (Decidable (_ < _))

def uplinked (cfg : ι → Config) (s : Fleet ι B) (i : ι) : Bool :=
  (cfg i).uplinkEnabled && (s.daemons i).main.uplinkAlive

variable [DecidableEq ι]

/-- A step of a daemon, or one turn of a relay loop: through its arm for the local bus,
or through its arm for NATS. -/
def step (cfg : ι → Config) (fromStr : String → Option ClientMessage) (wire : Wire B)
    (s : Fleet ι B) : Move ι → Option (Fleet ι B)
  | .daemon i a =>
      if Own a then
        (Daemon.step (cfg i) fromStr (s.daemons i) a).map (fun d =>
          { s with daemons := Function.update s.daemons i d })
      else none
  | .relay i =>
      if s.uplinked cfg i then
        if s.Lagged cfg i then
          let oldest := (s.daemons i).log.length - (cfg i).broadcastCapacity.nextPowerOfTwo
          some { s with localRx := Function.update s.localRx i oldest }
        else
          ((s.daemons i).log[s.localRx i]?).map (fun m =>
            { s with
              localRx := Function.update s.localRx i (s.localRx i + 1)
              nats := (outbound wire i (cfg i).node m).elim s.nats s.nats.publish })
      else none
  | .inbound i k =>
      if s.uplinked cfg i then
        (s.nats.deliver i k).bind (fun r =>
          match accept wire (cfg i).node r.1 with
          | none => some { s with nats := r.2 }
          | some (topic, env) =>
              (Daemon.step (cfg i) fromStr (s.daemons i)
                (.uplinkInbound topic env.data env.originNode)).map (fun d =>
                  { s with daemons := Function.update s.daemons i d, nats := r.2 }))
      else none

/-- The messages a step puts on the bus of a node, other than what comes in over NATS. -/
def originates (cfg : ι → Config) (fromStr : String → Option ClientMessage) (i : ι)
    (s : Fleet ι B) : Move ι → List BroadcastMsg
  | .daemon j a => if j = i then (s.daemons i).sends (cfg i) fromStr a else []
  | _ => []

def sent (cfg : ι → Config) (fromStr : String → Option ClientMessage) (wire : Wire B)
    (s : Fleet ι B) (ms : List (Move ι)) (i : ι) : List BroadcastMsg :=
  trace (step cfg fromStr wire) (originates cfg fromStr i) s ms

/-- The channel has not dropped any message the relay is to take next. -/
def KeepsUp (cfg : ι → Config) (s : Fleet ι B) : Move ι → Prop
  | .relay i => ¬ s.Lagged cfg i
  | _ => True

instance (cfg : ι → Config) (s : Fleet ι B) : ∀ m, Decidable (KeepsUp cfg s m)
  | .relay i => inferInstanceAs (Decidable (¬ s.Lagged cfg i))
  | .daemon _ _ | .inbound _ _ => isTrue trivial

/-- No relay has a message to take, and NATS has none to deliver. -/
def Quiescent (s : Fleet ι B) : Prop :=
  ∀ i, s.localRx i = (s.daemons i).log.length ∧ s.nats.inbox i = []

end Fleet

section LocalMessages

variable {cfg : Config} {fromStr : String → Option ClientMessage} {s t : Daemon} {a : Action}

/-- What a connection task still has to broadcast is its own. -/
def LocalPending (es : List Effect) : Prop := ∀ m, Effect.broadcast m ∈ es → m.fromUplink = false

def LocalTasks (s : Daemon) : Prop :=
  ∀ (c : Nat) (k : Conn), s.conns[c]? = some k → LocalPending k.pending

theorem handleFirst_local (k : Conn) (c : Nat) (bus : BusState) (now : Nat)
    (msg : ClientMessage) : (∀ m ∈ (handleFirst k c bus now msg).sent, m.fromUplink = false) ∧
      LocalPending (handleFirst k c bus now msg).conn.pending := by
  cases msg <;> simp [handleFirst, answer, LocalPending]

theorem handleMessage_local (k : Conn) (sid : String) (bus : BusState) (uplink : UplinkStatus)
    (sent now : Nat) (msg : ClientMessage) :
    (∀ m ∈ (handleMessage cfg k sid bus uplink sent now msg).sent, m.fromUplink = false) ∧
      LocalPending (handleMessage cfg k sid bus uplink sent now msg).conn.pending := by
  cases msg with
  | heartbeat tool skill prdSlug paths =>
    simp only [handleMessage]
    split
    · simp [answer, LocalPending]
    · split <;> simp [LocalPending]
  | claimAcquire path ttl reason force =>
    rw [handleMessage_claimAcquire]
    split
    · simp [answer, LocalPending]
    · simp [LocalPending, claimAcquireMsg, claimReleaseMsg]
  | claimRelease path =>
    simp only [handleMessage]
    split <;> simp [LocalPending, claimReleaseMsg]
  | _ => simp [handleMessage, answer, LocalPending]

theorem handleLine_local {k : Conn} (hk : LocalPending k.pending) (c : Nat) (bus : BusState)
    (uplink : UplinkStatus) (sent now : Nat) (line : String) :
    (∀ m ∈ (handleLine cfg fromStr k c bus uplink sent now line).sent, m.fromUplink = false) ∧
      LocalPending (handleLine cfg fromStr k c bus uplink sent now line).conn.pending := by
  unfold handleLine
  split
  · exact ⟨nofun, hk⟩
  · split
    · exact ⟨nofun, by simp [LocalPending]⟩
    · split
      · exact handleFirst_local ..
      · exact handleMessage_local ..

theorem sends_local (hs : LocalTasks s) (ha : Own a) :
    ∀ m ∈ s.sends cfg fromStr a, m.fromUplink = false := by
  intro m hm
  cases a with
  | line c text now =>
    cases hk : s.conns[c]? with
    | none => simp [sends, hk] at hm
    | some k =>
      simp only [sends, hk] at hm
      exact (handleLine_local (hs c k hk) ..).1 m hm
  | proceed c now ok =>
    cases hk : s.conns[c]? with
    | none => simp [sends, hk] at hm
    | some k =>
      simp only [sends, hk] at hm
      split at hm
      · rename_i m' es hp
        obtain rfl := List.mem_singleton.mp hm
        exact hs c k hk m (by rw [hp]; exact List.mem_cons_self)
      · cases hm
  | presenceSend now =>
    simp only [sends, Option.mem_toList, Option.map_eq_some_iff] at hm
    obtain ⟨p, _, rfl⟩ := hm
    rfl
  | uplinkInbound => cases ha
  | _ => cases hm

theorem localTasks_start (file : DurableState) (log : List BroadcastMsg) (now : Nat) :
    LocalTasks (start file log now) := by
  intro c k hk
  cases hk

theorem localTasks_step (hs : LocalTasks s) (h : step cfg fromStr s a = some t) :
    LocalTasks t := by
  intro c k hk m hm
  refine pending_invariant (Q := fun _ e => ∀ m, e = .broadcast m → m.fromUplink = false)
    (fun _ _ => nofun) (fun _ _ => nofun) (fun _ => nofun) ?_ ?_ h c k hk (.broadcast m) hm m rfl
  · rintro c k text now hk _ _ he m rfl
    exact (handleLine_local (hs c k hk) ..).2 m he
  · rintro c k hk _ he m rfl
    exact hs c k hk m he

end LocalMessages

def remote (node : String) (m : BroadcastMsg) : BroadcastMsg :=
  ⟨m.topic, m.data, "uplink:" ++ node, true⟩

def received (wire : Wire B) (node : String) (p : Published ι B) : Option BroadcastMsg :=
  (accept wire node p).map (fun r => ⟨r.1, r.2.data, "uplink:" ++ r.2.originNode, true⟩)

/-- The message makes a valid subject, and its envelope comes off the wire as it went on. -/
def Relayable (wire : Wire B) (node : String) (m : BroadcastMsg) : Prop :=
  wire.validSubject (uplinkSubjectPrefix ++ m.topic) = true ∧
    ∃ bytes, wire.toVec ⟨node, m.data⟩ = some bytes ∧
      wire.fromSlice bytes = some ⟨node, m.data⟩

variable {wire : Wire B} {node : String} {m : BroadcastMsg}

theorem stripPrefix_append (pre s : String) : stripPrefix pre (pre ++ s) = some s := by
  simp [stripPrefix]

theorem outbound_publisher {i : ι} {p : Published ι B} (h : outbound wire i node m = some p) :
    m.fromUplink = false ∧ p.publisher = i := by
  unfold outbound at h
  split at h
  · cases h
  · rename_i hm
    obtain ⟨bytes, _, h⟩ := Option.bind_eq_some_iff.mp h
    split at h
    · cases h
      exact ⟨by simpa using hm, rfl⟩
    · cases h

theorem outbound_received (i : ι) (hm : m.fromUplink = false) (hr : Relayable wire node m)
    (node' : String) :
    ∃ p, outbound wire i node m = some p ∧ received wire node' p =
      if eqIgnoreAsciiCase node node' then none else some (remote node m) := by
  obtain ⟨hvalid, bytes, hto, hfrom⟩ := hr
  refine ⟨⟨i, uplinkSubjectPrefix ++ m.topic, bytes⟩, by simp [outbound, hm, hto, hvalid], ?_⟩
  simp only [received, accept, stripPrefix_append, Option.bind_some, hfrom]
  split <;> rfl

/-- The relays have published the messages of their nodes up to where they are, and the
nodes have what NATS has delivered to them. -/
structure Relays (cfg : ι → Config) (wire : Wire B) (s : Fleet ι B) [DecidableEq ι] : Prop where
  tasks : ∀ i, LocalTasks (s.daemons i)
  position : ∀ i, s.localRx i ≤ (s.daemons i).log.length
  published : ∀ i, s.nats.published.filter (fun p => p.publisher = i) =
    ((s.daemons i).log.take (s.localRx i)).filterMap (outbound wire i (cfg i).node)
  received : ∀ j, (s.daemons j).log.filter (fun m => m.fromUplink) =
    (s.nats.delivered j).filterMap (received wire (cfg j).node)

section Run

variable [DecidableEq ι] {cfg : ι → Config} {fromStr : String → Option ClientMessage}
  {s t : Fleet ι B}

theorem relays_start (file : ι → DurableState) (now : ι → Nat) :
    Relays cfg wire (.start file now) where
  tasks := fun i => localTasks_start (file i) [] (now i)
  position := fun _ => Nat.le_refl _
  published := fun _ => rfl
  received := fun _ => rfl

theorem relays_append (hs : Relays cfg wire s) {i : ι} {d : Daemon} {new : List BroadcastMsg}
    {nats : Fanout.Net ι (Published ι B)} (hd : d.log = (s.daemons i).log ++ new)
    (ht : LocalTasks d) (hp : nats.published = s.nats.published)
    (hne : ∀ j, j ≠ i → nats.delivered j = s.nats.delivered j)
    (hi : (nats.delivered i).filterMap (received wire (cfg i).node) =
      (s.nats.delivered i).filterMap (received wire (cfg i).node) ++
        new.filter (fun m => m.fromUplink)) :
    Relays cfg wire ⟨Function.update s.daemons i d, s.localRx, nats⟩ where
  tasks := fun j => by
    by_cases hj : j = i
    · subst hj
      simpa using ht
    · simpa [hj] using hs.tasks j
  position := fun j => by
    by_cases hj : j = i
    · subst hj
      simp only [Function.update_self, hd, List.length_append]
      exact Nat.le_add_right_of_le (hs.position j)
    · simpa [hj] using hs.position j
  published := fun j => by
    by_cases hj : j = i
    · subst hj
      simp only [Function.update_self, hd, hp]
      rw [List.take_append_of_le_length (hs.position j)]
      exact hs.published j
    · simpa [hj, hp] using hs.published j
  received := fun j => by
    by_cases hj : j = i
    · subst hj
      simp only [Function.update_self, hd, List.filter_append, hi, hs.received j]
    · simpa [hj, hne j hj] using hs.received j

theorem relays_daemon (hs : Relays cfg wire s) {i : ι} {a : Action}
    (h : s.step cfg fromStr wire (.daemon i a) = some t) : Relays cfg wire t := by
  simp only [Fleet.step, Option.ite_none_right_eq_some, Option.map_eq_some_iff] at h
  obtain ⟨ha, d, hd, rfl⟩ := h
  refine relays_append hs (step_log hd) (localTasks_step (hs.tasks i) hd) rfl
    (fun _ _ => rfl) ?_
  rw [List.filter_eq_nil_iff.mpr (fun m hm => by simp [sends_local (hs.tasks i) ha m hm]),
    List.append_nil]

theorem relays_relay (hs : Relays cfg wire s) {i : ι} (hl : ¬ s.Lagged cfg i)
    (h : s.step cfg fromStr wire (.relay i) = some t) : Relays cfg wire t := by
  simp only [Fleet.step, hl, if_false, Option.ite_none_right_eq_some, Option.map_eq_some_iff] at h
  obtain ⟨_, m, hm, rfl⟩ := h
  obtain ⟨hlt, _⟩ := List.getElem?_eq_some_iff.mp hm
  have htake : (s.daemons i).log.take (s.localRx i + 1) =
      (s.daemons i).log.take (s.localRx i) ++ [m] := by
    rw [List.take_add_one, hm, Option.toList_some]
  have hpub : ∀ n : Fanout.Net ι (Published ι B),
      n = (outbound wire i (cfg i).node m).elim s.nats s.nats.publish →
      n.published = s.nats.published ++ (outbound wire i (cfg i).node m).toList ∧
        n.delivered = s.nats.delivered := by
    rintro n rfl
    cases outbound wire i (cfg i).node m with
    | none => exact ⟨(List.append_nil _).symm, rfl⟩
    | some p => exact ⟨rfl, rfl⟩
  obtain ⟨hp, hd⟩ := hpub _ rfl
  refine ⟨hs.tasks, fun j => ?_, fun j => ?_, fun j => ?_⟩
  · by_cases hj : j = i
    · subst hj
      simp only [Function.update_self]
      exact hlt
    · simpa [hj] using hs.position j
  · dsimp only
    rw [hp, List.filter_append, hs.published j]
    by_cases hj : j = i
    · subst hj
      rw [Function.update_self, htake, List.filterMap_append]
      congr 1
      cases ho : outbound wire j (cfg j).node m with
      | none => simp [ho]
      | some p => simp [ho, (outbound_publisher ho).2]
    · rw [Function.update_of_ne hj]
      cases ho : outbound wire i (cfg i).node m with
      | none => simp
      | some p => simp [(outbound_publisher ho).2, Ne.symm hj]
  · dsimp only
    rw [hd]
    exact hs.received j

theorem relays_inbound (hs : Relays cfg wire s) {i : ι} {k : Nat}
    (h : s.step cfg fromStr wire (.inbound i k) = some t) : Relays cfg wire t := by
  simp only [Fleet.step, Option.ite_none_right_eq_some, Option.bind_eq_some_iff] at h
  obtain ⟨_, ⟨p, nats⟩, hdel, h⟩ := h
  obtain ⟨_, hp, hd⟩ := Fanout.Net.deliver_eq_some hdel
  have hne : ∀ j, j ≠ i → nats.delivered j = s.nats.delivered j := by
    intro j hj
    rw [hd, Function.update_of_ne hj]
  have hi : (nats.delivered i).filterMap (received wire (cfg i).node) =
      (s.nats.delivered i).filterMap (received wire (cfg i).node) ++
        (received wire (cfg i).node p).toList := by
    rw [hd, Function.update_self, List.filterMap_append]
    congr 1
  dsimp only at h
  split at h
  · rename_i ha
    cases h
    have hr : received wire (cfg i).node p = none := by rw [received, ha]; rfl
    rw [hr] at hi
    have := relays_append hs (List.append_nil _).symm (hs.tasks i) hp hne hi
    rwa [Function.update_eq_self] at this
  · rename_i topic env ha
    obtain ⟨d, hstep, rfl⟩ := Option.map_eq_some_iff.mp h
    have hr : received wire (cfg i).node p =
        some ⟨topic, env.data, "uplink:" ++ env.originNode, true⟩ := by rw [received, ha]; rfl
    rw [hr] at hi
    exact relays_append hs (step_log hstep) (localTasks_step (hs.tasks i) hstep) hp hne hi

theorem relays_step {mv : Move ι} (hs : Relays cfg wire s) (hl : s.KeepsUp cfg mv)
    (h : s.step cfg fromStr wire mv = some t) : Relays cfg wire t := by
  cases mv with
  | daemon i a => exact relays_daemon hs h
  | relay i => exact relays_relay hs hl h
  | inbound i k => exact relays_inbound hs h

theorem log_step {mv : Move ι} (hs : ∀ i, LocalTasks (s.daemons i))
    (h : s.step cfg fromStr wire mv = some t) (i : ι) :
    (t.daemons i).log.filter (fun m => !m.fromUplink) =
      (s.daemons i).log.filter (fun m => !m.fromUplink) ++ s.originates cfg fromStr i mv := by
  cases mv with
  | daemon j a =>
    simp only [Fleet.step, Option.ite_none_right_eq_some, Option.map_eq_some_iff] at h
    obtain ⟨ha, d, hd, rfl⟩ := h
    by_cases hj : j = i
    · subst hj
      have hlocal : ((s.daemons j).sends (cfg j) fromStr a).filter (fun m => !m.fromUplink) =
          (s.daemons j).sends (cfg j) fromStr a :=
        List.filter_eq_self.mpr (fun m hm => by simp [sends_local (hs j) ha m hm])
      simp only [Function.update_self, step_log hd, List.filter_append, Fleet.originates, if_true,
        hlocal]
    · simp [Function.update_of_ne (Ne.symm hj), Fleet.originates, hj]
  | relay j =>
    simp only [Fleet.step, Option.ite_none_right_eq_some] at h
    obtain ⟨_, h⟩ := h
    split at h
    · cases h
      exact (List.append_nil _).symm
    · obtain ⟨m, _, rfl⟩ := Option.map_eq_some_iff.mp h
      exact (List.append_nil _).symm
  | inbound j k =>
    simp only [Fleet.step, Option.ite_none_right_eq_some, Option.bind_eq_some_iff] at h
    obtain ⟨_, r, _, h⟩ := h
    refine Eq.trans ?_ (List.append_nil _).symm
    split at h
    · cases h
      rfl
    · obtain ⟨d, hd, rfl⟩ := Option.map_eq_some_iff.mp h
      by_cases hj : i = j
      · subst hj
        simp [step_log hd, sends]
      · simp [Function.update_of_ne hj]

theorem relays_run {file : ι → DurableState} {now : ι → Nat} {ms : List (Move ι)}
    (hlag : Along (Fleet.step cfg fromStr wire) (Fleet.KeepsUp cfg) (.start file now) ms)
    (hr : run (Fleet.step cfg fromStr wire) (.start file now) ms = some t) :
    Relays cfg wire t ∧ ∀ i, (t.daemons i).log.filter (fun m => !m.fromUplink) =
      (Fleet.start file now).sent cfg fromStr wire ms i := by
  refine ⟨run_along_invariant (fun _ _ _ hs hl h => relays_step hs hl h) hlag hr
    (relays_start file now), fun i => ?_⟩
  let I (s : Fleet ι B) (out : List BroadcastMsg) : Prop :=
    Relays cfg wire s ∧ (s.daemons i).log.filter (fun m => !m.fromUplink) = out
  have hstep : ∀ s mv t out, I s out → s.KeepsUp cfg mv →
      s.step cfg fromStr wire mv = some t → I t (out ++ s.originates cfg fromStr i mv) :=
    fun s mv t out hs hl h => ⟨relays_step hs.1 hl h, by rw [log_step hs.1.tasks h i, hs.2]⟩
  have hend : I t ([] ++ (Fleet.start file now).sent cfg fromStr wire ms i) :=
    run_trace_invariant hstep hlag hr ⟨relays_start file now, rfl⟩
  exact hend.2

theorem received_from (hs : Relays cfg wire s)
    (hwire : ∀ i, ∀ m ∈ (s.daemons i).log, m.fromUplink = false → Relayable wire (cfg i).node m)
    {p : Published ι B} (hp : p ∈ s.nats.published) {j : ι} {m : BroadcastMsg}
    (hm : received wire (cfg j).node p = some m) :
    eqIgnoreAsciiCase (cfg p.publisher).node (cfg j).node = false ∧
      m.source = "uplink:" ++ (cfg p.publisher).node := by
  have hmem : p ∈ s.nats.published.filter (fun q => q.publisher = p.publisher) := by simp [hp]
  rw [hs.published] at hmem
  obtain ⟨m₀, hm₀, ho⟩ := List.mem_filterMap.mp hmem
  have hlocal := (outbound_publisher ho).1
  obtain ⟨p', hp', hr⟩ := outbound_received p.publisher hlocal
    (hwire _ m₀ (List.mem_of_mem_take hm₀) hlocal) (cfg j).node
  obtain rfl : p = p' := Option.some.inj (ho.symm.trans hp')
  rw [hr] at hm
  split at hm
  · cases hm
  · rename_i hne
    cases hm
    exact ⟨by simpa using hne, rfl⟩

theorem eqIgnoreAsciiCase_self (a : String) : eqIgnoreAsciiCase a a = true := by
  simp [eqIgnoreAsciiCase]

theorem source_inj {a b : String} (h : "uplink:" ++ a = "uplink:" ++ b) : a = b := by
  have h' : ("uplink:" ++ a).toList = ("uplink:" ++ b).toList := by rw [h]
  rw [String.toList_append, String.toList_append] at h'
  exact String.toList_injective (List.append_cancel_left h')

theorem received_by (hs : Relays cfg wire s)
    (hnames : ∀ i j, i ≠ j → eqIgnoreAsciiCase (cfg i).node (cfg j).node = false)
    (hwire : ∀ i, ∀ m ∈ (s.daemons i).log, m.fromUplink = false → Relayable wire (cfg i).node m)
    {i j : ι} (hij : i ≠ j) (hq : s.localRx i = (s.daemons i).log.length) :
    (s.nats.published.filterMap (received wire (cfg j).node)).filter
        (fun m => m.source = "uplink:" ++ (cfg i).node) =
      ((s.daemons i).log.filter (fun m => !m.fromUplink)).map (remote (cfg i).node) := by
  have hby : ∀ p ∈ s.nats.published,
      (received wire (cfg j).node p).filter (fun m => m.source = "uplink:" ++ (cfg i).node) =
        if p.publisher = i then received wire (cfg j).node p else none := by
    intro p hp
    cases hr : received wire (cfg j).node p with
    | none => simp
    | some m =>
      obtain ⟨_, hsource⟩ := received_from hs hwire hp hr
      have hiff : m.source = "uplink:" ++ (cfg i).node ↔ p.publisher = i := by
        rw [hsource]
        refine ⟨fun h => ?_, fun h => by rw [h]⟩
        by_contra hne
        have hn := hnames _ _ hne
        rw [source_inj h, eqIgnoreAsciiCase_self] at hn
        cases hn
      by_cases hpi : p.publisher = i
      · simp [Option.filter, hiff, hpi]
      · simp [Option.filter, hiff, hpi]
  have hone : ∀ m ∈ (s.daemons i).log,
      (outbound wire i (cfg i).node m).bind (received wire (cfg j).node) =
        if !m.fromUplink then some (remote (cfg i).node m) else none := by
    intro m hm
    cases hu : m.fromUplink with
    | true => simp [outbound, hu]
    | false =>
      obtain ⟨p, hp, hr⟩ := outbound_received i hu (hwire i m hm hu) (cfg j).node
      rw [hp, Option.bind_some, hr, hnames i j hij]
      rfl
  calc (s.nats.published.filterMap (received wire (cfg j).node)).filter
        (fun m => m.source = "uplink:" ++ (cfg i).node)
      = s.nats.published.filterMap (fun p =>
          if p.publisher = i then received wire (cfg j).node p else none) := by
        rw [List.filter_filterMap]
        exact List.filterMap_congr hby
    _ = (s.nats.published.filter (fun p => p.publisher = i)).filterMap
          (received wire (cfg j).node) := by
        rw [List.filterMap_filter]
        simp
    _ = ((s.daemons i).log.filterMap (outbound wire i (cfg i).node)).filterMap
          (received wire (cfg j).node) := by
        rw [hs.published i, hq, List.take_length]
    _ = (s.daemons i).log.filterMap (fun m =>
          if !m.fromUplink then some (remote (cfg i).node m) else none) := by
        rw [List.filterMap_filterMap]
        exact List.filterMap_congr hone
    _ = ((s.daemons i).log.filter (fun m => !m.fromUplink)).map (remote (cfg i).node) := by
        rw [← List.filterMap_eq_map, List.filterMap_filter]
        rfl

theorem published_length [Fintype ι] (hs : Relays cfg wire s)
    (hwire : ∀ i, ∀ m ∈ (s.daemons i).log, m.fromUplink = false → Relayable wire (cfg i).node m)
    (hq : ∀ i, s.localRx i = (s.daemons i).log.length) :
    s.nats.published.length =
      ∑ i, ((s.daemons i).log.filter (fun m => !m.fromUplink)).length := by
  have hcount : ∀ i, ((s.daemons i).log.filter (fun m => !m.fromUplink)).length =
      Multiset.count i (s.nats.published.map Published.publisher : Multiset ι) := by
    intro i
    have hsome : ∀ m ∈ (s.daemons i).log,
        (outbound wire i (cfg i).node m).isSome = true ↔ (!m.fromUplink) = true := by
      intro m hm
      cases hu : m.fromUplink with
      | true => simp [outbound, hu]
      | false =>
        obtain ⟨p, hp, _⟩ := outbound_received i hu (hwire i m hm hu) ""
        simp [hp]
    calc ((s.daemons i).log.filter (fun m => !m.fromUplink)).length
        = ((s.daemons i).log.filterMap (outbound wire i (cfg i).node)).length := by
          rw [List.length_filterMap_eq_countP, ← List.countP_eq_length_filter]
          exact (List.countP_congr hsome).symm
      _ = (s.nats.published.filter (fun p => p.publisher = i)).length := by
          rw [hs.published i, hq i, List.take_length]
      _ = Multiset.count i (s.nats.published.map Published.publisher : Multiset ι) := by
          rw [Multiset.coe_count, List.count_eq_countP, List.countP_map,
            ← List.countP_eq_length_filter]
          exact List.countP_congr (fun p _ => by simp)
  rw [Finset.sum_congr rfl (fun i _ => hcount i), Multiset.sum_count_eq_card (by simp)]
  simp

/-- Once nothing is in flight, every message a node has sent is once on its own bus and once,
from that node, on the bus of every other node, in whatever order NATS has delivered; and NATS
has carried each of them once. -/
theorem relay_exactly_once [Fintype ι] (cfg : ι → Config)
    (fromStr : String → Option ClientMessage) (wire : Wire B) (file : ι → DurableState)
    (now : ι → Nat) (ms : List (Move ι)) (t : Fleet ι B)
    (hnames : ∀ i j, i ≠ j → eqIgnoreAsciiCase (cfg i).node (cfg j).node = false)
    (hr : run (Fleet.step cfg fromStr wire) (.start file now) ms = some t)
    (hlag : Along (Fleet.step cfg fromStr wire) (Fleet.KeepsUp cfg) (.start file now) ms)
    (hwire : ∀ i, ∀ m ∈ (Fleet.start file now).sent cfg fromStr wire ms i,
      Relayable wire (cfg i).node m)
    (hq : t.Quiescent) :
    (∀ i, (t.daemons i).log.filter (fun m => !m.fromUplink) =
      (Fleet.start file now).sent cfg fromStr wire ms i) ∧
    (∀ i j, i ≠ j →
      ((t.daemons j).log.filter (fun m => m.fromUplink &&
        m.source = "uplink:" ++ (cfg i).node)).Perm
      (((Fleet.start file now).sent cfg fromStr wire ms i).map (remote (cfg i).node))) ∧
    (∀ j, ∀ m ∈ (t.daemons j).log, m.fromUplink = true →
      ∃ i, i ≠ j ∧ m.source = "uplink:" ++ (cfg i).node) ∧
    t.nats.published.length =
      ∑ i, ((Fleet.start file now).sent cfg fromStr wire ms i).length := by
  obtain ⟨hs, hsent⟩ := relays_run hlag hr
  have hwire' : ∀ i, ∀ m ∈ (t.daemons i).log, m.fromUplink = false →
      Relayable wire (cfg i).node m := by
    intro i m hm hu
    refine hwire i m ?_
    rw [← hsent i]
    exact List.mem_filter.mpr ⟨hm, by simp [hu]⟩
  refine ⟨hsent, fun i j hij => ?_, fun j m hm hu => ?_, ?_⟩
  · have hperm := (t.nats.delivered_perm (hq j).2).filterMap (received wire (cfg j).node)
    rw [← hsent i, ← received_by hs hnames hwire' hij (hq i).1]
    refine List.Perm.trans (List.Perm.of_eq ?_) (hperm.filter _)
    rw [← hs.received j, List.filter_filter]
    congr 1
    funext m
    rw [Bool.and_comm]
  · have hmem : m ∈ (t.daemons j).log.filter (fun m => m.fromUplink) :=
      List.mem_filter.mpr ⟨hm, hu⟩
    rw [hs.received j] at hmem
    obtain ⟨p, hp, hrec⟩ := List.mem_filterMap.mp hmem
    have hpub : p ∈ t.nats.published := (t.nats.delivered_perm (hq j).2).subset hp
    obtain ⟨hne, hsource⟩ := received_from hs hwire' hpub hrec
    refine ⟨p.publisher, fun he => ?_, hsource⟩
    rw [he, eqIgnoreAsciiCase_self] at hne
    cases hne
  · rw [published_length hs hwire' (fun i => (hq i).1)]
    exact Finset.sum_congr rfl (fun i _ => by rw [hsent i])

end Run

def publishLine : String := "\x7b\"op\":\"publish\",\"topic\":\"t\",\"data\":1\x7d"

def pairConfig (i : Fin 2) : Config :=
  ⟨60, 1024, 3000, true, if i = 0 then "testa" else "testb"⟩

def envelopeText (env : Envelope) : String :=
  "\x7b\"origin_node\":\"" ++ env.originNode ++ "\",\"data\":" ++ (match env.data with
    | .number n => toString n
    | _ => "null") ++ "\x7d"

def pairWire : Wire Char where
  toVec env := some (envelopeText env).toList
  fromSlice bytes := [Envelope.mk "testa" (.number 1), Envelope.mk "testb" (.number 1)].find?
    (fun env => (envelopeText env).toList = bytes)
  validSubject subject := subject.toList.all (fun c => !isWhitespace c)

def pairDecode : String → Option ClientMessage :=
  decodeFrom [(announceLine "s1", .announce "s1" 7 "/" "" none),
    (publishLine, .publish "t" (.number 1))]

def pairRun : List (Move (Fin 2)) :=
  [.daemon 0 .connect, .daemon 0 (.line 0 (announceLine "s1") 1), .daemon 0 (.proceed 0 1 true),
    .daemon 0 (.line 0 publishLine 2), .relay 0, .inbound 1 0, .inbound 0 0, .relay 1]

theorem relay_exactly_once_pair :
    ∃ t, run (Fleet.step pairConfig pairDecode pairWire)
        (.start (fun _ => .default) (fun _ => 0)) pairRun = some t ∧
      ((t.daemons 1).log.filter (fun m => m.fromUplink && m.source = "uplink:testa")).map
        (fun m => (m.topic, m.source)) = [("t", "uplink:testa")] ∧
      t.nats.published.length = 1 := by
  let s : Fleet (Fin 2) Char := .start (fun _ => .default) (fun _ => 0)
  obtain ⟨hrun, hlag, hdata⟩ :
      (run (Fleet.step pairConfig pairDecode pairWire) s pairRun).map (fun t =>
        decide (∀ i, t.localRx i = (t.daemons i).log.length ∧ (t.nats.inbox i).length = 0)) =
        some true ∧
      Along (Fleet.step pairConfig pairDecode pairWire) (Fleet.KeepsUp pairConfig) s pairRun ∧
      ∀ i, (s.sent pairConfig pairDecode pairWire pairRun i).all (fun m =>
        m.data = .number 1 && m.topic = "t") = true := by decide +kernel
  have hfrom : ∀ i, pairWire.fromSlice (envelopeText ⟨(pairConfig i).node, .number 1⟩).toList =
      some ⟨(pairConfig i).node, .number 1⟩ := Fin.forall_fin_two.mpr ⟨rfl, rfl⟩
  obtain ⟨t, ht, hq⟩ := Option.map_eq_some_iff.mp hrun
  have hquiet : t.Quiescent := fun i =>
    ⟨(of_decide_eq_true hq i).1, List.length_eq_zero_iff.mp (of_decide_eq_true hq i).2⟩
  have hwire : ∀ i, ∀ m ∈ s.sent pairConfig pairDecode pairWire pairRun i,
      Relayable pairWire (pairConfig i).node m := by
    intro i m hm
    have h := List.all_eq_true.mp (hdata i) m hm
    simp only [Bool.and_eq_true, decide_eq_true_eq] at h
    obtain ⟨hnumber, htopic⟩ := h
    rw [Relayable, hnumber, htopic]
    exact ⟨by decide, _, rfl, hfrom i⟩
  obtain ⟨_, hperm, _, hcount⟩ := relay_exactly_once pairConfig pairDecode pairWire
    (fun _ => .default) (fun _ => 0) pairRun t (by decide) ht hlag hwire hquiet
  refine ⟨t, ht, ?_, hcount.trans (by decide +kernel)⟩
  have hsent : ((s.sent pairConfig pairDecode pairWire pairRun 0).map (remote "testa")).map
      (fun m => (m.topic, m.source)) = [("t", "uplink:testa")] := by decide +kernel
  rw [← List.perm_singleton, ← hsent]
  exact (hperm 0 1 (by decide)).map _

end Agorabus.Relay
