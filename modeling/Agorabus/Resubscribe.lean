import Agorabus.Demux
import Agorabus.Library.FloatFree
import Agorabus.Subscriber

namespace Agorabus.Resubscribe

open Agorabus Daemon StepSystem Subscriber
open Agorabus.Reconnect (Subscription readLoop hand)

/-- The command that follows a topic over its connections: the one it is on, the lines that have
been written to it and that the command has not read, and what it has handed on so far. -/
structure Follower where
  daemon : Daemon
  conn : Option Nat
  inbox : List OutLine
  printed : List ServerEvent

inductive Move where
  | daemon (a : Action)
  | connect
  | print
  | discard

/-- The lines a step of the daemon writes to the connection. -/
def newLines (s t : Daemon) (conn : Option Nat) : List OutLine :=
  conn.elim [] (fun c => ((t.conns[c]?).elim [] Conn.written).drop
    ((s.conns[c]?).elim [] Conn.written).length)

def subscribesTo (fromStr : String → Option ClientMessage) (pre : String) (conn : Option Nat) :
    Action → Bool
  | .line c text _ =>
      match fromStr (trim text) with
      | some (.subscribe p) => conn ≠ some c || p = pre
      | _ => true
  | _ => true

def connAfter (conn : Option Nat) : Action → Option Nat
  | .boot _ => none
  | _ => conn

theorem connAfter_of_not_boot (conn : Option Nat) {a : Action} (ha : ∀ now, a ≠ .boot now) :
    connAfter conn a = conn := by
  cases a with
  | boot now => exact absurd rfl (ha now)
  | _ => rfl

namespace Follower

def start (file : DurableState) (now : Nat) : Follower := ⟨.start file [] now, none, [], []⟩

/-- The command leaves a connection whenever it likes, and then connects again. It drops a line
where it takes an event for the reply to its handshake. -/
def step (cfg : Config) (fromStr : String → Option ClientMessage) (pre : String) (s : Follower) :
    Move → Option Follower
  | .daemon a =>
      if subscribesTo fromStr pre s.conn a then
        (Daemon.step cfg fromStr s.daemon a).map (fun d =>
          { s with
            daemon := d
            conn := connAfter s.conn a
            inbox := s.inbox ++ newLines s.daemon d s.conn })
      else none
  | .connect =>
      (Daemon.step cfg fromStr s.daemon .connect).map (fun d =>
        { s with daemon := d, conn := some s.daemon.conns.length, inbox := [] })
  | .print =>
      match s.inbox with
      | l :: ls => some { s with inbox := ls, printed := s.printed ++ events [l] }
      | [] => none
  | .discard =>
      match s.inbox with
      | _ :: ls => some { s with inbox := ls }
      | [] => none

end Follower

def stream (pre : String) (ms : List BroadcastMsg) : List ServerEvent :=
  (ms.filter (fun m => decide (pre.toList <+: m.topic.toList))).map BroadcastMsg.toEvent

theorem stream_append (pre : String) (ms ns : List BroadcastMsg) :
    stream pre (ms ++ ns) = stream pre ms ++ stream pre ns := by
  rw [stream, List.filter_append, List.map_append, stream, stream]

theorem stream_sublist (pre : String) {ms ns : List BroadcastMsg} (h : ms.Sublist ns) :
    (stream pre ms).Sublist (stream pre ns) :=
  (h.filter _).map _

/-- What the command has got of a connection, and what it will still get, is part of the stream up
to where the connection is. -/
structure Follows (pre : String) (log : List BroadcastMsg) (got : List ServerEvent) (k : Conn) :
    Prop where
  prefixes : ∀ p ∈ k.subscribedPrefixes, p = pre
  silent : k.bcastRx = none → events (unwritten k.pending) = []
  position : ∀ rx, k.bcastRx = some rx → k.subscribedPrefixes ≠ [] ∧ rx ≤ log.length ∧
    (got ++ events (unwritten k.pending)).Sublist (stream pre (log.take rx))

section conn

variable {cfg : Config} {fromStr : String → Option ClientMessage} {s : Daemon} {a : Action}
  {pre : String} {log : List BroadcastMsg} {got : List ServerEvent} {k k' : Conn} {c : Nat}

theorem Follows.grow (h : Follows pre log got k) (ms : List BroadcastMsg) :
    Follows pre (log ++ ms) got k := by
  refine ⟨h.prefixes, h.silent, fun rx hrx => ?_⟩
  obtain ⟨hne, hle, hsub⟩ := h.position rx hrx
  refine ⟨hne, ?_, ?_⟩
  · rw [List.length_append]
    omega
  · rwa [List.take_append_of_le_length hle]

theorem handleLine_prefixes (cfg : Config) (fromStr : String → Option ClientMessage) (k : Conn)
    (c : Nat) (bus : BusState) (uplink : UplinkStatus) (sent now : Nat) (line : String) :
    ∀ p ∈ (handleLine cfg fromStr k c bus uplink sent now line).conn.subscribedPrefixes,
      p ∈ k.subscribedPrefixes ∨ fromStr (trim line) = some (.subscribe p) := by
  intro p hp
  unfold handleLine at hp
  split at hp
  · exact Or.inl hp
  · cases hm : fromStr (trim line) with
    | none =>
      rw [hm] at hp
      exact Or.inl hp
    | some msg =>
      rw [hm] at hp
      cases hs : k.sessionId with
      | none =>
        simp only [hs] at hp
        cases msg <;> exact Or.inl hp
      | some sid =>
        simp only [hs] at hp
        cases msg with
        | subscribe q =>
          simp only [handleMessage, answer] at hp
          split at hp
          · exact Or.inl hp
          · obtain hp | hp := List.mem_append.mp hp
            · exact Or.inl hp
            · obtain rfl := List.mem_singleton.mp hp
              exact Or.inr rfl
        | heartbeat tool skill prdSlug paths =>
          simp only [handleMessage] at hp
          split at hp <;> exact Or.inl hp
        | claimAcquire path ttl reason force =>
          rw [handleMessage_claimAcquire] at hp
          split at hp <;> exact Or.inl hp
        | _ => exact Or.inl hp

theorem performed_events (k : Conn) (ok : Bool) (e : Effect) (es : List Effect) :
    ∃ new, (Conn.performed { k with pending := es } ok e).written = k.written ++ new ∧
      (events new ++
        events (unwritten (Conn.performed { k with pending := es } ok e).pending)).Sublist
        (events (unwritten (e :: es))) := by
  cases e with
  | write l =>
    cases ok with
    | true =>
      refine ⟨[l], rfl, ?_⟩
      rw [← events_append]
      exact List.Sublist.refl _
    | false => exact ⟨[], (List.append_nil _).symm, List.nil_sublist _⟩
  | writeNotice n =>
    cases ok with
    | true => exact ⟨[.notice n], rfl, List.Sublist.refl _⟩
    | false => exact ⟨[], (List.append_nil _).symm, List.Sublist.refl _⟩
  | bail => exact ⟨[], (List.append_nil _).symm, List.nil_sublist _⟩
  | _ => exact ⟨[], (List.append_nil _).symm, List.Sublist.refl _⟩

theorem Follows.of_idle (h : Follows pre log got k) (hi : k.idle = true) {rx : Nat}
    (hrx : k.bcastRx = some rx) : k.subscribedPrefixes ≠ [] ∧ rx ≤ log.length ∧
      got.Sublist (stream pre (log.take rx)) := by
  rw [Conn.idle_iff] at hi
  obtain ⟨hne, hle, hsub⟩ := h.position rx hrx
  rw [hi.2] at hsub
  change (got ++ []).Sublist _ at hsub
  rw [List.append_nil] at hsub
  exact ⟨hne, hle, hsub⟩

theorem Follows.quiet (h : Follows pre log got k) (hi : k.idle = true) {es : List Effect}
    (hes : events (unwritten es) = []) : Follows pre log got { k with pending := es } := by
  refine ⟨h.prefixes, fun _ => hes, fun rx hrx => ?_⟩
  obtain ⟨hne, hle, hsub⟩ := h.of_idle hi hrx
  refine ⟨hne, hle, ?_⟩
  dsimp only
  rwa [hes, List.append_nil]

theorem Follows.mono (h : Follows pre log got k) {got' : List ServerEvent}
    (hg : got'.Sublist got) : Follows pre log got' k := by
  refine ⟨h.prefixes, h.silent, fun rx hrx => ?_⟩
  obtain ⟨hne, hle, hsub⟩ := h.position rx hrx
  exact ⟨hne, hle, (hg.append_right _).trans hsub⟩

theorem Follows.step (h : Follows pre s.log got k) (hgot : got.Sublist (stream pre s.log))
    (hpre : subscribesTo fromStr pre (some c) a = true) (hc : ConnStep cfg fromStr s c k a k') :
    ∃ new, k'.written = k.written ++ new ∧ (got ++ events new).Sublist (stream pre s.log) ∧
      Follows pre s.log (got ++ events new) k' := by
  have hsame (hw : k'.written = k.written) (hf : Follows pre s.log got k') :
      ∃ new, k'.written = k.written ++ new ∧ (got ++ events new).Sublist (stream pre s.log) ∧
        Follows pre s.log (got ++ events new) k' := by
    have hnil : got ++ events [] = got := List.append_nil got
    refine ⟨[], by rw [hw, List.append_nil], ?_⟩
    rw [hnil]
    exact ⟨hgot, hf⟩
  cases hc with
  | other ha => exact hsame rfl h
  | @line text now hi =>
    obtain ⟨_, hw, _⟩ := handleLine_conn cfg fromStr k c s.bus s.uplinkStatus s.log.length now text
    obtain ⟨hplain, _, hps, hrx⟩ := handleLine_stream cfg fromStr k c s.bus s.uplinkStatus
      s.log.length now (Conn.idle_iff.mp hi).2 text
    have hnone := (unwritten_plain hplain).1
    have hsubs := handleLine_prefixes cfg fromStr k c s.bus s.uplinkStatus s.log.length now text
    generalize handleLine cfg fromStr k c s.bus s.uplinkStatus s.log.length now text = r at *
    refine hsame hw ⟨fun p hp => ?_, fun _ => hnone, fun rx hrx' => ?_⟩
    · obtain hp | hsub := hsubs p hp
      · exact h.prefixes p hp
      · simpa [subscribesTo, hsub] using hpre
    · rw [hnone, List.append_nil]
      obtain hrx | ⟨_, hrx, hne, _⟩ := hrx
      · rw [hrx] at hrx'
        obtain ⟨hne, hle, hsub⟩ := h.of_idle hi hrx'
        refine ⟨fun hnil => hne ?_, hle, hsub⟩
        rwa [hnil, List.prefix_nil] at hps
      · -- the first subscription starts where the log ends
        rw [hrx] at hrx'
        cases hrx'
        rw [List.take_length]
        exact ⟨hne, Nat.le_refl _, hgot⟩
  | hangup hi => exact hsame rfl (h.quiet hi rfl)
  | @lag rx hi hrx hlag =>
    refine hsame rfl ⟨h.prefixes, fun hnone => absurd hnone (Option.some_ne_none _),
      fun rx' hrx' => ?_⟩
    cases hrx'
    obtain ⟨hne, hle, hsub⟩ := h.of_idle hi hrx
    have hlater : rx ≤ s.log.length - cfg.broadcastCapacity.nextPowerOfTwo := by omega
    have hnil : events (unwritten k.pending) = [] := by
      rw [(Conn.idle_iff.mp hi).2]
      rfl
    refine ⟨hne, Nat.sub_le _ _, ?_⟩
    dsimp only
    rw [hnil, List.append_nil]
    exact hsub.trans (stream_sublist pre (List.take_sublist_take_left hlater))
  | @event rx m hi hrx hup hm =>
    refine hsame rfl ⟨h.prefixes, fun hnone => absurd hnone (Option.some_ne_none _),
      fun rx' hrx' => ?_⟩
    cases hrx'
    obtain ⟨hne, hle, hsub⟩ := h.of_idle hi hrx
    obtain ⟨hlt, _⟩ := List.getElem?_eq_some_iff.mp hm
    refine ⟨hne, hlt, ?_⟩
    rw [List.take_add_one, hm, Option.toList_some, stream_append]
    refine hsub.append ?_
    have hmatch : topicMatches k.subscribedPrefixes m.topic =
        decide (pre.toList <+: m.topic.toList) := by
      rw [Bool.eq_iff_iff, topicMatches_iff hne, decide_eq_true_eq]
      constructor
      · rintro ⟨p, hp, he⟩
        rwa [h.prefixes p hp] at he
      · intro he
        obtain ⟨p, hp⟩ := List.exists_mem_of_ne_nil _ hne
        exact ⟨p, hp, by rwa [h.prefixes p hp]⟩
    dsimp only
    rw [hmatch, stream, List.filter_singleton]
    cases decide (pre.toList <+: m.topic.toList) <;> exact List.Sublist.refl _
  | drain hi =>
    refine hsame rfl (h.quiet hi ?_)
    cases k.bcastRx <;> rfl
  | @proceed e es now ok hp hr =>
    obtain ⟨new, hw, hsub⟩ := performed_events k ok e es
    rw [← hp] at hsub
    have hwhole : (got ++ events new).Sublist (stream pre s.log) := by
      cases hrx : k.bcastRx with
      | none =>
        rw [h.silent hrx, List.sublist_nil, List.append_eq_nil_iff] at hsub
        rwa [hsub.1, List.append_nil]
      | some rx =>
        obtain ⟨_, _, hall⟩ := h.position rx hrx
        have hnew := (List.sublist_append_left _ _).trans hsub
        exact (hnew.append_left got).trans
          (hall.trans (stream_sublist pre (List.take_sublist _ _)))
    refine ⟨new, hw, hwhole, ⟨fun p hp => ?_, fun hnone => ?_, fun rx hrx => ?_⟩⟩
    · rw [performed_subscribedPrefixes] at hp
      exact h.prefixes p hp
    · rw [performed_bcastRx] at hnone
      rw [h.silent hnone, List.sublist_nil, List.append_eq_nil_iff] at hsub
      exact hsub.2
    · rw [performed_bcastRx] at hrx
      obtain ⟨hne, hle, hall⟩ := h.position rx hrx
      rw [performed_subscribedPrefixes, List.append_assoc]
      exact ⟨hne, hle, (hsub.append_left got).trans hall⟩
  | abort hr hw =>
    refine hsame rfl ⟨h.prefixes, fun _ => rfl, fun rx hrx => ?_⟩
    obtain ⟨hne, hle, hall⟩ := h.position rx hrx
    exact ⟨hne, hle, ((List.nil_sublist _).append_left got).trans hall⟩

end conn

section Run

variable {cfg : Config} {fromStr : String → Option ClientMessage} {pre : String} {s t : Follower}

/-- What the command has handed on or has still to read is part of the stream, and so it stays
with what its connection has left to write. -/
structure InOrder (pre : String) (s : Follower) : Prop where
  whole : (s.printed ++ events s.inbox).Sublist (stream pre s.daemon.log)
  current : ∀ c, s.conn = some c → ∃ k, s.daemon.conns[c]? = some k ∧
    Follows pre s.daemon.log (s.printed ++ events s.inbox) k

theorem inOrder_start (file : DurableState) (now : Nat) : InOrder pre (.start file now) :=
  ⟨List.nil_sublist _, fun c hc => by cases hc⟩

theorem follows_fresh (log : List BroadcastMsg) (got : List ServerEvent) :
    Follows pre log got .fresh :=
  ⟨List.forall_mem_nil _, fun _ => rfl, fun rx hrx => by cases hrx⟩

theorem inOrder_daemon {a : Action} (hs : InOrder pre s)
    (h : s.step cfg fromStr pre (.daemon a) = some t) : InOrder pre t := by
  simp only [Follower.step, Option.ite_none_right_eq_some, Option.map_eq_some_iff] at h
  obtain ⟨hpre, d, hd, rfl⟩ := h
  have hlog : d.log = s.daemon.log ++ s.daemon.sends cfg fromStr a := step_log hd
  have hgrow : (stream pre s.daemon.log).Sublist (stream pre d.log) := by
    rw [hlog]
    exact stream_sublist pre (List.sublist_append_left _ _)
  by_cases hb : ∃ now, a = .boot now
  · obtain ⟨now, rfl⟩ := hb
    obtain ⟨_, _, rfl⟩ := step_boot.mp hd
    have hnone : newLines s.daemon (.start s.daemon.file s.daemon.log now) s.conn = [] := by
      cases s.conn with
      | none => rfl
      | some c => exact List.drop_nil
    refine ⟨?_, fun c hc => by cases hc⟩
    dsimp only
    rw [hnone, List.append_nil]
    exact hs.whole
  · have hb' : ∀ now, a ≠ .boot now := fun now he => hb ⟨now, he⟩
    have hconn : connAfter s.conn a = s.conn := connAfter_of_not_boot s.conn hb'
    cases hc : s.conn with
    | none =>
      rw [hc] at hconn
      refine ⟨?_, fun c hc' => ?_⟩
      · rw [show newLines s.daemon d none = [] from rfl, List.append_nil]
        exact hs.whole.trans hgrow
      · rw [hconn] at hc'
        cases hc'
    | some c =>
      rw [hc] at hconn hpre
      obtain ⟨k, hk, hf⟩ := hs.current c hc
      obtain ⟨k', hk', hstep⟩ := step_conn hd hb' hk
      obtain ⟨new, hw, hwhole, hnext⟩ := hf.step hs.whole hpre hstep
      have hnew : newLines s.daemon d (some c) = new := by
        simp [newLines, hk, hk', hw]
      have hgot : s.printed ++ events (s.inbox ++ new) =
          s.printed ++ events s.inbox ++ events new := by
        rw [events_append, List.append_assoc]
      rw [hnew]
      refine ⟨?_, fun c' hc' => ⟨k', ?_, ?_⟩⟩
      · dsimp only
        rw [hgot]
        exact hwhole.trans hgrow
      · rw [hconn] at hc'
        cases hc'
        exact hk'
      · dsimp only
        rw [hgot, hlog]
        exact hnext.grow _

theorem inOrder_step {m : Move} (hs : InOrder pre s) (h : s.step cfg fromStr pre m = some t) :
    InOrder pre t := by
  cases m with
  | daemon a => exact inOrder_daemon hs h
  | connect =>
    simp only [Follower.step, Option.map_eq_some_iff] at h
    obtain ⟨d, hd, rfl⟩ := h
    obtain ⟨_, rfl⟩ := step_connect.mp hd
    have hnil : s.printed ++ events [] = s.printed := List.append_nil _
    refine ⟨?_, fun c hc => ⟨.fresh, ?_, follows_fresh _ _⟩⟩
    · dsimp only
      rw [hnil]
      exact (List.sublist_append_left _ _).trans hs.whole
    · cases hc
      simp
  | print =>
    simp only [Follower.step] at h
    split at h
    · rename_i l ls hinbox
      cases h
      have hgot : s.printed ++ events [l] ++ events ls = s.printed ++ events s.inbox := by
        rw [List.append_assoc, ← events_append, hinbox]
        rfl
      refine ⟨?_, fun c hc => ?_⟩
      · dsimp only
        rw [hgot]
        exact hs.whole
      · dsimp only
        rw [hgot]
        exact hs.current c hc
    · cases h
  | discard =>
    simp only [Follower.step] at h
    split at h
    · rename_i l ls hinbox
      cases h
      have hgot : (s.printed ++ events ls).Sublist (s.printed ++ events s.inbox) := by
        rw [hinbox]
        refine List.Sublist.append_left ?_ _
        exact (List.sublist_cons_self l ls).filterMap _
      refine ⟨hgot.trans hs.whole, fun c hc => ?_⟩
      obtain ⟨k, hk, hf⟩ := hs.current c hc
      exact ⟨k, hk, hf.mono hgot⟩
    · cases h

/-- On a connection, the read loop of the command does what printing one line after the other
does. -/
theorem readLoop_prints {sub : Subscription}
    (hsub : Json.ReadsAs sub.fromStr InboundLine.fromStr) {ls : List OutLine}
    (hfits : ∀ l ∈ ls, l.Fits) (hs : s.inbox = ls) {st : Reconnect.State}
    (hst : st.handed = s.printed) :
    ∃ n t, run (Follower.step cfg fromStr pre) s (List.replicate n .print) = some t ∧
      t.daemon = s.daemon ∧
      t.printed = (readLoop sub st (ls.map OutLine.text)).handed := by
  induction ls generalizing s st with
  | nil => exact ⟨0, s, rfl, rfl, hst.symm⟩
  | cons l ls ih =>
    have hl : l.Fits := hfits l List.mem_cons_self
    have hfits : ∀ l ∈ ls, l.Fits := fun l' hl' => hfits l' (List.mem_cons_of_mem _ hl')
    have hread : sub.fromStr l.text = l.inbound :=
      (hsub _ (OutLine.writes_toJson hl).inRange.floatFree_text).trans (OutLine.fromStr_text hl)
    let u : Follower := { s with inbox := ls, printed := s.printed ++ events [l] }
    have hstep : s.step cfg fromStr pre .print = some u := by simp only [Follower.step, hs, u]
    have hmore {st : Reconnect.State} (hst : st.handed = u.printed) :
        ∃ n t, run (Follower.step cfg fromStr pre) s (List.replicate n .print) = some t ∧
          t.daemon = s.daemon ∧
          t.printed = (readLoop sub st (ls.map OutLine.text)).handed := by
      obtain ⟨n, t, ht, hd, hp⟩ := ih (s := u) hfits rfl hst
      exact ⟨n + 1, t, (run_cons_eq_some _).mpr ⟨u, hstep, ht⟩, hd, hp⟩
    rw [List.map_cons, readLoop, hread]
    cases l with
    | reply | notice => exact hmore (hst.trans (List.append_nil _).symm)
    | event e =>
      have hhand : (hand sub st e).handed = u.printed := congrArg (· ++ [e]) hst
      dsimp only [OutLine.inbound]
      split
      · exact ⟨1, u, (run_cons_eq_some _).mpr ⟨u, hstep, rfl⟩, rfl, hhand.symm⟩
      · exact hmore hhand

/-- So what a call hands on, on a connection that it has come to in this way, is in order. -/
theorem readLoop_in_order {sub : Subscription}
    (hsub : Json.ReadsAs sub.fromStr InboundLine.fromStr) {file : DurableState} {now : Nat}
    {ms : List Move} (hr : run (Follower.step cfg fromStr pre) (.start file now) ms = some s)
    (hfits : ∀ l ∈ s.inbox, l.Fits) {st : Reconnect.State} (hst : st.handed = s.printed) :
    (readLoop sub st (s.inbox.map OutLine.text)).handed.Sublist (stream pre s.daemon.log) := by
  obtain ⟨n, t, ht, hd, hp⟩ := readLoop_prints hsub hfits rfl hst
  have hend : InOrder pre t := run_invariant (fun _ _ _ hs h => inOrder_step hs h)
    ((run_append_eq_some _).mpr ⟨s, hr, ht⟩) (inOrder_start file now)
  rw [← hp, ← hd]
  exact (List.sublist_append_left _ _).trans hend.whole

/-- Over all its connections, through lags, failed writes, drains, restarts of the daemon and
whenever it leaves, the command hands on events of its topic only, in the order in which the
messages have been sent, and no message twice. -/
theorem printed_in_order (cfg : Config) (fromStr : String → Option ClientMessage) (pre : String)
    (file : DurableState) (now : Nat) (ms : List Move) (t : Follower)
    (hr : run (Follower.step cfg fromStr pre) (.start file now) ms = some t) :
    t.printed.Sublist ((t.daemon.log.filter (fun m =>
      decide (pre.toList <+: m.topic.toList))).map BroadcastMsg.toEvent) := by
  have hend : InOrder pre t :=
    run_invariant (fun _ _ _ hs h => inOrder_step hs h) hr (inOrder_start file now)
  exact (List.sublist_append_left _ _).trans hend.whole

def resubscribeLines : String → Option ClientMessage :=
  decodeFrom [(announceLine "s1", .announce "s1" 7 "/" "" none),
    (subscribeLine, .subscribe "a.")]

def session (now : Nat) : List Move :=
  .connect :: ([.line 0 (announceLine "s1") now, .proceed 0 now true, .line 0 subscribeLine now,
    .proceed 0 now true].map Move.daemon ++ [.discard, .discard])

def bounce : List Move :=
  [.shutdown, .drain 0, .proceed 0 3 true, .proceed 0 3 true, .graceOver, .finalSnapshot,
    .finalSave true, .persistExit, .finish, .boot 10].map Move.daemon

def bouncedSession : List Move :=
  session 1 ++ [.uplinkInbound "z" .null "zeus", .uplinkInbound "a.b" .null "zeus", .event 0,
    .event 0, .proceed 0 2 true].map Move.daemon ++ .print :: (bounce ++ session 11 ++
  [.uplinkInbound "a.c" .null "zeus", .event 0, .proceed 0 12 true].map Move.daemon ++ [.print])

theorem printed_in_order_restart :
    ∃ t, run (Follower.step ⟨60, 1024, 3000, true, "carbon"⟩ resubscribeLines "a.")
        (.start .default 0) bouncedSession = some t ∧
      t.printed.map ServerEvent.topic = ["a.b", "a.c"] ∧
      t.printed.Sublist ((t.daemon.log.filter (fun m =>
        decide ("a.".toList <+: m.topic.toList))).map BroadcastMsg.toEvent) := by
  have ht : (run (Follower.step ⟨60, 1024, 3000, true, "carbon"⟩ resubscribeLines "a.")
      (.start .default 0) bouncedSession).map (fun t => t.printed.map ServerEvent.topic) =
        some ["a.b", "a.c"] := by
    decide +kernel
  obtain ⟨t, ht, hprinted⟩ := Option.map_eq_some_iff.mp ht
  exact ⟨t, ht, hprinted, printed_in_order _ _ _ _ _ _ _ ht⟩

end Run

end Agorabus.Resubscribe
