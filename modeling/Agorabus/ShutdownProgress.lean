import Agorabus.ClaimEvents

namespace Agorabus.ShutdownProgress

open Agorabus Daemon StepSystem
open Agorabus.ClaimEvents (sum_map_set)

def Effect.isWrite : Effect → Bool
  | .write _ | .writeNotice _ => true
  | _ => false

def Effect.isCleanup : Effect → Bool
  | .cleanup => true
  | _ => false

/-- The steps the tasks take by themselves and that do not wait for a socket to take a line. -/
def Unaided (s : Daemon) : Action → Prop
  | .proceed c _ _ =>
      ∃ k e es, s.conns[c]? = some k ∧ k.pending = e :: es ∧ Effect.isWrite e = false
  | .abort _ | .presenceSend _ | .persistRecv | .persistWake | .persistTryRecv
  | .persistSnapshot | .persistSave _ | .persistExit | .graceOver | .finalSnapshot
  | .finalSave _ | .finish => True
  | _ => False

/-- The signal an effect sends takes the persist task through one round at most, and the message
it broadcasts is read and written by at most `n` receivers. -/
def Effect.weight (n : Nat) : Effect → Nat
  | .signal => 6
  | .broadcast _ => 1 + 2 * n
  | _ => 1

def Conn.behind (log : Nat) (k : Conn) : Nat := k.bcastRx.elim 0 (fun rx => log - rx)

def Conn.effort (n log : Nat) (k : Conn) : Nat :=
  if k.status = .running then
    (k.pending.map (Effect.weight n)).sum +
      (if k.pending.any Effect.isCleanup then 1 else 4 + 2 * Conn.behind log k)
  else 0

def PersistPc.effort : PersistPc → Nat
  | .done => 0
  | .waiting => 1
  | .saving _ => 2
  | .locking => 3
  | .draining => 4
  | .sleeping => 5

def MainPc.effort : MainPc → Nat
  | .serving => 5
  | .draining => 4
  | .aborting => 3
  | .flushing _ => 2
  | .closing => 1
  | .stopped => 0

/-- What is left to do for a daemon to which nothing more arrives. -/
def effort (s : Daemon) : Nat :=
  (s.conns.map (Conn.effort s.conns.length s.log.length)).sum +
    s.presence.length * (1 + 2 * s.conns.length) + 5 * s.signals + PersistPc.effort s.persist +
    MainPc.effort s.main

/-- What the steps that answer to something outside of the daemon add to it: a client's line,
a message of the relay, a tick of the presence timer, which has every peer announced. -/
def arriving (s : Daemon) : Action → Nat
  | .line .. => 9 + 4 * s.conns.length
  | .uplinkInbound .. => 1 + 2 * s.conns.length
  | .presenceTick => 1 + s.bus.peers.values.length * (1 + 2 * s.conns.length)
  | .tick _ | .uplinkEvent _ => 1
  | _ => 0

section Step

variable {cfg : Config} {fromStr : String → Option ClientMessage} {s t : Daemon} {a : Action}

theorem effort_grow (n log m : Nat) (k : Conn) :
    Conn.effort n (log + m) k ≤ Conn.effort n log k + 2 * m := by
  have hbehind : Conn.behind (log + m) k ≤ Conn.behind log k + m := by
    cases hrx : k.bcastRx with
    | none => simp [Conn.behind, hrx]
    | some rx =>
      simp only [Conn.behind, hrx, Option.elim_some]
      omega
  unfold Conn.effort
  split
  · split <;> omega
  · omega

theorem sum_effort_grow (n log m : Nat) (ks : List Conn) :
    (ks.map (Conn.effort n (log + m))).sum ≤
      (ks.map (Conn.effort n log)).sum + 2 * m * ks.length := by
  induction ks with
  | nil => simp
  | cons k ks ih =>
    have hk := effort_grow n log m k
    rw [List.map_cons, List.map_cons, List.sum_cons, List.sum_cons, List.length_cons,
      Nat.mul_add]
    omega

theorem effort_update {c m : Nat} {k l : Conn} (hk : s.conns[c]? = some k)
    (hconns : t.conns = s.conns.set c l) (hlog : t.log.length = s.log.length + m)
    (hpresence : t.presence = s.presence) (hpersist : t.persist = s.persist)
    (hmain : t.main = s.main) :
    effort t + 5 * s.signals + Conn.effort s.conns.length s.log.length k ≤
      effort s + 5 * t.signals + Conn.effort s.conns.length s.log.length l +
        2 * m * s.conns.length := by
  have hlen : t.conns.length = s.conns.length := by rw [hconns, List.length_set]
  have hset := sum_map_set hk l (Conn.effort s.conns.length s.log.length)
  have hgrow := sum_effort_grow s.conns.length s.log.length m t.conns
  rw [← hlog, hlen] at hgrow
  rw [← hconns] at hset
  simp only [effort, hpresence, hpersist, hmain, hlen]
  omega

theorem effort_pending {k : Conn} {e : Effect} {es : List Effect} (hp : k.pending = e :: es)
    (hrun : k.status = .running) (n log : Nat) (he : Effect.isCleanup e = false) :
    Conn.effort n log k = Effect.weight n e + Conn.effort n log { k with pending := es } := by
  simp only [Conn.effort, hrun, if_true, hp, List.map_cons, List.sum_cons, List.any_cons, he,
    Bool.false_or, Conn.behind]
  omega

theorem effort_pos {k : Conn} (hrun : k.status = .running) (n log : Nat) :
    0 < Conn.effort n log k := by
  rw [Conn.effort, if_pos hrun]
  split <;> omega

theorem effort_perform {c : Nat} {k : Conn} {e : Effect} {es : List Effect}
    (hk : s.conns[c]? = some k) (hp : k.pending = e :: es) (hrun : k.status = .running)
    (now : Nat) (ok : Bool) :
    effort (s.perform c { k with pending := es } now ok e) + 1 ≤ effort s := by
  have hpos := effort_pos hrun s.conns.length s.log.length
  have hold := effort_pending hp hrun s.conns.length s.log.length
  have hgone (k' : Conn) (h : k'.status = .returned) :
      Conn.effort s.conns.length s.log.length k' = 0 := by
    rw [Conn.effort, h, if_neg (by decide)]
  have hset (m : Nat) (l : Conn) := effort_update
    (t := s.perform c { k with pending := es } now ok e) (m := m) (l := l) hk
  cases e with
  | touch sid =>
    have hold := hold rfl
    have hset := hset 0 { k with pending := es } rfl rfl rfl rfl rfl
    have hsig : (s.perform c { k with pending := es } now ok (.touch sid)).signals = s.signals :=
      rfl
    simp only [Effect.weight] at hold
    omega
  | signal =>
    have hold := hold rfl
    have hset := hset 0 { k with pending := es } rfl rfl rfl rfl rfl
    have hsig : (s.perform c { k with pending := es } now ok .signal).signals ≤ s.signals + 1 := by
      simp only [perform, setConn]
      split <;> omega
    simp only [Effect.weight] at hold
    omega
  | broadcast m =>
    have hold := hold rfl
    have hset := hset 1 { k with pending := es } rfl (by simp [perform, setConn]) rfl rfl rfl
    have hsig : (s.perform c { k with pending := es } now ok (.broadcast m)).signals =
        s.signals := rfl
    simp only [Effect.weight] at hold
    omega
  | write l =>
    have hold := hold rfl
    cases ok with
    | true =>
      have hset := hset 0 { k with pending := es, written := k.written ++ [l] } rfl rfl rfl rfl rfl
      have hsig : (s.perform c { k with pending := es } now true (.write l)).signals =
          s.signals := rfl
      simp only [Effect.weight, Conn.effort, Conn.behind] at hold hset
      omega
    | false =>
      have hset := hset 0 { k with pending := [], status := .returned } rfl rfl rfl rfl rfl
      have hsig : (s.perform c { k with pending := es } now false (.write l)).signals =
          s.signals := rfl
      rw [hgone { k with pending := [], status := .returned } rfl] at hset
      omega
  | writeNotice n =>
    have hold := hold rfl
    have hsig : (s.perform c { k with pending := es } now ok (.writeNotice n)).signals =
        s.signals := rfl
    cases ok with
    | true =>
      have hset := hset 0 { k with pending := es, written := k.written ++ [.notice n] } rfl rfl
        rfl rfl rfl
      simp only [Effect.weight, Conn.effort, Conn.behind] at hold hset
      omega
    | false =>
      have hset := hset 0 { k with pending := es } rfl rfl rfl rfl rfl
      simp only [Effect.weight] at hold
      omega
  | bail =>
    have hset := hset 0 { k with pending := [], status := .returned } rfl rfl rfl rfl rfl
    have hsig : (s.perform c { k with pending := es } now ok .bail).signals = s.signals := rfl
    rw [hgone { k with pending := [], status := .returned } rfl] at hset
    omega
  | cleanup =>
    have hset := hset 0 { k with pending := es, status := .returned } rfl rfl rfl rfl rfl
    have hsig : (s.perform c { k with pending := es } now ok .cleanup).signals = s.signals := rfl
    rw [hgone { k with pending := es, status := .returned } rfl] at hset
    omega

theorem effort_handleLine (cfg : Config) (fromStr : String → Option ClientMessage) {k : Conn}
    (hidle : k.idle) (n c now : Nat) (bus : BusState) (uplink : UplinkStatus) (sent : Nat)
    (text : String) :
    Conn.effort n sent (handleLine cfg fromStr k c bus uplink sent now text).conn ≤
        Conn.effort n sent k + 8 + 2 * n ∧
      (handleLine cfg fromStr k c bus uplink sent now text).sent.length ≤ 1 := by
  obtain ⟨hrun, hp⟩ := Conn.idle_iff.mp hidle
  have hold : Conn.effort n sent k = 4 + 2 * Conn.behind sent k := by
    simp [Conn.effort, hrun, hp]
  have hanswer (es : List Effect) (sid : Option String) (pre : List String) (rx : Option Nat)
      (out : List OutLine) (hrx : rx.elim 0 (fun rx => sent - rx) ≤ Conn.behind sent k)
      (hclean : es.any Effect.isCleanup = false)
      (hsum : (es.map (Effect.weight n)).sum ≤ 8 + 2 * n) :
      Conn.effort n sent ⟨.running, sid, pre, rx, es, out⟩ ≤ Conn.effort n sent k + 8 + 2 * n := by
    simp only [Conn.effort, if_true, hclean, Bool.false_eq_true, if_false] at hold ⊢
    simp only [Conn.behind] at hold hrx ⊢
    omega
  have hsame : k.bcastRx.elim 0 (fun rx => sent - rx) ≤ Conn.behind sent k := Nat.le_refl _
  rw [handleLine]
  split
  · refine ⟨?_, Nat.zero_le _⟩
    rw [Nat.add_assoc]
    exact Nat.le_add_right _ _
  · split
    · refine ⟨?_, Nat.zero_le _⟩
      rw [hrun]
      exact hanswer _ _ _ _ _ hsame rfl (by simp [Effect.weight]; omega)
    · rename_i msg _
      cases hsid : k.sessionId with
      | none =>
        cases msg with
        | announce sid pid cwd intent node =>
          simp only [handleFirst, answer, hrun]
          exact ⟨hanswer _ _ _ _ _ hsame rfl (by simp [Effect.weight]; omega), Nat.zero_le _⟩
        | _ =>
          simp only [handleFirst, hrun]
          exact ⟨hanswer _ _ _ _ _ hsame rfl (by simp [Effect.weight]; omega), Nat.zero_le _⟩
      | some sid =>
        cases msg with
        | heartbeat tool skill prdSlug paths =>
          simp only [handleMessage, answer, hrun]
          split
          · exact ⟨hanswer _ _ _ _ _ hsame rfl (by simp [Effect.weight]; omega), Nat.zero_le _⟩
          · split
            · exact ⟨hanswer _ _ _ _ _ hsame rfl (by simp [Effect.weight]; omega),
                Nat.zero_le _⟩
            · exact ⟨hanswer _ _ _ _ _ hsame rfl (by simp [Effect.weight]; omega),
                Nat.zero_le _⟩
        | claimAcquire path ttl reason force =>
          simp only [handleMessage_claimAcquire, answer, hrun]
          split
          · exact ⟨hanswer _ _ _ _ _ hsame rfl (by simp [Effect.weight]; omega), Nat.zero_le _⟩
          · refine ⟨hanswer _ _ _ _ _ hsame rfl (by simp [Effect.weight]; omega), ?_⟩
            rename_i evicted _
            cases evicted <;> simp
        | claimRelease path =>
          simp only [handleMessage, hrun]
          split
          · exact ⟨hanswer _ _ _ _ _ hsame rfl (by simp [Effect.weight]; omega), Nat.zero_le _⟩
          · exact ⟨hanswer _ _ _ _ _ hsame rfl (by simp [Effect.weight]; omega), Nat.zero_le _⟩
        | subscribe pre =>
          simp only [handleMessage, answer, hrun]
          refine ⟨hanswer _ _ _ _ _ ?_ rfl (by simp [Effect.weight]; omega), Nat.zero_le _⟩
          cases hrx : k.bcastRx <;> simp [Conn.behind, hrx]
        | publish topic data =>
          simp only [handleMessage, hrun]
          exact ⟨hanswer _ _ _ _ _ hsame rfl (by simp [Effect.weight]; omega), Nat.le_refl _⟩
        | _ =>
          simp only [handleMessage, answer, hrun]
          exact ⟨hanswer _ _ _ _ _ hsame rfl (by simp [Effect.weight]; omega), Nat.zero_le _⟩

theorem effort_takeEvent {c rx : Nat} {k : Conn} (hk : s.conns[c]? = some k) (hidle : k.idle)
    (hrx : k.bcastRx = some rx) (h : s.takeEvent cfg c k rx = some t) :
    effort t + 1 ≤ effort s := by
  obtain ⟨hrun, hp⟩ := Conn.idle_iff.mp hidle
  have hold : Conn.effort s.conns.length s.log.length k = 4 + 2 * (s.log.length - rx) := by
    simp [Conn.effort, hrun, hp, Conn.behind, hrx]
  unfold takeEvent at h
  split at h
  · obtain rfl := Option.some.inj h
    have hset := effort_update (m := 0) (t := s.setConn c { k with
      bcastRx := some (s.log.length - cfg.broadcastCapacity.nextPowerOfTwo) }) hk rfl rfl rfl
      rfl rfl
    have hnew : Conn.effort s.conns.length s.log.length { k with
        bcastRx := some (s.log.length - cfg.broadcastCapacity.nextPowerOfTwo) } =
        4 + 2 * (s.log.length - (s.log.length - cfg.broadcastCapacity.nextPowerOfTwo)) := by
      simp [Conn.effort, hrun, hp, Conn.behind]
    have hsig : (s.setConn c { k with
      bcastRx := some (s.log.length - cfg.broadcastCapacity.nextPowerOfTwo) }).signals =
        s.signals := rfl
    omega
  · obtain ⟨m, hm, rfl⟩ := Option.map_eq_some_iff.mp h
    have hlt : rx < s.log.length := (List.getElem?_eq_some_iff.mp hm).1
    have hset := effort_update (m := 0) (t := s.setConn c { k with
      bcastRx := some (rx + 1)
      pending := if topicMatches k.subscribedPrefixes m.topic
        then [.write (.event m.toEvent)] else [] }) hk rfl rfl rfl rfl rfl
    have hnew : Conn.effort s.conns.length s.log.length { k with
        bcastRx := some (rx + 1)
        pending := if topicMatches k.subscribedPrefixes m.topic
          then [.write (.event m.toEvent)] else [] } ≤ 5 + 2 * (s.log.length - (rx + 1)) := by
      simp only [Conn.effort, hrun, if_true, Conn.behind, Option.elim_some]
      split <;> simp [Effect.weight, Effect.isCleanup]
      omega
    have hsig : (s.setConn c { k with
      bcastRx := some (rx + 1)
      pending := if topicMatches k.subscribedPrefixes m.topic
        then [.write (.event m.toEvent)] else [] }).signals = s.signals := rfl
    omega

/-- The cleanup that an idle task is sent to, with the notice before it, is less than the reading
that it is spared. -/
theorem effort_leave {c : Nat} {k : Conn} (hk : s.conns[c]? = some k) (hidle : k.idle)
    (notice : List Effect) (hn : (notice.map (Effect.weight s.conns.length)).sum ≤ 1) :
    effort (s.setConn c { k with pending := notice ++ [.cleanup] }) + 1 ≤ effort s := by
  obtain ⟨hrun, hp⟩ := Conn.idle_iff.mp hidle
  have hold : 4 ≤ Conn.effort s.conns.length s.log.length k := by
    simp [Conn.effort, hrun, hp]
  have hset := effort_update (m := 0)
    (t := s.setConn c { k with pending := notice ++ [.cleanup] }) hk rfl rfl rfl rfl rfl
  have hnew : Conn.effort s.conns.length s.log.length
      { k with pending := notice ++ [.cleanup] } ≤ 3 := by
    simp only [Conn.effort, hrun, if_true, List.map_append, List.sum_append, List.any_append]
    simp [Effect.weight, Effect.isCleanup]
    omega
  have hsig : (s.setConn c { k with pending := notice ++ [.cleanup] }).signals = s.signals := rfl
  omega

theorem effort_step (hm : s.main.isServing = false) (hboot : ∀ now, a ≠ .boot now)
    (h : step cfg fromStr s a = some t) : effort t + 1 ≤ effort s + arriving s a := by
  cases a with
  | tick now =>
    obtain ⟨_, rfl⟩ := step_tick.mp h
    simp only [effort, arriving]
    omega
  | connect => rw [(step_connect.mp h).1] at hm; cases hm
  | shutdown => rw [(step_shutdown.mp h).1] at hm; cases hm
  | boot now => exact absurd rfl (hboot now)
  | line c text now =>
    obtain ⟨k, hk, ⟨hidle, _⟩, rfl⟩ := step_line.mp h
    obtain ⟨hconn, hsent⟩ := effort_handleLine cfg fromStr hidle
      s.conns.length c now s.bus s.uplinkStatus s.log.length text
    have hset := effort_update (t := s.takeLine cfg fromStr c k text now)
      (m := (handleLine cfg fromStr k c s.bus s.uplinkStatus s.log.length now text).sent.length)
      hk rfl List.length_append rfl rfl rfl
    have hsig : (s.takeLine cfg fromStr c k text now).signals = s.signals := rfl
    have hmul := Nat.mul_le_mul_right s.conns.length (Nat.mul_le_mul_left 2 hsent)
    simp only [arriving]
    omega
  | hangup c =>
    obtain ⟨k, hk, hidle, rfl⟩ := step_hangup.mp h
    have hleave := effort_leave hk hidle [] (Nat.zero_le _)
    exact Nat.le_trans hleave (Nat.le_add_right _ _)
  | event c =>
    obtain ⟨k, rx, hk, hrx, hidle, he⟩ := step_event.mp h
    exact Nat.le_trans (effort_takeEvent hk hidle hrx he) (Nat.le_add_right _ _)
  | drain c =>
    obtain ⟨k, hk, _, hidle, rfl⟩ := step_drain.mp h
    refine Nat.le_trans (effort_leave hk hidle _ ?_) (Nat.le_add_right _ _)
    cases k.bcastRx <;> simp [Effect.weight]
  | proceed c now ok =>
    obtain ⟨k, e, es, hk, hp, ⟨hrun, _⟩, rfl⟩ := step_proceed.mp h
    exact effort_perform (s := { s with clock := now }) hk hp hrun now ok
  | abort c =>
    obtain ⟨k, hk, _, ⟨hrun, _⟩, rfl⟩ := step_abort.mp h
    have hpos := effort_pos hrun s.conns.length s.log.length
    have hset := effort_update (m := 0)
      (t := s.setConn c { k with status := .aborted, pending := [] }) hk rfl rfl rfl rfl rfl
    have hgone : Conn.effort s.conns.length s.log.length
        { k with status := .aborted, pending := [] } = 0 := rfl
    have hsig : (s.setConn c { k with status := .aborted, pending := [] }).signals =
        s.signals := rfl
    simp only [arriving]
    omega
  | uplinkEvent st =>
    obtain ⟨_, rfl⟩ := step_uplinkEvent.mp h
    simp only [effort, arriving]
    omega
  | uplinkInbound topic data origin =>
    obtain ⟨_, rfl⟩ := step_uplinkInbound.mp h
    have hgrow := sum_effort_grow s.conns.length s.log.length 1 s.conns
    simp only [effort, arriving, List.length_append, List.length_singleton]
    omega
  | presenceTick =>
    obtain ⟨⟨_, _, hempty⟩, rfl⟩ := step_presenceTick.mp h
    rw [List.isEmpty_iff] at hempty
    simp only [effort, arriving, hempty, List.length_nil]
    omega
  | presenceSend now =>
    obtain ⟨p, ps, hp, _, rfl⟩ := step_presenceSend.mp h
    have hgrow := sum_effort_grow s.conns.length s.log.length 1 s.conns
    simp only [effort, arriving, List.length_append, hp, List.length_cons, List.length_nil,
      Nat.zero_add, Nat.add_mul]
    omega
  | persistRecv =>
    obtain ⟨hp, hsig, rfl⟩ := step_persistRecv.mp h
    simp only [effort, arriving, hp, PersistPc.effort]
    omega
  | persistWake =>
    obtain ⟨hp, rfl⟩ := step_persistWake.mp h
    simp only [effort, arriving, hp, PersistPc.effort]
    omega
  | persistTryRecv =>
    obtain ⟨hp, rfl⟩ := step_persistTryRecv.mp h
    split
    · simp only [effort, arriving, hp, PersistPc.effort]
      omega
    · simp only [effort, arriving, hp, PersistPc.effort]
      omega
  | persistSnapshot =>
    obtain ⟨hp, rfl⟩ := step_persistSnapshot.mp h
    simp only [effort, arriving, hp, PersistPc.effort]
    omega
  | persistSave ok =>
    obtain ⟨d, hp, rfl⟩ := step_persistSave.mp h
    simp only [effort, arriving, hp, PersistPc.effort]
    omega
  | persistExit =>
    obtain ⟨_, hp, _, rfl⟩ := step_persistExit.mp h
    simp only [effort, arriving, hp, PersistPc.effort]
    omega
  | graceOver =>
    obtain ⟨hm, rfl⟩ := step_graceOver.mp h
    simp only [effort, arriving, hm, MainPc.effort]
    omega
  | finalSnapshot =>
    obtain ⟨hm, _, _, rfl⟩ := step_finalSnapshot.mp h
    simp only [effort, arriving, hm, MainPc.effort]
    omega
  | finalSave ok =>
    obtain ⟨d, hm, rfl⟩ := step_finalSave.mp h
    simp only [effort, arriving, hm, MainPc.effort]
    omega
  | finish =>
    obtain ⟨hm, _, rfl⟩ := step_finish.mp h
    simp only [effort, arriving, hm, MainPc.effort]
    omega

theorem unaided_enabled (cfg : Config) (fromStr : String → Option ClientMessage)
    (hm : s.main.isServing = false) :
    s.main = .stopped ∨ ∃ a t, Unaided s a ∧ step cfg fromStr s a = some t := by
  cases hmain : s.main with
  | serving => simp [hmain, MainPc.isServing] at hm
  | draining => exact Or.inr ⟨.graceOver, _, trivial, step_graceOver.mpr ⟨hmain, rfl⟩⟩
  | aborting =>
    right
    by_cases hall : ∀ k ∈ s.conns, k.status ≠ .running
    · cases hp : s.presence with
      | nil => exact ⟨.finalSnapshot, _, trivial, step_finalSnapshot.mpr ⟨hmain, hall, hp, rfl⟩⟩
      | cons p ps =>
        exact ⟨.presenceSend s.clock, _, trivial,
          step_presenceSend.mpr ⟨p, ps, hp, Nat.le_refl _, rfl⟩⟩
    · obtain ⟨k, hmem, hrun⟩ : ∃ k ∈ s.conns, k.status = .running := by
        simpa using hall
      obtain ⟨c, hk⟩ := List.mem_iff_getElem?.mp hmem
      by_cases hawait : k.atAwait = true
      · exact ⟨.abort c, _, trivial, step_abort.mpr ⟨k, hk, hmain, ⟨hrun, hawait⟩, rfl⟩⟩
      · -- between two awaits a task goes on by itself
        obtain ⟨e, es, hp, hwrite⟩ : ∃ e es, k.pending = e :: es ∧ Effect.isWrite e = false := by
          unfold Conn.atAwait at hawait
          split at hawait
          · exact ⟨_, _, ‹_›, rfl⟩
          · exact ⟨_, _, ‹_›, rfl⟩
          · exact ⟨_, _, ‹_›, rfl⟩
          · exact absurd rfl hawait
        exact ⟨.proceed c s.clock true, _, ⟨k, e, es, hk, hp, hwrite⟩,
          step_proceed.mpr ⟨k, e, es, hk, hp, ⟨hrun, Nat.le_refl _⟩, rfl⟩⟩
  | flushing d =>
    exact Or.inr ⟨.finalSave true, _, trivial, step_finalSave.mpr ⟨d, hmain, rfl⟩⟩
  | closing =>
    right
    cases hp : s.persist with
    | waiting =>
      by_cases hsig : 0 < s.signals
      · exact ⟨.persistRecv, _, trivial, step_persistRecv.mpr ⟨hp, hsig, rfl⟩⟩
      · exact ⟨.persistExit, _, trivial, step_persistExit.mpr ⟨hmain, hp, by omega, rfl⟩⟩
    | sleeping => exact ⟨.persistWake, _, trivial, step_persistWake.mpr ⟨hp, rfl⟩⟩
    | draining => exact ⟨.persistTryRecv, _, trivial, step_persistTryRecv.mpr ⟨hp, rfl⟩⟩
    | locking => exact ⟨.persistSnapshot, _, trivial, step_persistSnapshot.mpr ⟨hp, rfl⟩⟩
    | saving d => exact ⟨.persistSave true, _, trivial, step_persistSave.mpr ⟨d, hp, rfl⟩⟩
    | done => exact ⟨.finish, _, trivial, step_finish.mpr ⟨hmain, hp, rfl⟩⟩
  | stopped => exact Or.inl rfl

theorem not_serving_step (hm : s.main.isServing = false) (hboot : ∀ now, a ≠ .boot now)
    (h : step cfg fromStr s a = some t) : t.main.isServing = false := by
  cases a with
  | line d text now | hangup d | event d | drain d | proceed d now ok | abort d =>
    rw [(conn_frame h rfl).2.1]
    exact hm
  | tick now =>
    obtain ⟨_, rfl⟩ := step_tick.mp h
    exact hm
  | connect =>
    rw [(step_connect.mp h).1] at hm
    cases hm
  | shutdown =>
    rw [(step_shutdown.mp h).1] at hm
    cases hm
  | boot now => exact absurd rfl (hboot now)
  | uplinkEvent st =>
    obtain ⟨_, rfl⟩ := step_uplinkEvent.mp h
    exact hm
  | uplinkInbound topic data origin =>
    obtain ⟨_, rfl⟩ := step_uplinkInbound.mp h
    exact hm
  | presenceTick =>
    obtain ⟨_, rfl⟩ := step_presenceTick.mp h
    exact hm
  | presenceSend now =>
    obtain ⟨_, _, _, _, rfl⟩ := step_presenceSend.mp h
    exact hm
  | persistRecv =>
    obtain ⟨_, _, rfl⟩ := step_persistRecv.mp h
    exact hm
  | persistWake =>
    obtain ⟨_, rfl⟩ := step_persistWake.mp h
    exact hm
  | persistTryRecv =>
    obtain ⟨_, rfl⟩ := step_persistTryRecv.mp h
    split <;> exact hm
  | persistSnapshot =>
    obtain ⟨_, rfl⟩ := step_persistSnapshot.mp h
    exact hm
  | persistSave ok =>
    obtain ⟨_, _, rfl⟩ := step_persistSave.mp h
    exact hm
  | persistExit =>
    obtain ⟨_, _, _, rfl⟩ := step_persistExit.mp h
    exact hm
  | graceOver =>
    obtain ⟨_, rfl⟩ := step_graceOver.mp h
    rfl
  | finalSnapshot =>
    obtain ⟨_, _, _, rfl⟩ := step_finalSnapshot.mp h
    rfl
  | finalSave ok =>
    obtain ⟨_, _, rfl⟩ := step_finalSave.mp h
    rfl
  | finish =>
    obtain ⟨_, _, rfl⟩ := step_finish.mp h
    rfl

theorem Unaided.own (h : Unaided s a) : arriving s a = 0 ∧ ∀ now, a ≠ .boot now := by
  cases a with
  | proceed | abort | presenceSend | persistRecv | persistWake | persistTryRecv
  | persistSnapshot | persistSave | persistExit | graceOver | finalSnapshot | finalSave | finish =>
    exact ⟨rfl, fun now hb => by cases hb⟩
  | _ => cases h

/-- The shutdown of a daemon never wedges. Whatever its clients have sent and whichever of them
take no more lines: from the signal on, and up to the start of the next process, the steps taken
are no more than what was left to do and what the clients, the relay and the presence timer have
added since, in whatever order the tasks take them and whether or not their writes and saves
succeed; as long as the daemon has not returned, one of its tasks can go on; and when it has
returned, no connection task is left. -/
theorem shutdown_never_wedges (cfg : Config) (fromStr : String → Option ClientMessage)
    (file : DurableState) (log : List BroadcastMsg) (now : Nat) (as : List Action) (s : Daemon)
    (hr : run (step cfg fromStr) (start file log now) as = some s)
    (hm : s.main.isServing = false) :
    (∀ bs t, (∀ b ∈ bs, ∀ now, b ≠ .boot now) → run (step cfg fromStr) s bs = some t →
      bs.length + effort t ≤
          effort s + (trace (step cfg fromStr) (fun s b => [arriving s b]) s bs).sum ∧
        ((∀ b, Unaided t b → step cfg fromStr t b = none) →
          t.main = .stopped ∧ ∀ k ∈ t.conns, k.status ≠ .running)) ∧
    ∃ bs t, Along (step cfg fromStr) Unaided s bs ∧ run (step cfg fromStr) s bs = some t ∧
      t.main = .stopped ∧ bs.length ≤ effort s := by
  constructor
  · intro bs t hb ht
    have hp : Along (step cfg fromStr) (fun _ b => ∀ now, b ≠ .boot now) s bs :=
      along_of_forall s hb
    refine ⟨length_add_le_of_charged (I := fun s => s.main.isServing = false)
      (fun _ _ _ hm hb h => not_serving_step hm hb h) (fun _ _ _ hm hb h => effort_step hm hb h)
      hm hp ht, fun hstuck => ?_⟩
    have hmt : t.main.isServing = false := run_along_invariant
      (I := fun s => s.main.isServing = false) (fun _ _ _ hm hb h => not_serving_step hm hb h)
      hp ht hm
    obtain hstop | ⟨b, u, hb, hu⟩ := unaided_enabled cfg fromStr hmt
    · have hjoined : t.main.uplinkAlive = false →
          ∀ (c : Nat) (k : Conn), t.conns[c]? = some k → k.status ≠ .running :=
        run_invariant (I := fun s => s.main.uplinkAlive = false →
          ∀ (c : Nat) (k : Conn), s.conns[c]? = some k → k.status ≠ .running)
          (fun s a t hs h => joined_step h hs) ((run_append_eq_some _).mpr ⟨s, hr, ht⟩)
          (fun h => by cases h)
      refine ⟨hstop, fun k hk => ?_⟩
      obtain ⟨c, hc⟩ := List.mem_iff_getElem?.mp hk
      exact hjoined (by rw [hstop]; rfl) c k hc
    · rw [hstuck b hb] at hu
      cases hu
  · -- nothing arrives in a run of such steps, so what is left to do falls in each
    have hown : ∀ s a t, Unaided s a ∧ s.main.isServing = false →
        step cfg fromStr s a = some t → effort t < effort s := by
      intro s a t ha h
      have hstep := effort_step ha.2 ha.1.own.2 h
      rw [ha.1.own.1] at hstep
      exact hstep
    have hprog : ∀ s : Daemon, s.main.isServing = false → s.main = .stopped ∨
        ∃ a t, (Unaided s a ∧ s.main.isServing = false) ∧ step cfg fromStr s a = some t ∧
          t.main.isServing = false := by
      intro s hm
      obtain hstop | ⟨a, t, ha, h⟩ := unaided_enabled cfg fromStr hm
      · exact Or.inl hstop
      · exact Or.inr ⟨a, t, ⟨ha, hm⟩, h, not_serving_step hm ha.own.2 h⟩
    obtain ⟨bs, t, hp, ht, hstop⟩ := exists_run_of_progress (μ := effort) hown hprog hm
    have hlen := length_add_le_of_decreases hown hp ht
    exact ⟨bs, t, hp.mono (fun _ _ h => h.1), ht, hstop, by omega⟩

end Step

def unreadStep : Daemon → Action → Option Daemon :=
  step ⟨60, 1024, 3000, false, "carbon"⟩
    (decodeFrom [(announceLine "s1", .announce "s1" 7 "/" "" none)])

def signalledActions : List Action :=
  [.connect, .line 0 (announceLine "s1") 1, .proceed 0 1 true, .shutdown]

/-- The client sends another line after the signal and does not read the reply. -/
def unreadActions : List Action := [.line 0 (announceLine "s1") 1, .graceOver, .abort 0]

theorem shutdown_never_wedges_unread : ∃ s t,
    run unreadStep (start .default [] 0) signalledActions = some s ∧
    run unreadStep s unreadActions = some t ∧ 3 + effort t ≤ 9 + 13 ∧
    ∃ bs u, run unreadStep s bs = some u ∧ u.main = .stopped ∧ bs.length ≤ 9 := by
  have heval : (run unreadStep (start .default [] 0) signalledActions).map (fun s =>
      (s.main.isServing, effort s, (run unreadStep s unreadActions).isSome,
        (trace unreadStep (fun s b => [arriving s b]) s unreadActions).sum)) =
      some (false, 9, true, 13) := by decide
  obtain ⟨s, hs, heval⟩ := Option.map_eq_some_iff.mp heval
  simp only [Prod.mk.injEq] at heval
  obtain ⟨hm, heffort, hrun, hsum⟩ := heval
  obtain ⟨t, ht⟩ := Option.isSome_iff_exists.mp hrun
  obtain ⟨hall, bs, u, _, hu, hstop, hlen⟩ :=
    shutdown_never_wedges _ _ .default [] 0 _ s hs hm
  have hbound := (hall _ t (by simp [unreadActions]) ht).1
  rw [← unreadStep, hsum, heffort] at hbound
  exact ⟨s, t, hs, ht, hbound, bs, u, hu, hstop, heffort ▸ hlen⟩

end Agorabus.ShutdownProgress
