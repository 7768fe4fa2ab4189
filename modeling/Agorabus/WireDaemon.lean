import Agorabus.Accepted

namespace Agorabus

open Json (FitsUnder FloatFree ReadsAs fitsUnder_string fitsUnder_nat fitsUnder_bool fitsUnder_array
  fitsUnder_object fitsUnder_present)

def Effect.Fits : Effect → Prop
  | .broadcast m => m.data.FitsUnder 1
  | .write l => l.Fits
  | .writeNotice n => n.resumeAfterMs < 2 ^ 64
  | _ => True

def Transaction.Fits : Transaction → Prop
  | .announce _ _ pid .. => pid < 2 ^ 32
  | .claimAcquire _ _ ttlUnixSecs .. => ttlUnixSecs < 2 ^ 64
  | _ => True

/-- A record as the daemon makes it: the numbers are those of the declared types, and no message
gives it metadata. -/
structure PeerRecord.Registered (p : PeerRecord) : Prop where
  pid : p.pid < 2 ^ 32
  lastHeartbeatUnixSecs : p.lastHeartbeatUnixSecs < 2 ^ 64
  extra : p.extra = []

structure BusState.Fits (st : BusState) : Prop where
  peers : Table.All PeerRecord.Registered st.peers
  claims : Table.All ClaimRecord.Fits st.claims

theorem PeerRecord.Registered.fits {p : PeerRecord} (h : p.Registered) : p.Fits := by
  refine ⟨h.pid, h.lastHeartbeatUnixSecs, ?_⟩
  rw [h.extra]
  exact fitsUnder_noFields 2 (by decide)

theorem PeerRecord.Registered.refresh {p q : PeerRecord} (h : p.Registered) (hpid : q.pid = p.pid)
    (hextra : q.extra = p.extra) (hq : q.lastHeartbeatUnixSecs < 2 ^ 64) : q.Registered :=
  ⟨hpid ▸ h.pid, hq, hextra ▸ h.extra⟩

namespace BusState

variable {st : BusState} {now : Nat}

theorem Fits.touch (h : st.Fits) (hnow : now < 2 ^ 64) (sid : String) :
    (st.touch sid now).Fits :=
  ⟨h.peers.modify sid (fun _ hp => hp.refresh rfl rfl hnow), h.claims⟩

theorem Fits.pruneExpiredClaims (h : st.Fits) : (st.pruneExpiredClaims now).Fits :=
  ⟨h.peers, h.claims.retain _⟩

theorem Fits.heartbeat (h : st.Fits) (hnow : now < 2 ^ 64) (sid tool : String)
    (skill prdSlug : Option String) (workingPaths : Option (List String)) :
    (st.heartbeat sid tool skill prdSlug workingPaths now).1.Fits := by
  have hpeers := h.peers.modify sid
    (f := fun r => r.beat tool skill prdSlug workingPaths now)
    (fun _ hp => hp.refresh rfl rfl hnow)
  unfold BusState.heartbeat
  split
  · exact h
  · dsimp only
    split
    · exact ⟨hpeers, h.claims⟩
    · exact ⟨hpeers, h.claims⟩

theorem Fits.claimAcquire (h : st.Fits) (hnow : now < 2 ^ 64) (sid path : String) {ttl : Nat}
    (httl : ttl < 2 ^ 64) (reason : String) (force : Bool) :
    (st.claimAcquire sid path ttl reason force now).1.Fits ∧
      ∀ c, (st.claimAcquire sid path ttl reason force now).2 = .conflict c → c.Fits := by
  have hpruned : (st.pruneExpiredClaims now).Fits := h.pruneExpiredClaims
  have hgranted : ({ st.pruneExpiredClaims now with
      claims := (st.pruneExpiredClaims now).claims.insert path ⟨path, sid, ttl, now, reason⟩ }
        : BusState).Fits :=
    ⟨hpruned.peers, hpruned.claims.insert path ⟨httl, hnow⟩⟩
  unfold BusState.claimAcquire
  dsimp only
  split
  · exact ⟨hgranted.touch hnow sid, fun c hc => by cases hc⟩
  · rename_i c hc
    split
    · exact ⟨hgranted.touch hnow sid, fun c hc => by cases hc⟩
    · split
      · exact ⟨hgranted.touch hnow sid, fun c hc => by cases hc⟩
      · refine ⟨hpruned, fun d hd => ?_⟩
        cases hd
        exact hpruned.claims path c hc

theorem Fits.claimRelease (h : st.Fits) (hnow : now < 2 ^ 64) (sid path : String) :
    (st.claimRelease sid path now).1.Fits := by
  have hpruned : (st.pruneExpiredClaims now).Fits := h.pruneExpiredClaims
  unfold BusState.claimRelease
  dsimp only
  split
  · exact hpruned.touch hnow sid
  · split
    · have herased : ({ st.pruneExpiredClaims now with
          claims := (st.pruneExpiredClaims now).claims.erase path } : BusState).Fits :=
        ⟨hpruned.peers, hpruned.claims.erase path⟩
      exact herased.touch hnow sid
    · exact hpruned.touch hnow sid

theorem Fits.apply (h : st.Fits) (hnow : now < 2 ^ 64) {tr : Transaction} (htr : tr.Fits) :
    (tr.apply st now).Fits := by
  cases tr with
  | announce c sid pid cwd intent node =>
    rw [Transaction.apply, announce]
    split
    · exact h
    · exact ⟨h.peers.insert sid ⟨htr, hnow, rfl⟩, h.claims⟩
  | update sid cwd intent =>
    exact ⟨h.peers.modify sid (fun _ hp => hp.refresh rfl rfl hnow), h.claims⟩
  | heartbeat sid tool skill prdSlug paths => exact h.heartbeat hnow ..
  | touch sid => exact h.touch hnow sid
  | peers timeout => exact ⟨h.peers.retain _, h.claims⟩
  | claimAcquire sid path ttl reason force => exact (h.claimAcquire hnow sid path htr ..).1
  | claimRelease sid path => exact h.claimRelease hnow sid path
  | claimList => exact h.pruneExpiredClaims
  | disconnect c sid =>
    rw [Transaction.apply, disconnect]
    split
    · exact ⟨h.peers.erase sid, h.claims⟩
    · exact h

end BusState

theorem ClientMessage.transaction_fits {cfg : Config} {m : ClientMessage} {sid : String}
    {tr : Transaction} (hm : m.Fits) (h : m.transaction cfg sid = some tr) : tr.Fits := by
  cases m with
  | claimAcquire path ttl reason force =>
    cases h
    exact hm
  | heartbeat tool skill prdSlug paths =>
    rw [transaction] at h
    split at h
    · cases h
    · cases h
      trivial
  | update | peers | claimRelease | claimList =>
    cases h
    trivial
  | announce | publish | subscribe | uplinkStatus => cases h

theorem fitsUnder_skipEmpty {n : Nat} (hn : n < Json.recursionLimit) (t : String) :
    ∀ v ∈ skipEmpty t, v.FitsUnder n := by
  intro v hv
  rw [skipEmpty] at hv
  split at hv
  · cases hv
  · cases hv
    exact fitsUnder_string hn t

theorem fitsUnder_skipEmptyVec {n : Nat} (hn : n + 1 < Json.recursionLimit) (ts : List String) :
    ∀ v ∈ skipEmptyVec ts, v.FitsUnder n := by
  intro v hv
  rw [skipEmptyVec] at hv
  split at hv
  · cases hv
  · cases hv
    refine fitsUnder_array hn (fun x hx => ?_)
    obtain ⟨t, _, rfl⟩ := List.mem_map.mp hx
    exact fitsUnder_string hn t

theorem PeerRecord.Registered.fitsUnder_toValue {p : PeerRecord} (h : p.Registered) :
    p.toValue.FitsUnder 2 := by
  have hlimit : 3 < Json.recursionLimit := by decide
  have hpid : p.pid < 2 ^ 64 := Nat.lt_trans h.pid (by decide)
  have hnode : ∀ v ∈ p.node.map Json.string, v.FitsUnder 3 := by
    intro v hv
    obtain ⟨t, _, rfl⟩ := Option.map_eq_some_iff.mp hv
    exact fitsUnder_string hlimit t
  rw [toValue_eq]
  refine fitsUnder_present hlimit (show List.Pairwise (· < ·) ["cwd", "extra", "intent",
    "last_heartbeat_unix_secs", "last_tool", "node", "pid", "prd_slug", "session_id", "skill",
    "working_paths"] by decide) ?_
  simp only [valueFields, h.extra, List.forall_mem_cons, Option.mem_def, Option.some.injEq,
    forall_eq']
  exact ⟨fitsUnder_string hlimit _, fitsUnder_noFields 3 (by decide), fitsUnder_string hlimit _,
    fitsUnder_nat hlimit h.lastHeartbeatUnixSecs, fitsUnder_string hlimit _, hnode,
    fitsUnder_nat hlimit hpid, fitsUnder_skipEmpty hlimit _, fitsUnder_string hlimit _,
    fitsUnder_skipEmpty hlimit _, fitsUnder_skipEmptyVec (by decide) _, List.forall_mem_nil _⟩

theorem ClaimRecord.Fits.fitsUnder_toValue {c : ClaimRecord} (h : c.Fits) :
    c.toValue.FitsUnder 2 := by
  have hlimit : 3 < Json.recursionLimit := by decide
  have hkeys : List.Pairwise (· < ·)
      ["acquired_unix_secs", "path", "reason", "session_id", "ttl_unix_secs"] := by decide
  refine fitsUnder_object hlimit hkeys ?_
  simp only [List.forall_mem_cons]
  exact ⟨fitsUnder_nat hlimit h.acquiredUnixSecs, fitsUnder_string hlimit _,
    fitsUnder_string hlimit _, fitsUnder_string hlimit _, fitsUnder_nat hlimit h.ttlUnixSecs,
    List.forall_mem_nil _⟩

theorem UplinkStatus.fitsUnder_toValue (u : UplinkStatus) : u.toValue.FitsUnder 1 := by
  have hlimit : 2 < Json.recursionLimit := by decide
  have hstring (t : String) : (Json.string t).FitsUnder 2 := fitsUnder_string hlimit t
  cases u with
  | disabled =>
    exact fitsUnder_object hlimit (List.pairwise_singleton _ _)
      (List.forall_mem_singleton.mpr (hstring _))
  | connected url =>
    have hkeys : List.Pairwise (· < ·) ["state", "url"] := by decide
    refine fitsUnder_object hlimit hkeys ?_
    simp only [List.forall_mem_cons]
    exact ⟨hstring _, hstring _, List.forall_mem_nil _⟩
  | reconnecting error =>
    have hkeys : List.Pairwise (· < ·) ["error", "state"] := by decide
    refine fitsUnder_object hlimit hkeys ?_
    simp only [List.forall_mem_cons]
    exact ⟨hstring _, hstring _, List.forall_mem_nil _⟩

theorem claimReleaseMsg_fits (path sid source : String) :
    (claimReleaseMsg path sid source).data.FitsUnder 1 := by
  have hlimit : 2 < Json.recursionLimit := by decide
  have hkeys : List.Pairwise (· < ·) ["path", "session_id"] := by decide
  refine fitsUnder_object hlimit hkeys ?_
  simp only [List.forall_mem_cons]
  exact ⟨fitsUnder_string hlimit _, fitsUnder_string hlimit _, List.forall_mem_nil _⟩

theorem claimAcquireMsg_fits (path sid reason : String) {ttl : Nat} (h : ttl < 2 ^ 64) :
    (claimAcquireMsg path sid ttl reason).data.FitsUnder 1 := by
  have hlimit : 2 < Json.recursionLimit := by decide
  have hkeys : List.Pairwise (· < ·) ["path", "reason", "session_id", "ttl_unix_secs"] := by decide
  refine fitsUnder_object hlimit hkeys ?_
  simp only [List.forall_mem_cons]
  exact ⟨fitsUnder_string hlimit _, fitsUnder_string hlimit _, fitsUnder_string hlimit _,
    fitsUnder_nat hlimit h, List.forall_mem_nil _⟩

theorem presenceMsg_fits (cfg : Config) {p : PeerRecord} (h : p.Registered) {now : Nat}
    (hnow : now < 2 ^ 64) : (presenceMsg cfg p now).data.FitsUnder 1 := by
  have hlimit : 2 < Json.recursionLimit := by decide
  have hpid : p.pid < 2 ^ 64 := Nat.lt_trans h.pid (by decide)
  have hkeys : List.Pairwise (· < ·) ["cwd", "node", "pid", "session_id", "ts"] := by decide
  refine fitsUnder_object hlimit hkeys ?_
  simp only [List.forall_mem_cons]
  exact ⟨fitsUnder_string hlimit _, fitsUnder_string hlimit _, fitsUnder_nat hlimit hpid,
    fitsUnder_string hlimit _, fitsUnder_nat hlimit hnow, List.forall_mem_nil _⟩

structure Served.Fits (r : Served) : Prop where
  pending : ∀ e ∈ r.conn.pending, e.Fits
  bus : r.bus.Fits
  sent : ∀ m ∈ r.sent, m.data.FitsUnder 1

theorem reply_fits_none {r : Reply} (h : r.data = none) : (Effect.write (.reply r)).Fits := by
  intro v hv
  rw [h] at hv
  cases hv

theorem reply_fits_object {fs : List (String × Json)} (h : (Json.object fs).FitsUnder 1) :
    (Effect.write (.reply (.okWith (.object fs)))).Fits := by
  intro v hv
  cases hv
  exact ⟨h, Json.noConfusion⟩

theorem reply_fits_array {α : Type} {toValue : α → Json} {as : List α}
    (h : ∀ a ∈ as, (toValue a).FitsUnder 2) :
    (Effect.write (.reply (.okWith (.array (as.map toValue))))).Fits := by
  intro v hv
  cases hv
  refine ⟨fitsUnder_array (by decide) (fun x hx => ?_), Json.noConfusion⟩
  obtain ⟨a, ha, rfl⟩ := List.mem_map.mp hx
  exact h a ha

theorem answer_fits {k : Conn} {bus : BusState} {r : Reply} (hbus : bus.Fits)
    (h : (Effect.write (.reply r)).Fits) : (answer k bus r).Fits :=
  ⟨List.forall_mem_singleton.mpr h, hbus, List.forall_mem_nil _⟩

section line

variable {cfg : Config} {k : Conn} {bus : BusState} {now : Nat} {m : ClientMessage}

theorem handleFirst_fits (hbus : bus.Fits) (hnow : now < 2 ^ 64) (hm : m.Fits) (c : Nat) :
    (handleFirst k c bus now m).Fits := by
  cases m with
  | announce sid pid cwd intent node =>
    have hannounced : (Transaction.announce c sid pid cwd intent node).Fits := hm
    exact answer_fits (hbus.apply hnow hannounced) (reply_fits_none rfl)
  | _ =>
    refine ⟨List.forall_mem_cons.mpr ⟨reply_fits_none rfl, ?_⟩, hbus, List.forall_mem_nil _⟩
    exact List.forall_mem_singleton.mpr trivial

theorem claimConflictReply_fits {c : ClaimRecord} (h : c.Fits) :
    (Effect.write (.reply (claimConflictReply c))).Fits := by
  have hlimit : 2 < Json.recursionLimit := by decide
  intro v hv
  cases hv
  have hkeys : List.Pairwise (· < ·) ["expires_unix", "holder", "reason"] := by decide
  refine ⟨fitsUnder_object hlimit hkeys ?_, Json.noConfusion⟩
  simp only [List.forall_mem_cons]
  exact ⟨fitsUnder_nat hlimit h.ttlUnixSecs, fitsUnder_string hlimit _,
    fitsUnder_string hlimit _, List.forall_mem_nil _⟩

theorem handleMessage_fits (hbus : bus.Fits) (hnow : now < 2 ^ 64) (hm : m.Fits) (sid : String)
    (uplink : UplinkStatus) (sent : Nat) :
    (handleMessage cfg k sid bus uplink sent now m).Fits := by
  have hlimit : 2 < Json.recursionLimit := by decide
  have hempty : (Effect.write (.reply .okEmpty)).Fits := reply_fits_none rfl
  cases m with
  | announce sid' pid cwd intent node => exact answer_fits hbus (reply_fits_none rfl)
  | update cwd intent =>
    have htr : (Transaction.update sid cwd intent).Fits := trivial
    exact answer_fits (hbus.apply hnow htr) hempty
  | heartbeat tool skill prdSlug paths =>
    rw [handleMessage]
    split
    · exact answer_fits hbus (reply_fits_none rfl)
    · refine ⟨?_, hbus.heartbeat hnow .., List.forall_mem_nil _⟩
      dsimp only
      split
      · exact List.forall_mem_cons.mpr ⟨trivial, List.forall_mem_singleton.mpr hempty⟩
      · exact List.forall_mem_singleton.mpr hempty
  | publish topic data =>
    exact ⟨List.forall_mem_cons.mpr ⟨trivial, List.forall_mem_singleton.mpr hempty⟩, hbus,
      List.forall_mem_singleton.mpr hm⟩
  | subscribe pre => exact answer_fits hbus hempty
  | peers =>
    have hpruned : (bus.prunePeers cfg.heartbeatTimeoutSecs now).Fits :=
      ⟨hbus.peers.retain _, hbus.claims⟩
    exact answer_fits hpruned
      (reply_fits_array (fun p hp => (hpruned.peers.values p hp).fitsUnder_toValue))
  | claimAcquire path ttl reason force =>
    obtain ⟨hacquired, hconflict⟩ := hbus.claimAcquire hnow sid path hm reason force
    rw [handleMessage_claimAcquire]
    split
    · rename_i c hc
      exact answer_fits hacquired (claimConflictReply_fits (hconflict c hc))
    · refine ⟨?_, hacquired, fun m hm => ?_⟩
      · refine List.forall_mem_cons.mpr ⟨trivial, List.forall_mem_cons.mpr
          ⟨claimAcquireMsg_fits path sid reason hm, List.forall_mem_singleton.mpr ?_⟩⟩
        have hkeys : List.Pairwise (· < ·) ["path", "ttl_unix_secs"] := by decide
        refine reply_fits_object (fitsUnder_object hlimit hkeys ?_)
        simp only [List.forall_mem_cons]
        exact ⟨fitsUnder_string hlimit _, fitsUnder_nat hlimit hm, List.forall_mem_nil _⟩
      · obtain ⟨c, _, rfl⟩ := Option.map_eq_some_iff.mp (Option.mem_toList.mp hm)
        exact claimReleaseMsg_fits ..
  | claimRelease path =>
    have hreleased (b : Bool) :
        (Effect.write (.reply (.okWith (.object [("released", .bool b)])))).Fits :=
      reply_fits_object (fitsUnder_object hlimit (List.pairwise_singleton _ _)
        (List.forall_mem_singleton.mpr (fitsUnder_bool hlimit b)))
    refine ⟨?_, hbus.claimRelease hnow .., List.forall_mem_nil _⟩
    rw [handleMessage]
    dsimp only
    refine List.forall_mem_append.mpr ⟨?_, List.forall_mem_singleton.mpr (hreleased _)⟩
    split
    · exact List.forall_mem_cons.mpr
        ⟨trivial, List.forall_mem_singleton.mpr (claimReleaseMsg_fits ..)⟩
    · exact List.forall_mem_nil _
  | claimList =>
    have hpruned : (bus.pruneExpiredClaims now).Fits := hbus.pruneExpiredClaims
    exact answer_fits hpruned
      (reply_fits_array (fun c hc => (hpruned.claims.values c hc).fitsUnder_toValue))
  | uplinkStatus =>
    refine answer_fits hbus (fun v hv => ?_)
    cases hv
    exact ⟨uplink.fitsUnder_toValue, by cases uplink <;> exact Json.noConfusion⟩

theorem handleLine_fits {fromStr : String → Option ClientMessage} (hbus : bus.Fits)
    (hnow : now < 2 ^ 64) (hk : ∀ e ∈ k.pending, e.Fits) {line : String}
    (hline : ∀ m, fromStr (trim line) = some m → m.Fits) (c : Nat) (uplink : UplinkStatus)
    (sent : Nat) : (handleLine cfg fromStr k c bus uplink sent now line).Fits := by
  unfold handleLine
  split
  · exact ⟨hk, hbus, List.forall_mem_nil _⟩
  · split
    · refine ⟨?_, hbus, List.forall_mem_nil _⟩
      exact List.forall_mem_cons.mpr ⟨reply_fits_none rfl, List.forall_mem_singleton.mpr trivial⟩
    · rename_i msg hmsg
      have hm := hline msg hmsg
      split
      · exact handleFirst_fits hbus hnow hm c
      · exact handleMessage_fits hbus hnow hm ..

end line

structure Conn.Fits (k : Conn) : Prop where
  pending : ∀ e ∈ k.pending, e.Fits
  written : ∀ l ∈ k.written, l.Fits

/-- What a step takes in from outside: clock readings, and data that has come over the uplink. -/
def Action.InRange : Action → Prop
  | .tick now | .line _ _ now | .proceed _ now _ | .presenceSend now | .boot now => now < 2 ^ 64
  | .uplinkInbound _ data _ => data.FitsUnder 1
  | _ => True

def Action.Typed (fromStr : String → Option ClientMessage) : Action → Prop
  | .line _ text _ => ∀ m, fromStr (trim text) = some m → m.Fits
  | _ => True

def Action.FloatFree : Action → Prop
  | .line _ text _ => Json.FloatFree (trim text)
  | _ => True

theorem Action.FloatFree.typed {fromStr : String → Option ClientMessage}
    (hread : ReadsAs fromStr ClientMessage.fromStr) {a : Action} (ha : a.FloatFree) :
    a.Typed fromStr := by
  cases a with
  | line c text now =>
    intro m hm
    rw [hread _ ha] at hm
    exact ClientMessage.fits_fromStr hm
  | _ => trivial

theorem Action.typed_fromStr (a : Action) : a.Typed ClientMessage.fromStr := by
  cases a with
  | line c text now => exact fun m hm => ClientMessage.fits_fromStr hm
  | _ => trivial

theorem Conn.Fits.performed {k : Conn} {e : Effect} {es : List Effect} (h : k.Fits)
    (hp : k.pending = e :: es) (ok : Bool) :
    (Daemon.Conn.performed { k with pending := es } ok e).Fits := by
  have he : e.Fits := h.pending e (by rw [hp]; exact List.mem_cons_self)
  have hes : ∀ e ∈ es, e.Fits := fun f hf => h.pending f (by
    rw [hp]
    exact List.mem_cons_of_mem _ hf)
  refine ⟨fun f hf => hes f (Daemon.performed_pending hf), ?_⟩
  have hwritten (l : OutLine) (hl : l.Fits) : ∀ x ∈ k.written ++ [l], x.Fits :=
    List.forall_mem_append.mpr ⟨h.written, List.forall_mem_singleton.mpr hl⟩
  cases e with
  | write l =>
    cases ok with
    | true => exact hwritten l he
    | false => exact h.written
  | writeNotice n =>
    cases ok with
    | true => exact hwritten (.notice n) he
    | false => exact h.written
  | _ => exact h.written

namespace Daemon

structure Fits (s : Daemon) : Prop where
  bus : s.bus.Fits
  log : ∀ m ∈ s.log, m.data.FitsUnder 1
  conns : ∀ (c : Nat) (k : Conn), s.conns[c]? = some k → k.Fits
  presence : ∀ p ∈ s.presence, p.Registered
  saving : ∀ d, s.persist = .saving d → Table.All ClaimRecord.Fits d.claims
  flushing : ∀ d, s.main = .flushing d → Table.All ClaimRecord.Fits d.claims
  file : Table.All ClaimRecord.Fits s.file.claims

variable {cfg : Config} {fromStr : String → Option ClientMessage} {s t : Daemon} {a : Action}

theorem fits_start {file : DurableState} {log : List BroadcastMsg} (now : Nat)
    (hfile : Table.All ClaimRecord.Fits file.claims) (hlog : ∀ m ∈ log, m.data.FitsUnder 1) :
    (start file log now).Fits where
  bus := ⟨Table.all_empty, hfile.retain _⟩
  log := hlog
  conns := fun c k hk => by cases hk
  presence := List.forall_mem_nil _
  saving := fun d hd => by cases hd
  flushing := fun d hd => by cases hd
  file := hfile

theorem mem_presence_step (h : step cfg fromStr s a = some t) {p : PeerRecord}
    (hp : p ∈ t.presence) : p ∈ s.presence ∨ p ∈ s.bus.peers.values := by
  cases a with
  | presenceTick =>
    obtain ⟨_, rfl⟩ := step_presenceTick.mp h
    exact Or.inr hp
  | presenceSend now =>
    obtain ⟨q, ps, hps, _, rfl⟩ := step_presenceSend.mp h
    exact Or.inl (hps ▸ List.mem_cons_of_mem q hp)
  | boot now =>
    obtain ⟨_, _, rfl⟩ := step_boot.mp h
    cases hp
  | line c text now =>
    obtain ⟨k, _, _, rfl⟩ := step_line.mp h
    exact Or.inl hp
  | hangup c =>
    obtain ⟨k, _, _, rfl⟩ := step_hangup.mp h
    exact Or.inl hp
  | event c =>
    obtain ⟨k, rx, _, _, _, he⟩ := step_event.mp h
    obtain ⟨_, _, rfl, _⟩ := takeEvent_cases he
    exact Or.inl hp
  | drain c =>
    obtain ⟨k, _, _, _, rfl⟩ := step_drain.mp h
    exact Or.inl hp
  | proceed c now ok =>
    obtain ⟨k, e, es, _, _, _, rfl⟩ := step_proceed.mp h
    refine Or.inl ?_
    cases e with
    | write l => cases ok <;> exact hp
    | _ => exact hp
  | abort c =>
    obtain ⟨k, _, _, _, rfl⟩ := step_abort.mp h
    exact Or.inl hp
  | connect =>
    obtain ⟨_, rfl⟩ := step_connect.mp h
    exact Or.inl hp
  | tick now =>
    obtain ⟨_, rfl⟩ := step_tick.mp h
    exact Or.inl hp
  | uplinkEvent st =>
    obtain ⟨_, rfl⟩ := step_uplinkEvent.mp h
    exact Or.inl hp
  | uplinkInbound topic data origin =>
    obtain ⟨_, rfl⟩ := step_uplinkInbound.mp h
    exact Or.inl hp
  | persistRecv =>
    obtain ⟨_, _, rfl⟩ := step_persistRecv.mp h
    exact Or.inl hp
  | persistWake =>
    obtain ⟨_, rfl⟩ := step_persistWake.mp h
    exact Or.inl hp
  | persistTryRecv =>
    obtain ⟨_, rfl⟩ := step_persistTryRecv.mp h
    split at hp <;> exact Or.inl hp
  | persistSnapshot =>
    obtain ⟨_, rfl⟩ := step_persistSnapshot.mp h
    exact Or.inl hp
  | persistSave ok =>
    obtain ⟨d, _, rfl⟩ := step_persistSave.mp h
    exact Or.inl hp
  | persistExit =>
    obtain ⟨_, _, _, rfl⟩ := step_persistExit.mp h
    exact Or.inl hp
  | shutdown =>
    obtain ⟨_, rfl⟩ := step_shutdown.mp h
    exact Or.inl hp
  | graceOver =>
    obtain ⟨_, rfl⟩ := step_graceOver.mp h
    exact Or.inl hp
  | finalSnapshot =>
    obtain ⟨_, _, _, rfl⟩ := step_finalSnapshot.mp h
    exact Or.inl hp
  | finalSave ok =>
    obtain ⟨d, _, rfl⟩ := step_finalSave.mp h
    exact Or.inl hp
  | finish =>
    obtain ⟨_, _, rfl⟩ := step_finish.mp h
    exact Or.inl hp

theorem transaction_fits {tr : Transaction} (ha : a.Typed fromStr)
    (h : s.transaction cfg fromStr a = some tr) : tr.Fits := by
  cases transaction_section h with
  | first hk hs ht hm => exact ha _ hm
  | message hk hs ht hm htr => exact ClientMessage.transaction_fits (ha _ hm) htr
  | touch | cleanup => trivial

theorem Fits.step_bus (hs : s.Fits) (ha : a.InRange) (hty : a.Typed fromStr)
    (h : step cfg fromStr s a = some t) : t.bus.Fits := by
  obtain ⟨now, rfl⟩ | hb := Daemon.step_bus h
  · obtain ⟨_, _, rfl⟩ := step_boot.mp h
    exact ⟨Table.all_empty, hs.file.retain _⟩
  rw [hb]
  cases htr : s.transaction cfg fromStr a with
  | none => exact hs.bus
  | some tr =>
    have hclock : t.clock < 2 ^ 64 := by
      rw [clock_of_transaction h htr]
      cases transaction_section htr with
      | first | message | touch | cleanup => exact ha
    exact hs.bus.apply hclock (transaction_fits hty htr)

theorem Fits.sends (hs : s.Fits) (ha : a.InRange) (hty : a.Typed fromStr) :
    ∀ m ∈ s.sends cfg fromStr a, m.data.FitsUnder 1 := by
  intro m hm
  cases a with
  | line c text now =>
    cases hk : s.conns[c]? with
    | none => simp [Daemon.sends, hk] at hm
    | some k =>
      simp only [Daemon.sends, hk] at hm
      exact (handleLine_fits hs.bus ha (hs.conns c k hk).pending hty ..).sent m hm
  | proceed c now ok =>
    cases hk : s.conns[c]? with
    | none => simp [Daemon.sends, hk] at hm
    | some k =>
      simp only [Daemon.sends, hk] at hm
      split at hm
      · rename_i m' es hp
        obtain rfl := List.mem_singleton.mp hm
        exact (hs.conns c k hk).pending (.broadcast m) (by rw [hp]; exact List.mem_cons_self)
      · cases hm
  | uplinkInbound topic data origin =>
    obtain rfl := List.mem_singleton.mp hm
    exact ha
  | presenceSend now =>
    obtain ⟨p, hp, rfl⟩ := Option.map_eq_some_iff.mp (Option.mem_toList.mp hm)
    exact presenceMsg_fits cfg (hs.presence p (List.mem_of_head? hp)) ha
  | _ => cases hm

theorem Fits.step_conn (hs : s.Fits) (hcfg : cfg.drainResumeHintMs < 2 ^ 64) (ha : a.InRange)
    (hty : a.Typed fromStr) {c : Nat} {k k' : Conn} (hk : k.Fits)
    (h : ConnStep cfg fromStr s c k a k') : k'.Fits := by
  cases h with
  | other ha' => exact hk
  | @line text now hi =>
    refine ⟨(handleLine_fits hs.bus ha hk.pending hty ..).pending, ?_⟩
    rw [(handleLine_conn cfg fromStr k c s.bus s.uplinkStatus s.log.length now text).2.1]
    exact hk.written
  | hangup hi => exact ⟨List.forall_mem_singleton.mpr trivial, hk.written⟩
  | lag hi hrx hlag => exact ⟨hk.pending, hk.written⟩
  | @event rx m hi hrx hup hm =>
    refine ⟨?_, hk.written⟩
    dsimp only
    split
    · exact List.forall_mem_singleton.mpr (hs.log m (List.mem_of_getElem? hm))
    · exact List.forall_mem_nil _
  | drain hi =>
    refine ⟨List.forall_mem_append.mpr ⟨fun e he => ?_, List.forall_mem_singleton.mpr trivial⟩,
      hk.written⟩
    obtain ⟨_, _, rfl⟩ := Option.map_eq_some_iff.mp (Option.mem_toList.mp he)
    exact hcfg
  | proceed hp hr => exact hk.performed hp _
  | abort hr hw => exact ⟨List.forall_mem_nil _, hk.written⟩

theorem Fits.step (hs : s.Fits) (hcfg : cfg.drainResumeHintMs < 2 ^ 64) (ha : a.InRange)
    (hty : a.Typed fromStr) (h : Daemon.step cfg fromStr s a = some t) : t.Fits := by
  obtain ⟨hfile, hsaving, hflushing⟩ := snapshot_step h
  have hdurable : Table.All ClaimRecord.Fits s.bus.toDurable.claims := hs.bus.claims
  refine ⟨hs.step_bus ha hty h, ?_, ?_, fun p hp => ?_, fun d hd => ?_, fun d hd => ?_, ?_⟩
  · rw [step_log h]
    exact List.forall_mem_append.mpr ⟨hs.log, hs.sends ha hty⟩
  · refine conn_invariant (Q := Conn.Fits) ⟨List.forall_mem_nil _, List.forall_mem_nil _⟩
      (fun c k k' hk hc => hs.step_conn hcfg ha hty hk hc) h hs.conns
  · obtain hp | hp := mem_presence_step h hp
    · exact hs.presence p hp
    · exact hs.bus.peers.values p hp
  · obtain hd | rfl := hsaving d hd
    · exact hs.saving d hd
    · exact hdurable
  · obtain hd | rfl := hflushing d hd
    · exact hs.flushing d hd
    · exact hdurable
  · obtain he | hd | hd := hfile
    · rw [he]
      exact hs.file
    · exact hs.saving _ hd
    · exact hs.flushing _ hd

open StepSystem
open Subscriber (unwritten)
open Demux (nextEvents results)

theorem Fits.run {as : List Action} (hcfg : cfg.drainResumeHintMs < 2 ^ 64)
    (ha : ∀ a ∈ as, a.InRange ∧ a.Typed fromStr) (hs : s.Fits)
    (hr : run (Daemon.step cfg fromStr) s as = some t) : t.Fits :=
  run_along_invariant (P := fun _ a => a.InRange ∧ a.Typed fromStr)
    (fun _ _ _ hs ha h => hs.step hcfg ha.1 ha.2 h) (along_of_forall s ha) hr hs

/-- A missing journal, and one that cannot be parsed, stand for the empty state. -/
def load (journal : Option String) : DurableState :=
  (journal.bind DurableState.fromStr).getD .default

theorem load_fits (journal : Option String) : Table.All ClaimRecord.Fits (load journal).claims := by
  rw [load]
  cases h : journal.bind DurableState.fromStr with
  | none => exact Table.all_empty
  | some state =>
    obtain ⟨text, _, hs⟩ := Option.bind_eq_some_iff.mp h
    exact DurableState.fits_fromStr hs

theorem fits_reachable {journal : Option String} {now : Nat} {as : List Action}
    (hcfg : cfg.drainResumeHintMs < 2 ^ 64) (ha : ∀ a ∈ as, a.InRange)
    (hr : run (Daemon.step cfg ClientMessage.fromStr) (start (load journal) [] now) as = some s) :
    s.Fits :=
  (fits_start now (load_fits journal) (List.forall_mem_nil _)).run hcfg
    (fun a hm => ⟨ha a hm, a.typed_fromStr⟩) hr

theorem unwritten_fits {es : List Effect} (h : ∀ e ∈ es, e.Fits) :
    ∀ l ∈ unwritten es, l.Fits := by
  intro l hl
  obtain ⟨e, he, hl⟩ := List.mem_filterMap.mp hl
  have hfits := h e he
  split at hl
  · cases hl
    exact hfits
  · cases hl
    exact hfits
  · cases hl

/-- Whatever the clients send that holds no float, whatever the journal held and whatever comes in
over the uplink: every line that the daemon writes, or is about to write, is one line of text
without floats, and a client reads it as the reply or the event that it is. -/
theorem lines_read_back (cfg : Config) (hcfg : cfg.drainResumeHintMs < 2 ^ 64) (read : Readers)
    (hread : read.Faithful) (file : DurableState)
    (hfile : Table.All ClaimRecord.Fits file.claims) (now : Nat) (as : List Action)
    (ha : ∀ a ∈ as, a.InRange ∧ a.FloatFree) (s : Daemon)
    (hr : run (Daemon.step cfg read.message) (start file [] now) as = some s) (c : Nat) (k : Conn)
    (hk : s.conns[c]? = some k) :
    (∀ l ∈ k.written ++ unwritten k.pending,
      Unbroken l.text ∧ FloatFree l.text ∧ read.line l.text = l.inbound) ∧
    Lines.read (Lines.write (k.written.map OutLine.text)) = k.written.map OutLine.text ∧
    ∀ n, nextEvents n (Lines.read (Lines.write (k.written.map OutLine.text))) =
      (results k.written ++ List.replicate n (Except.ok none)).take n := by
  have hrun : s.Fits := (fits_start now hfile (List.forall_mem_nil _)).run hcfg
    (fun a hm => ⟨(ha a hm).1, (ha a hm).2.typed hread.message⟩) hr
  have hfits := hrun.conns c k hk
  refine ⟨fun l hl => ?_, OutLine.read_write _, fun n => ?_⟩
  · have hl : l.Fits := by
      obtain hl | hl := List.mem_append.mp hl
      · exact hfits.written l hl
      · exact unwritten_fits hfits.pending l hl
    have hfree : FloatFree l.text := (OutLine.writes_toJson hl).inRange.floatFree_text
    exact ⟨unbroken_text _, hfree, (hread.line _ hfree).trans (OutLine.fromStr_text hl)⟩
  · rw [OutLine.read_write]
    exact Demux.nextEvents_text hfits.written n

def lookalikeRun : List Action :=
  [.connect, .line 0 (announceLine "s1") 1, .proceed 0 1 true,
    .line 0 "\x7b\"op\":\"subscribe\",\"prefix\":\"\"\x7d" 2, .proceed 0 2 true,
    .line 0 "\x7b\"data\":\x7b\"ok\":true\x7d,\"topic\":\"t\",\"op\":\"publish\"\x7d" 3,
    .proceed 0 3 true, .proceed 0 3 true, .event 0, .proceed 0 3 true]

theorem lines_read_back_lookalike : ∃ s k,
    run (Daemon.step ⟨60, 1024, 3000, false, "carbon"⟩ jsonReaders.message)
      (start .default [] 0) lookalikeRun = some s ∧ s.conns[0]? = some k ∧
    nextEvents 1 (Lines.read (Lines.write (k.written.map OutLine.text))) =
      [.ok (some ⟨"t", .object [("ok", .bool true)], "s1"⟩)] := by
  have heval : (run (Daemon.step ⟨60, 1024, 3000, false, "carbon"⟩ jsonReaders.message)
      (start .default [] 0) lookalikeRun).bind (fun s => s.conns[0]?.map Conn.written) =
      some [.reply .okEmpty, .reply .okEmpty, .reply .okEmpty,
        .event ⟨"t", .object [("ok", .bool true)], "s1"⟩] := by decide +kernel
  obtain ⟨s, hs, heval⟩ := Option.bind_eq_some_iff.mp heval
  obtain ⟨k, hk, hw⟩ := Option.map_eq_some_iff.mp heval
  have hrange : ∀ a ∈ lookalikeRun, a.InRange ∧ a.FloatFree := by
    simp only [lookalikeRun, List.forall_mem_cons, List.not_mem_nil, false_implies, implies_true,
      Action.InRange, Action.FloatFree, and_true, true_and]
    decide +kernel
  refine ⟨s, k, hs, hk, ?_⟩
  rw [(lines_read_back _ (by decide) jsonReaders jsonReaders_faithful .default Table.all_empty 0
    lookalikeRun hrange s hs 0 k hk).2.2 1, hw]
  rfl

end Daemon

end Agorabus
