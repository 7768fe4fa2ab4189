import Agorabus.Commands

namespace Agorabus

open Daemon StepSystem Requests
open Correlation (Requester)
open Json (ReadsAs fitsUnder_present fitsUnder_string fitsUnder_array)

/-- The lines that others send hold no float, and the clock readings and what comes in over the
uplink are of the declared types. -/
def CommandMove.Allowed : CommandMove → Prop
  | .net (.serve a) => a.InRange ∧ a.FloatFree
  | _ => True

namespace Session

/-- At some step of the run the daemon takes the message of the command, and this holds of the
daemon before it and after it, and of the clock. -/
def Meets (cfg : Config) (fromStr : String → Option ClientMessage) (v : Command) (i : Nat)
    (s₀ : Session) (mvs : List CommandMove) (m : ClientMessage) (P : Daemon → Daemon → Nat → Prop) :
    Prop :=
  ∃ before mv after u w time r, mvs = before ++ mv :: after ∧
    run (step cfg fromStr v i) s₀ before = some u ∧ u.step cfg fromStr v i mv = some w ∧
    .answered m r ∈ u.exchange cfg fromStr i mv ∧ P u.req.net.daemon w.req.net.daemon time

/-- The daemon can read what the command sends. However the command is run, and whatever else goes
on: when it is over it has found no daemon, and nothing has come of it, or it has lost its
connection, and the daemon has taken some of its messages, or the daemon has taken each of them
once, and with the last its output is as it should be. -/
def Reports (cfg : Config) (fromStr : String → Option ClientMessage) (file : DurableState)
    (now : Nat) (v : Command) (ms : List ClientMessage)
    (P : Output → Daemon → Daemon → Nat → Prop) : Prop :=
  (∀ m ∈ v.announcement :: ms, Encodes fromStr m.toJson.text m) ∧
  ∀ i mvs s out, (∀ mv ∈ mvs, mv.Allowed) →
    run (step cfg fromStr v i) (start file [] now) mvs = some s → s.output v = some out →
      (out = ⟨v.offline, 0⟩ ∧ Refused cfg fromStr v i (start file [] now) mvs ∧
        taken cfg fromStr v i (start file [] now) mvs = []) ∨
      (out = ⟨[], 2⟩ ∧ (∃ l, s.req.net.clients[i]? = some l ∧ l.Gone s.req.net.daemon) ∧
        (taken cfg fromStr v i (start file [] now) mvs).map Prod.fst <+: v.announcement :: ms) ∨
      ((taken cfg fromStr v i (start file [] now) mvs).map Prod.fst = v.announcement :: ms ∧
        Meets cfg fromStr v i (start file [] now) mvs (ms.getLastD v.announcement) (P out))

end Session

section steps

variable {cfg : Config} {fromStr : String → Option ClientMessage} {v : Command} {i : Nat}

theorem requester_daemon {r r' : Requester} {b : Correlation.Move}
    (h : r.step cfg fromStr i b = some r') :
    (∃ d, (b = .net (.serve d) ∨ d = .connect) ∧
      r.net.daemon.step cfg fromStr d = some r'.net.daemon) ∨ r'.net.daemon = r.net.daemon := by
  cases b with
  | net a =>
    simp only [Requester.step] at h
    split at h
    · cases h
    · obtain ⟨n, hn, rfl⟩ := Option.map_eq_some_iff.mp h
      obtain ⟨d, hd, hs⟩ | ⟨_, hs⟩ := Net.step_daemon hn
      · refine Or.inl ⟨d, ?_, hs⟩
        cases a with
        | serve a =>
          cases hd
          exact Or.inl rfl
        | connect =>
          cases hd
          exact Or.inr rfl
        | _ => cases hd
      · exact Or.inr hs
  | request m =>
    simp only [Requester.step] at h
    split at h
    · obtain ⟨n, hn, rfl⟩ := Option.map_eq_some_iff.mp h
      obtain ⟨l, _, _, rfl⟩ := Net.step_send.mp hn
      exact Or.inr rfl
    · cases h
  | readReply =>
    simp only [Requester.step, Option.bind_eq_bind, Option.bind_eq_some_iff] at h
    obtain ⟨m, _, l, _, h⟩ := h
    split at h
    · split at h
      · cases h
      · cases h
        exact Or.inr rfl
    · obtain ⟨n, hn, rfl⟩ := Option.map_eq_some_iff.mp h
      obtain ⟨l, _, _, _, _, rfl⟩ := Net.step_read.mp hn
      exact Or.inr rfl
  | nextEvent =>
    simp only [Requester.step] at h
    split at h
    · obtain ⟨n, hn, rfl⟩ := Option.map_eq_some_iff.mp h
      obtain ⟨l, _, _, _, _, rfl⟩ := Net.step_read.mp hn
      exact Or.inr rfl
    · cases h

theorem session_daemon {s t : Session} {mv : CommandMove} (hmv : mv.Allowed)
    (h : s.step cfg fromStr v i mv = some t) :
    (∃ d : Action, (d.InRange ∧ d.FloatFree) ∧
        s.req.net.daemon.step cfg fromStr d = some t.req.net.daemon) ∨
      t.req.net.daemon = s.req.net.daemon := by
  have lift {b : Correlation.Move} {r : Requester} (hr : s.req.step cfg fromStr i b = some r)
      (hb : ∀ d : Action, b = .net (.serve d) → d.InRange ∧ d.FloatFree) :
      (∃ d : Action, (d.InRange ∧ d.FloatFree) ∧
          s.req.net.daemon.step cfg fromStr d = some r.net.daemon) ∨
        r.net.daemon = s.req.net.daemon := by
    obtain ⟨d, hd | rfl, hs⟩ | hs := requester_daemon hr
    · exact Or.inl ⟨d, hb d hd, hs⟩
    · exact Or.inl ⟨.connect, ⟨trivial, trivial⟩, hs⟩
    · exact Or.inr hs
  cases mv with
  | net a =>
    obtain ⟨r, hr, rfl⟩ := Option.map_eq_some_iff.mp h
    exact lift hr (fun d hd => by cases hd; exact hmv)
  | connect =>
    simp only [Session.step] at h
    split at h
    · split at h
      · split at h
        · obtain ⟨r, hr, rfl⟩ := Option.map_eq_some_iff.mp h
          exact lift hr (fun d hd => by cases hd)
        · cases h
      · cases h
        exact Or.inr rfl
    · cases h
  | send =>
    simp only [Session.step] at h
    split at h
    · split at h
      · rename_i r hr
        cases h
        exact lift hr (fun d hd => by cases hd)
      · cases h
        exact Or.inr rfl
    · cases h
  | receive =>
    simp only [Session.step] at h
    split at h
    · obtain ⟨r, hr, rfl⟩ := Option.map_eq_some_iff.mp h
      exact lift hr (fun d hd => by cases hd)
    · cases h

end steps

section served

variable {cfg : Config} {fromStr : String → Option ClientMessage} {file : DurableState}
  {now i : Nat} {v : Command} {mvs : List CommandMove}

theorem sound_session (hcfg : cfg.drainResumeHintMs < 2 ^ 64)
    (hread : ReadsAs fromStr ClientMessage.fromStr)
    (hfile : Table.All ClaimRecord.Fits file.claims) (hmvs : ∀ mv ∈ mvs, mv.Allowed) {s : Session}
    (hr : run (Session.step cfg fromStr v i) (.start file [] now) mvs = some s) :
    s.req.net.daemon.Fits ∧ FleetView.Named s.req.net.daemon := by
  refine run_along_invariant (P := fun _ mv => mv.Allowed)
    (I := fun (s : Session) => s.req.net.daemon.Fits ∧ FleetView.Named s.req.net.daemon)
    (fun s mv t hs hmv h => ?_) (along_of_forall _ hmvs) hr ⟨?_, fun sid r hr => by cases hr⟩
  · obtain ⟨d, hd, ht⟩ | ht := session_daemon hmv h
    · exact ⟨hs.1.step hcfg hd.1 (hd.2.typed hread) ht, FleetView.named_step hs.2 ht⟩
    · rw [ht]
      exact hs
  · exact fits_start now hfile (List.forall_mem_nil _)

theorem meets_of_given {s₀ : Session} {m : ClientMessage} {r : Reply}
    (h : Session.Given cfg fromStr v i s₀ mvs m r) (hm : m ≠ v.announcement)
    {P : Daemon → Daemon → Nat → Prop}
    (hP : ∀ before u, before <+: mvs → run (Session.step cfg fromStr v i) s₀ before = some u →
      ∀ d' time, u.req.net.daemon.Serves cfg fromStr d' time (some v.sessionId) m r →
        P u.req.net.daemon d' time) : Session.Meets cfg fromStr v i s₀ mvs m P := by
  obtain ⟨before, mv, after, u, w, time, o, rfl, hu, hw, hx, hserves, ho, hopens⟩ := h
  have hsid : o = some v.sessionId := by
    split at ho
    · rename_i hnil
      rw [hnil] at hopens
      exact absurd hopens.first hm
    · exact ho
  rw [hsid] at hserves
  exact ⟨before, mv, after, u, w, time, r, rfl, hu, hw, hx,
    hP before u (List.prefix_append _ _) hu _ _ hserves⟩

theorem meets_of_query (hcfg : cfg.drainResumeHintMs < 2 ^ 64)
    (hread : ReadsAs fromStr ClientMessage.fromStr)
    (hfile : Table.All ClaimRecord.Fits file.claims) (hmvs : ∀ mv ∈ mvs, mv.Allowed)
    {m : ClientMessage} {r : Reply}
    (h : Session.Given cfg fromStr v i (.start file [] now) mvs m r) (hm : m ≠ v.announcement)
    {P : Daemon → Daemon → Nat → Prop}
    (hP : ∀ d d' time, d.Fits → FleetView.Named d →
      d.Serves cfg fromStr d' time (some v.sessionId) m r → P d d' time) :
    Session.Meets cfg fromStr v i (.start file [] now) mvs m P := by
  refine meets_of_given h hm (fun before u hpre hu d' time hserves => ?_)
  have hsound := sound_session hcfg hread hfile (fun mv hmv => hmvs mv (hpre.subset hmv)) hu
  exact hP _ _ _ hsound.1 hsound.2 hserves

theorem reports_of_post (hread : ReadsAs fromStr ClientMessage.fromStr)
    {ms : List ClientMessage} {P : Output → Daemon → Daemon → Nat → Prop}
    (hfits : ∀ m ∈ v.announcement :: ms, m.Fits) (hask : ∀ r, (v.body r).Asks ms)
    (hms : ∀ m ∈ ms, ∀ p, m ≠ .subscribe p)
    (hpost : ∀ i mvs, (∀ mv ∈ mvs, mv.Allowed) → ∀ r,
      Session.Given cfg fromStr v i (.start file [] now) mvs v.announcement r →
      Program.Post (Session.Given cfg fromStr v i (.start file [] now) mvs)
        (fun out => Session.Meets cfg fromStr v i (.start file [] now) mvs
          (ms.getLastD v.announcement) (P out)) (v.body r)) :
    Session.Reports cfg fromStr file now v ms P := by
  refine ⟨fun m hm => ?_, fun i mvs s out hmvs hr hout => ?_⟩
  · exact encodes_of_readsBack (ClientMessage.readsBack_toJson hread (hfits m hm)) (hfits m hm)
  have hasks : v.program.Asks (v.announcement :: ms) := .ask hask
  have huses : v.program.Uses (fun m => ∀ p, m ≠ .subscribe p) := by
    refine hasks.uses (List.forall_mem_cons.mpr ⟨fun p hp => ?_, hms⟩)
    cases hp
  have hgood : v.program.Post _ _ := .ask (fun r hr => hpost i mvs hmvs r hr)
  obtain h | ⟨he, hgone, hopens⟩ | ⟨p, hreach, hp⟩ := Session.ended huses hr hout
  · exact Or.inl h
  · exact Or.inr (Or.inl ⟨he, hgone, hopens.asked hasks⟩)
  · have hp' := hreach.post (fun x hx => Session.given_of_taken huses hx) hgood
    obtain rfl | ⟨_, e, rfl⟩ := hp
    · refine Or.inr (Or.inr ⟨hreach.asked hasks rfl, ?_⟩)
      cases hp' with
      | done h => exact h
    · cases hp'

section query

variable (cfg : Config) (d : Daemon) (time : Nat)

def Daemon.Fresh (p : PeerRecord) : Prop :=
  ∃ sid, d.bus.peers.lookup sid = some p ∧
    time - p.lastHeartbeatUnixSecs ≤ cfg.heartbeatTimeoutSecs

/-- The claims a session is shown: those that have not expired. -/
def Daemon.Live (c : ClaimRecord) : Prop :=
  ∃ path, d.bus.claims.lookup path = some c ∧ time < c.ttlUnixSecs

end query

theorem peersQuery_post (hcfg : cfg.drainResumeHintMs < 2 ^ 64)
    (hread : ReadsAs fromStr ClientMessage.fromStr)
    (hfile : Table.All ClaimRecord.Fits file.claims) (hmvs : ∀ mv ∈ mvs, mv.Allowed)
    (hv : .peers ≠ v.announcement) :
    Program.Post (Session.Given cfg fromStr v i (.start file [] now) mvs)
      (fun ps => Session.Meets cfg fromStr v i (.start file [] now) mvs
        .peers (fun d _ time => (∀ p ∈ ps, p.Fits) ∧ (ps.map PeerRecord.sessionId).Nodup ∧
          ∀ p, p ∈ ps ↔ d.Fresh cfg time p)) Command.peersQuery := by
  refine Program.Post.bind (Program.Post.request (fun _ h => h)) (fun r hr => ?_)
  refine Program.Post.ofExcept ?_
  obtain ⟨before, mv, after, u, w, time, r', hmvs, hu, hw, hx, ps, hps, hfacts⟩ :=
    meets_of_query hcfg hread hfile hmvs hr hv
      (P := fun d _ time => ∃ ps, Client.peers r = .ok ps ∧ (∀ p ∈ ps, p.Fits) ∧
        (ps.map PeerRecord.sessionId).Nodup ∧ ∀ p, p ∈ ps ↔ d.Fresh cfg time p)
      (fun d d' time hfits hn ⟨c, text, hd, hreq, hans⟩ =>
        peers_answered hd hans hfits.bus hn hreq)
  exact ⟨ps, hps, before, mv, after, u, w, time, r', hmvs, hu, hw, hx, hfacts⟩

theorem claimListQuery_post (hcfg : cfg.drainResumeHintMs < 2 ^ 64)
    (hread : ReadsAs fromStr ClientMessage.fromStr)
    (hfile : Table.All ClaimRecord.Fits file.claims) (hmvs : ∀ mv ∈ mvs, mv.Allowed)
    (hv : .claimList ≠ v.announcement) :
    Program.Post (Session.Given cfg fromStr v i (.start file [] now) mvs)
      (fun cs => Session.Meets cfg fromStr v i (.start file [] now) mvs
        .claimList (fun d _ time => (∀ c ∈ cs, c.Fits) ∧ ∀ c, c ∈ cs ↔ d.Live time c))
      Command.claimListQuery := by
  refine Program.Post.bind (Program.Post.request (fun _ h => h)) (fun r hr => ?_)
  refine Program.Post.ofExcept ?_
  obtain ⟨before, mv, after, u, w, time, r', hmvs, hu, hw, hx, cs, hcs, hfacts⟩ :=
    meets_of_query hcfg hread hfile hmvs hr hv
      (P := fun d _ time => ∃ cs, Client.claimList r = .ok cs ∧ (∀ c ∈ cs, c.Fits) ∧
        ∀ c, c ∈ cs ↔ d.Live time c)
      (fun d d' time hfits hn ⟨c, text, hd, hreq, hans⟩ =>
        claims_answered hd hans hfits.bus hreq)
  exact ⟨cs, hcs, before, mv, after, u, w, time, r', hmvs, hu, hw, hx, hfacts⟩

end served

theorem PeerRecord.fitsUnder_projected (p : PeerRecord) : p.projected.FitsUnder 1 := by
  have hlimit : 2 < Json.recursionLimit := by decide
  have hkeys : List.Pairwise (· < ·) ["prd_slug", "session_id", "skill", "working_paths"] := by
    decide
  refine fitsUnder_present hlimit hkeys ?_
  simp only [List.forall_mem_cons, Option.mem_def, Option.some.injEq, forall_eq']
  exact ⟨fitsUnder_skipEmpty hlimit _, fitsUnder_string hlimit _, fitsUnder_skipEmpty hlimit _,
    fitsUnder_skipEmptyVec (by decide) _, List.forall_mem_nil _⟩

namespace Command

open Session (Reports)

variable {cfg : Config} {read : Readers} {file : DurableState} {now : Nat}

/-- The peers command prints all fresh records but its own, each session once. -/
def PeersShown (cfg : Config) (read : Readers) (pid : Nat) (out : Output) (d _ : Daemon)
    (time : Nat) : Prop :=
  ∃ (ps : List PeerRecord) (text : String), out = ⟨[text], 0⟩ ∧ read.peers text = some ps ∧
    (ps.map PeerRecord.sessionId).Nodup ∧
    ∀ p, p ∈ ps ↔ d.Fresh cfg time p ∧ p.sessionId ≠ "cli-peers-" ++ toString pid

/-- The claims that have not expired, of the path and the session that are asked for. As text they
stand one in a line, and what they hold is not escaped. -/
def ClaimsShown (read : Readers) (path sessionId : Option String) (format : String) (out : Output)
    (d _ : Daemon) (time : Nat) : Prop :=
  ∃ cs : List ClaimRecord, (format = "text" → out = ⟨cs.map ClaimRecord.asLine, 0⟩) ∧
    (format ≠ "text" → ∃ text, out = ⟨[text], 0⟩ ∧ read.claims text = some cs) ∧
    ∀ c, c ∈ cs ↔ d.Live time c ∧ (∀ wanted, path = some wanted → c.path = wanted) ∧
      ∀ wanted, sessionId = some wanted → c.sessionId = wanted

def IntentsShown (cfg : Config) (read : Readers) (pid : Nat) (out : Output) (d _ : Daemon)
    (time : Nat) : Prop :=
  ∃ (ps : List PeerRecord) (text : String), out = ⟨[text], 0⟩ ∧
    read.value text = some (.array (ps.map PeerRecord.projected)) ∧
    (ps.map PeerRecord.sessionId).Nodup ∧
    ∀ p, p ∈ ps ↔ d.Fresh cfg time p ∧ p.sessionId ≠ "cli-intent-list-" ++ toString pid ∧
      (p.skill ≠ "" ∨ p.prdSlug ≠ "" ∨ p.workingPaths ≠ [])

theorem peers_reports (hcfg : cfg.drainResumeHintMs < 2 ^ 64) (hread : read.Faithful)
    (hfile : Table.All ClaimRecord.Fits file.claims) {pid : Nat} (hpid : pid < 2 ^ 32)
    (cwd : String) :
    Reports cfg read.message file now (peers pid cwd) [.peers] (PeersShown cfg read pid) := by
  refine reports_of_post hread.message ?_ (fun _ => ?_) (by simp) (fun i mvs hmvs _ _ => ?_)
  · exact List.forall_mem_cons.mpr ⟨hpid, List.forall_mem_singleton.mpr trivial⟩
  · exact .bind (.bind (.request _) (fun _ => .ofExcept _)) (fun _ => .done _)
  · refine .bind (peersQuery_post hcfg hread.message hfile hmvs (fun h => by cases h))
      (fun ps hps => .done ?_)
    obtain ⟨before, mv, after, u, w, time, r, hmvs, hu, hw, hx, hfits, hnodup, hmem⟩ := hps
    have hfits : ∀ p ∈ ps.filter (fun p =>
        decide (p.sessionId ≠ "cli-peers-" ++ toString pid)), p.Fits :=
      fun p hp => hfits p (List.mem_filter.mp hp).1
    have hback := readsBack hread.peers
      (writes_map (fun p hp => PeerRecord.writes_toJson (hfits p hp))) (by decide)
      (vecFromStr_text (fun p hp => PeerRecord.fromJson_toJson (hfits p hp))
        (fun p hp => PeerRecord.writes_toJson (hfits p hp)) (by decide))
    refine ⟨before, mv, after, u, w, time, r, hmvs, hu, hw, hx, _, _, rfl, hback.reads, ?_,
      fun p => ?_⟩
    · exact hnodup.sublist (List.filter_sublist.map _)
    · rw [List.mem_filter, hmem, decide_eq_true_eq]

theorem claimList_reports (hcfg : cfg.drainResumeHintMs < 2 ^ 64) (hread : read.Faithful)
    (hfile : Table.All ClaimRecord.Fits file.claims) {pid : Nat} (hpid : pid < 2 ^ 32)
    (cwd : String) (path sessionId : Option String) (format : String) :
    Reports cfg read.message file now (claimList pid cwd path sessionId format) [.claimList]
      (ClaimsShown read path sessionId format) := by
  refine reports_of_post hread.message ?_ (fun _ => ?_) (by simp) (fun i mvs hmvs _ _ => ?_)
  · exact List.forall_mem_cons.mpr ⟨hpid, List.forall_mem_singleton.mpr trivial⟩
  · exact .bind (.bind (.request _) (fun _ => .ofExcept _)) (fun _ => .done _)
  · refine .bind (claimListQuery_post hcfg hread.message hfile hmvs (fun h => by cases h))
      (fun cs hcs => .done ?_)
    obtain ⟨before, mv, after, u, w, time, r, hmvs, hu, hw, hx, hfits, hmem⟩ := hcs
    have hfits : ∀ c ∈ (cs.filter (fun c =>
        path.all (fun wanted => decide (c.path = wanted)))).filter (fun c =>
          sessionId.all (fun wanted => decide (c.sessionId = wanted))), c.Fits :=
      fun c hc => hfits c (List.mem_filter.mp (List.mem_filter.mp hc).1).1
    have hback := readsBack hread.claims
      (writes_map (fun c hc => ClaimRecord.writes_toJson (hfits c hc))) (by decide)
      (vecFromStr_text (fun c hc => ClaimRecord.fromJson_toJson (hfits c hc))
        (fun c hc => ClaimRecord.writes_toJson (hfits c hc)) (by decide))
    refine ⟨before, mv, after, u, w, time, r, hmvs, hu, hw, hx, _, fun hf => if_pos hf,
      fun hf => ⟨_, if_neg hf, hback.reads⟩, fun c => ?_⟩
    rw [List.mem_filter, List.mem_filter, hmem, Option.all_eq_true, Option.all_eq_true, and_assoc]
    simp

theorem intentList_reports (hcfg : cfg.drainResumeHintMs < 2 ^ 64) (hread : read.Faithful)
    (hfile : Table.All ClaimRecord.Fits file.claims) {pid : Nat} (hpid : pid < 2 ^ 32)
    (cwd : String) :
    Reports cfg read.message file now (intentList pid cwd) [.peers]
      (IntentsShown cfg read pid) := by
  refine reports_of_post hread.message ?_ (fun _ => ?_) (by simp) (fun i mvs hmvs _ _ => ?_)
  · exact List.forall_mem_cons.mpr ⟨hpid, List.forall_mem_singleton.mpr trivial⟩
  · exact .bind (.bind (.request _) (fun _ => .ofExcept _)) (fun _ => .done _)
  · refine .bind (peersQuery_post hcfg hread.message hfile hmvs (fun h => by cases h))
      (fun ps hps => .done ?_)
    obtain ⟨before, mv, after, u, w, time, r, hmvs, hu, hw, hx, _, hnodup, hmem⟩ := hps
    refine ⟨before, mv, after, u, w, time, r, hmvs, hu, hw, hx, _, _, rfl,
      value_text hread.value ?_, ?_, fun p => ?_⟩
    · refine fitsUnder_array (by decide) (fun v hv => ?_)
      obtain ⟨p, _, rfl⟩ := List.mem_map.mp hv
      exact p.fitsUnder_projected
    · exact hnodup.sublist ((List.filter_sublist.trans List.filter_sublist).map _)
    · rw [List.mem_filter, List.mem_filter, hmem, decide_eq_true_eq, and_assoc]
      simp [PeerRecord.hasIntent, or_assoc]

def peersRun : List CommandMove :=
  [.net .connect, .net (.send 0 (.announce "s1" 7 "/" "" none)),
    .net (.serve (.line 0 (announceLine "s1") 1)), .connect, .send,
    .net (.serve (.line 1 (clientLine "cli-peers-7" "peers-query") 2)),
    .net (.serve (.proceed 1 2 true)), .receive, .send,
    .net (.serve (.line 1 "\x7b\"op\":\"peers\"\x7d" 5)), .net (.serve (.proceed 1 5 true)),
    .receive]

end Command

end Agorabus
