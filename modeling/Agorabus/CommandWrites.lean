import Agorabus.ClaimTable
import Agorabus.CommandReports

namespace Agorabus

open Daemon StepSystem Requests
open Json (FloatFree ReadsAs)

theorem Daemon.Serves.handled {cfg : Config} {fromStr : String → Option ClientMessage}
    {d d' : Daemon} {time : Nat} {o : Option String} {m : ClientMessage} {r : Reply}
    (h : d.Serves cfg fromStr d' time o m r) :
    ∃ c k, ∃ served : Served, served = o.elim (handleFirst k c d.bus time m)
        (fun sid => handleMessage cfg k sid d.bus d.uplinkStatus d.log.length time m) ∧
      Subscriber.unwritten served.conn.pending = [.reply r] ∧ d'.bus = served.bus ∧
      d'.log = d.log ++ served.sent := by
  obtain ⟨c, text, hd, hreq, hans⟩ := h
  obtain ⟨k, r', hk, hr, hone, hline⟩ := answer_eq hd hreq
  obtain rfl : r = r' := Option.some.inj (hans.symm.trans hr)
  obtain ⟨k', hk', _, _, _, rfl⟩ := step_request hd hreq
  obtain rfl : k = k' := Option.some.inj (hk.symm.trans hk')
  exact ⟨c, k, _, hline, hone, rfl, rfl⟩

namespace Command

open Session (Reports)

variable {cfg : Config} {read : Readers} {fromStr : String → Option ClientMessage}
  {file : DurableState} {now pid : Nat}

theorem request_reports (hread : ReadsAs fromStr ClientMessage.fromStr) {v : Command}
    (hpid : v.pid < 2 ^ 32) {m : ClientMessage} (hfits : m.Fits) (hm : m ≠ v.announcement)
    (hp : ∀ p, m ≠ .subscribe p)
    (hv : ∀ r, v.body r = request m >>= fun reply => .done reply.output)
    {P : Output → Daemon → Daemon → Nat → Prop}
    (hP : ∀ r d d' time, d.Serves cfg fromStr d' time (some v.sessionId) m r →
      P r.output d d' time) : Reports cfg fromStr file now v [m] P := by
  refine reports_of_post hread ?_ (fun r => ?_) (by simpa using hp) (fun i mvs _ r _ => ?_)
  · exact List.forall_mem_cons.mpr ⟨hpid, List.forall_mem_singleton.mpr hfits⟩
  · rw [hv]
    exact .bind (.request m) (fun _ => .done _)
  · rw [hv]
    refine .bind (.request (fun r hr => hr)) (fun r hr => .done ?_)
    exact meets_of_given hr hm (fun _ _ _ _ _ _ hserves => hP r _ _ _ hserves)

/-- A session that nobody owns is entered as it says; one that somebody owns is left as it is. -/
def Announced (sid : String) (pid : Nat) (cwd intent : String) (out : Output) (d d' : Daemon)
    (time : Nat) : Prop :=
  out = Reply.okEmpty.output ∧ d'.log = d.log ∧ d'.bus.claims = d.bus.claims ∧
    d'.bus.intents = d.bus.intents ∧ (sid ∈ d.bus.peerOwners → d'.bus = d.bus) ∧
    (sid ∉ d.bus.peerOwners → ∀ j, d'.bus.peers.lookup j =
      if j = sid then some (.announced sid pid cwd intent none time) else d.bus.peers.lookup j)

def Published (sid topic : String) (data : Json) (out : Output) (d d' : Daemon) (_ : Nat) :
    Prop :=
  out = Reply.okEmpty.output ∧ d'.bus = d.bus ∧ d'.log = d.log ++ [⟨topic, data, sid, false⟩]

/-- The session's record takes the heartbeat, if it has one; a heartbeat with too many paths is
refused. -/
def Beaten (sid tool : String) (skill prd : Option String) (paths : Option (List String))
    (out : Output) (d d' : Daemon) (time : Nat) : Prop :=
  d'.log = d.log ∧ d'.bus.claims = d.bus.claims ∧
    ((∃ ps, paths = some ps ∧ maxWorkingPaths < ps.length) →
      out = (Reply.err "too_many_paths").output ∧ d'.bus = d.bus) ∧
    ((∀ ps, paths = some ps → ps.length ≤ maxWorkingPaths) → out = Reply.okEmpty.output ∧
      ∀ j, d'.bus.peers.lookup j =
        if j = sid then (d.bus.peers.lookup j).map (·.beat tool skill prd paths time)
        else d.bus.peers.lookup j)

/-- The claim is gone if the session held it, and the output says whether it did. -/
def Released (sid path : String) (out : Output) (d d' : Daemon) (time : Nat) : Prop :=
  d'.log = d.log ∧ d'.bus.intents = d.bus.intents ∧ ∃ released : Bool,
    out = (Reply.okWith (.object [("released", .bool released)])).output ∧
    (released = true ↔ ∃ c, liveClaim d.bus.claims time path = some c ∧ c.sessionId = sid) ∧
    ∀ p, liveClaim d'.bus.claims time p =
      if p = path ∧ released = true then none else liveClaim d.bus.claims time p

theorem announce_reports (hread : ReadsAs fromStr ClientMessage.fromStr) (sid : String)
    (hpid : pid < 2 ^ 32) (cwd intent : String) :
    Reports cfg fromStr file now (announce sid pid cwd intent) []
      (Announced sid pid cwd intent) := by
  refine reports_of_post hread ?_ (fun _ => .done _) (List.forall_mem_nil _)
    (fun i mvs _ r hr => .done ?_)
  · exact List.forall_mem_singleton.mpr hpid
  obtain ⟨before, mv, after, u, w, time, o, hmvs, hu, hw, hx, hserves, ho, hopens⟩ := hr
  -- there is no other message that the daemon could have taken before
  have hone := (hopens.asked (.ask (fun _ => .done _))).length_le
  rw [List.length_append, List.length_map, List.length_singleton, Nat.add_le_add_iff_right,
    Nat.le_zero, List.length_eq_zero_iff] at hone
  rw [if_pos hone] at ho
  subst ho
  obtain ⟨c, k, _, rfl, hreply, hbus, hlog⟩ := hserves.handled
  cases hreply
  refine ⟨before, mv, after, u, w, time, _, hmvs, hu, hw, hx, rfl, ?_, ?_⟩
  · exact hlog.trans (List.append_nil _)
  · rw [hbus]
    simp only [Option.elim_none, handleFirst, announcement, announce, answer, BusState.announce]
    by_cases hsid : sid ∈ u.req.net.daemon.bus.peerOwners
    · simp [hsid]
    · simp only [hsid, ↓reduceIte, not_false_eq_true, false_implies, true_implies, true_and]
      exact fun j => Table.lookup_insert ..

theorem payload_fits {value : String → Option Json} (hread : ReadsAs value valueFromStr)
    {data : String} (hfree : FloatFree data)
    (hdepth : (payload value data).depth + 1 < Json.recursionLimit) :
    (payload value data).FitsUnder 1 := by
  rw [payload, hread data hfree, valueFromStr] at hdepth ⊢
  cases hparse : Json.parse data with
  | none => exact Json.fitsUnder_string (by decide) data
  | some v =>
    rw [hparse] at hdepth
    exact ⟨(Json.writes_of_parse hparse).canonical.inRange, Json.ordered_canonical v, hdepth⟩

theorem publish_reports (hread : read.Faithful) (sid : String) (hpid : pid < 2 ^ 32)
    (cwd topic : String) {data : String} (hfree : FloatFree data)
    (hdepth : (payload read.value data).depth + 1 < Json.recursionLimit) :
    Reports cfg read.message file now (publish read.value sid pid cwd topic data)
      [.publish topic (payload read.value data)]
      (Published sid topic (payload read.value data)) := by
  have hfits : (ClientMessage.publish topic (payload read.value data)).Fits :=
    payload_fits hread.value hfree hdepth
  refine request_reports hread.message hpid hfits (fun h => by cases h) (by simp) (fun _ => rfl)
    (fun r d d' time h => ?_)
  obtain ⟨c, k, _, rfl, hreply, hbus, hlog⟩ := h.handled
  cases hreply
  exact ⟨rfl, hbus, hlog⟩

theorem beaten_of_serves {d d' : Daemon} {time : Nat} {sid tool : String}
    {skill prd : Option String} {paths : Option (List String)} {r : Reply}
    (h : d.Serves cfg fromStr d' time (some sid) (.heartbeat tool skill prd paths) r) :
    Beaten sid tool skill prd paths r.output d d' time := by
  obtain ⟨c, k, _, rfl, hreply, hbus, hlog⟩ := h.handled
  simp only [Option.elim_some, handleMessage] at hreply hbus hlog
  cases hmany : paths.any (fun ps => decide (maxWorkingPaths < ps.length)) with
  | true =>
    rw [hmany] at hreply hbus hlog
    cases hreply
    obtain ⟨ps, hps, hlt⟩ := (Option.any_eq_true _ _).mp hmany
    refine ⟨hlog.trans (List.append_nil _), by rw [hbus]; rfl, fun _ => ⟨rfl, hbus⟩, fun hle => ?_⟩
    exact absurd (of_decide_eq_true hlt) (Nat.not_lt.mpr (hle ps hps))
  | false =>
    rw [hmany] at hreply hbus hlog
    have hok : r = .okEmpty := by
      cases hchanged : (d.bus.heartbeat sid tool skill prd paths time).2 with
      | false =>
        simp only [hchanged] at hreply
        cases hreply
        rfl
      | true =>
        simp only [hchanged] at hreply
        cases hreply
        rfl
    subst hok
    refine ⟨hlog.trans (List.append_nil _), ?_, fun hlt => ?_, fun _ => ⟨rfl, fun j => ?_⟩⟩
    · rw [hbus]
      exact (BusState.heartbeat_frame ..).2
    · obtain ⟨ps, hps, hlt⟩ := hlt
      rw [hps, Option.any_some, decide_eq_false_iff_not] at hmany
      exact absurd hlt hmany
    · rw [hbus]
      exact BusState.heartbeat_peers_lookup ..

theorem heartbeat_reports (hread : ReadsAs fromStr ClientMessage.fromStr) (sid : String)
    (hpid : pid < 2 ^ 32) (cwd tool : String) :
    Reports cfg fromStr file now (heartbeat sid pid cwd tool) [.heartbeat tool none none none]
      (Beaten sid tool none none none) :=
  request_reports (m := .heartbeat tool none none none) hread hpid trivial (fun h => by cases h)
    (by simp) (fun _ => rfl) (fun _ _ _ _ h => beaten_of_serves h)

theorem intentSet_reports (hread : ReadsAs fromStr ClientMessage.fromStr) (sid : String)
    (hpid : pid < 2 ^ 32) (cwd : String) (skill prd paths : Option String) :
    Reports cfg fromStr file now (intentSet sid pid cwd skill prd paths)
      [.heartbeat "" skill prd (paths.map splitPaths)]
      (Beaten sid "" skill prd (paths.map splitPaths)) :=
  request_reports (m := .heartbeat "" skill prd (paths.map splitPaths)) hread hpid trivial
    (fun h => by cases h) (by simp) (fun _ => rfl) (fun _ _ _ _ h => beaten_of_serves h)

theorem released_of_serves {d d' : Daemon} {time : Nat} {sid path : String} {r : Reply}
    (h : d.Serves cfg fromStr d' time (some sid) (.claimRelease path) r) :
    Released sid path r.output d d' time := by
  obtain ⟨c, k, _, rfl, hreply, hbus, hlog⟩ := h.handled
  have hlive := liveClaim_claimRelease d.bus time sid path
  simp only [Option.elim_some, handleMessage] at hreply hbus hlog
  have hr : r = .okWith (.object [("released", .bool (d.bus.claimRelease sid path time).2)]) := by
    cases hdone : (d.bus.claimRelease sid path time).2 with
    | false =>
      rw [hdone] at hreply
      cases hreply
      rfl
    | true =>
      rw [hdone] at hreply
      cases hreply
      rfl
  subst hr
  have hheld : (d.bus.claimRelease sid path time).2 =
      (liveClaim d.bus.claims time path).any (fun c => decide (c.sessionId = sid)) :=
    changesDurable_claimRelease ..
  refine ⟨hlog.trans (List.append_nil _), ?_, _, rfl, ?_, fun p => ?_⟩
  · rw [hbus]
    exact (BusState.claimRelease_frame ..).2.1
  · rw [hheld, Option.any_eq_true]
    simp
  · rw [hbus, hheld]
    exact hlive p

theorem claimRelease_reports (hread : ReadsAs fromStr ClientMessage.fromStr) (sid : String)
    (hpid : pid < 2 ^ 32) (cwd path : String) :
    Reports cfg fromStr file now (claimRelease sid pid cwd path) [.claimRelease path]
      (Released sid path) :=
  request_reports (m := .claimRelease path) hread hpid trivial (fun h => by cases h) (by simp)
    (fun _ => rfl) (fun _ _ _ _ h => released_of_serves h)

def publishRun : List CommandMove :=
  [.connect, .send, .net (.serve (.line 0 (clientLine "s1" "publisher") 1)),
    .net (.serve (.proceed 0 1 true)), .receive, .send,
    .net (.serve (.line 0 "\x7b\"op\":\"publish\",\"topic\":\"t\",\"data\":[1]\x7d" 2)),
    .net (.serve (.proceed 0 2 true)), .net (.serve (.proceed 0 2 true)), .receive]

end Command

end Agorabus
