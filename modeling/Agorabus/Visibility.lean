import Agorabus.Activity
import Agorabus.FleetView

namespace Agorabus.Visibility

open Agorabus Daemon StepSystem Activity FleetView

def beats (fromStr : String → Option ClientMessage) (s : Daemon) (a : Action) :
    List (Nat × String × Nat) :=
  match a with
  | .line c _ now =>
      match s.request fromStr a with
      | some (some sid, .heartbeat tool skill prdSlug workingPaths) =>
          if (ClientMessage.heartbeat tool skill prdSlug workingPaths).accepted then
            [(c, sid, now)]
          else []
      | _ => []
  | _ => []

def Lists (t : Daemon) (c : Nat) (sid : String) : Prop :=
  ∃ (k : Conn) (rs : List PeerRecord), t.conns[c]? = some k ∧
    k.pending = [.write (.reply (.okWith (.array (rs.map PeerRecord.toValue))))] ∧
    sid ∈ rs.map PeerRecord.sessionId

/-- A lock section that takes away no record of the session: neither the cleanup of its owner nor a
`Peers` query that finds it idle for too long. -/
def leavesRecord (st : BusState) (now : Nat) (sid : String) : Transaction → Bool
  | .disconnect c sid' => !(decide (sid' = sid) && decide (st.peerOwners.lookup sid = some c))
  | .peers timeout => (st.lastHeard sid).all (fun n => decide (now - n ≤ timeout))
  | _ => true

def LeavesRecord (cfg : Config) (fromStr : String → Option ClientMessage) (sid : String)
    (s : Daemon) (a : Action) : Prop :=
  (∀ now, a ≠ .boot now) ∧
    (s.transaction cfg fromStr a).all (leavesRecord s.bus a.time sid) = true

variable {cfg : Config} {fromStr : String → Option ClientMessage} {s t : Daemon} {a : Action}

theorem leavesRecord_step {sid : String} (hk : LeavesRecord cfg fromStr sid s a)
    (hin : sid ∈ s.bus.peers) (h : step cfg fromStr s a = some t) : sid ∈ t.bus.peers := by
  obtain ⟨hb, hleave⟩ := hk
  obtain ⟨now, he⟩ | hbus := step_bus h
  · exact absurd he (hb now)
  rw [hbus]
  cases htr : s.transaction cfg fromStr a with
  | none => exact hin
  | some tr =>
    rw [htr, Option.all_some, ← clock_of_transaction h htr] at hleave
    rw [BusState.commit, BusState.mem_apply_peers]
    cases tr with
    | announce c sid' pid cwd intent node => exact Or.inl hin
    | disconnect c sid' =>
      refine ⟨hin, ?_⟩
      rintro ⟨ho, rfl⟩
      simp [leavesRecord, ho] at hleave
    | peers timeout =>
      obtain ⟨r, hr⟩ := Option.ne_none_iff_exists'.mp ((Table.mem_iff_lookup _ _).mp hin)
      refine ⟨r, hr, ?_⟩
      simpa [leavesRecord, BusState.lastHeard, hr] using hleave
    | _ => exact hin

theorem beats_fresh {heard : List (String × Nat)} (hf : Fresh s heard)
    (h : step cfg fromStr s a = some t) :
    Fresh t (heard ++ (beats fromStr s a).map Prod.snd) := by
  refine fresh_append hf h (fun sid n hn => ?_)
  obtain ⟨⟨c, sid', n'⟩, hm, he⟩ := List.mem_map.mp hn
  cases he
  cases a with
  | line d text now =>
    simp only [beats] at hm
    split at hm
    · rename_i tool skill prdSlug paths hreq
      split at hm
      · rename_i hacc
        cases List.mem_singleton.mp hm
        have ha : accepts fromStr s (.line c text n) = some sid := by
          simp only [accepts, hreq, hacc, if_true]
        refine ⟨(accepts_time ha h).symm, (refreshes_iff h).mpr ?_ sid t ha h⟩
        rintro c text' now' sid' msg n he hreq' hpas
        cases he
        rw [hreq] at hreq'
        cases hreq'
        cases hpas
      · cases hm
    · cases hm
  | _ => cases hm

theorem beats_run {file : DurableState} {log : List BroadcastMsg} {now : Nat} {as : List Action}
    (hr : run (step cfg fromStr) (start file log now) as = some s) :
    Fresh s ((trace (step cfg fromStr) (beats fromStr) (start file log now) as).map Prod.snd) := by
  have hI : Fresh s (([] ++ trace (step cfg fromStr) (beats fromStr) (start file log now) as).map
      Prod.snd) := by
    refine run_trace_invariant (I := fun u out => Fresh u (out.map Prod.snd)) ?_ (along_true _ _) hr
      (fun _ _ h => by cases h)
    intro u a v out hf _ hv
    rw [List.map_append]
    exact beats_fresh hf hv
  exact hI

theorem peers_reply {d timeout later : Nat} {text : String}
    (h : step cfg fromStr s (.line d text later) = some t)
    (htr : s.transaction cfg fromStr (.line d text later) = some (.peers timeout)) :
    ∃ k : Conn, t.conns[d]? = some k ∧ k.pending =
      [.write (.reply (.okWith (.array (t.bus.peers.values.map PeerRecord.toValue))))] := by
  obtain ⟨k, hk, _, rfl⟩ := step_line.mp h
  refine ⟨_, getElem?_set_conn hk _, ?_⟩
  cases transaction_section htr with
  | @message _ _ _ k₀ sid msg _ hk₀ hs hte hm hmt =>
    obtain rfl : k = k₀ := Option.some.inj (hk.symm.trans hk₀)
    cases msg with
    | peers =>
      simp only [takeLine, handleLine, hte, hm, hs]
      rfl
    | heartbeat tool skill prdSlug paths =>
      simp only [ClientMessage.transaction] at hmt
      split at hmt <;> cases hmt
    | _ => cases hmt

theorem lists_of_mem (hnamed : Named t) {d timeout later : Nat} {text sid : String}
    (h : step cfg fromStr s (.line d text later) = some t)
    (htr : s.transaction cfg fromStr (.line d text later) = some (.peers timeout))
    (hin : sid ∈ t.bus.peers) : Lists t d sid := by
  obtain ⟨k, hk, hp⟩ := peers_reply h htr
  obtain ⟨r, hr⟩ := Option.ne_none_iff_exists'.mp ((Table.mem_iff_lookup _ _).mp hin)
  refine ⟨k, _, hk, hp, List.mem_map.mpr ⟨r, ?_, hnamed sid r hr⟩⟩
  exact (Table.mem_values _ r).mpr ⟨sid, hr⟩

/-- A session is listed as long as a heartbeat of it has been taken within the timeout, whatever
the connections that share it do, up to the close of its owner: the connection that announced it
when no other had. -/
theorem listed_while_owned (cfg : Config) (fromStr : String → Option ClientMessage)
    (file : DurableState) (log : List BroadcastMsg) (now : Nat) (bs cs : List Action) (a : Action)
    (u v s t : Daemon) (c d e pid n later : Nat) (sid cwd intent text : String)
    (node : Option String)
    (hu : run (step cfg fromStr) (start file log now) bs = some u)
    (hv : step cfg fromStr u a = some v)
    (hs : run (step cfg fromStr) v cs = some s)
    (hann : u.transaction cfg fromStr a = some (.announce c sid pid cwd intent node))
    (hown : sid ∉ u.bus.peerOwners)
    (hleave : Along (step cfg fromStr) (LeavesRecord cfg fromStr sid) v cs)
    (ht : step cfg fromStr s (.line d text later) = some t)
    (hpeers : s.transaction cfg fromStr (.line d text later) =
      some (.peers cfg.heartbeatTimeoutSecs))
    (hbeat : (e, sid, n) ∈
      trace (step cfg fromStr) (beats fromStr) (start file log now) (bs ++ a :: cs))
    (hn : later - n ≤ cfg.heartbeatTimeoutSecs) : Lists t d sid := by
  have hrun : run (step cfg fromStr) (start file log now) (bs ++ a :: cs) = some s :=
    (run_append_eq_some _).mpr ⟨u, hu, (run_cons_eq_some _).mpr ⟨v, hv, hs⟩⟩
  have hvin : sid ∈ v.bus.peers := by
    rw [(step_bus hv).resolve_left (fun ⟨now, he⟩ => by simp [he, transaction] at hann), hann,
      BusState.commit, BusState.mem_apply_peers]
    exact Or.inr ⟨hown, rfl⟩
  have hsin : sid ∈ s.bus.peers :=
    run_along_invariant (I := fun w => sid ∈ w.bus.peers)
      (fun _ _ _ hin hl h => leavesRecord_step hl hin h) hleave hs hvin
  have hnamed : Named t := named_step
    (run_invariant (fun _ _ _ hs h => named_step hs h) hrun (fun _ _ h => by cases h)) ht
  refine lists_of_mem hnamed ht hpeers (leavesRecord_step ⟨(fun _ he => by cases he), ?_⟩ hsin ht)
  rw [hpeers, Option.all_some, leavesRecord, Option.all_eq_true]
  intro m hm
  have hle := ((beats_run hrun) sid n (List.mem_map.mpr ⟨_, hbeat, rfl⟩)).2 m hm
  refine decide_eq_true ?_
  change later - m ≤ cfg.heartbeatTimeoutSecs
  omega

def visibilityLines : String → Option ClientMessage :=
  decodeFrom [(announceLine "s1", .announce "s1" 7 "/" "" none),
    (heartbeatLine, .heartbeat "" none none none), (peersLine, .peers)]

def visibilityConfig : Config := ⟨60, 1024, 3000, false, "carbon"⟩

abbrev visibilityStep : Daemon → Action → Option Daemon := step visibilityConfig visibilityLines

abbrev visibilityStart : Daemon := start .default [] 0

def guestActions : List Action :=
  [.proceed 0 1 true, .line 1 (announceLine "s1") 2, .proceed 1 2 true, .line 1 heartbeatLine 50,
    .proceed 1 50 true]

theorem listed_while_owned_guest : ∃ s t,
    run visibilityStep visibilityStart
      ([.connect, .connect] ++ .line 0 (announceLine "s1") 1 :: guestActions) = some s ∧
    visibilityStep s (.line 1 peersLine 100) = some t ∧ Lists t 1 "s1" := by
  let bs : List Action := [.connect, .connect]
  let a : Action := .line 0 (announceLine "s1") 1
  let b : Action := .line 1 peersLine 100
  have hr : (run visibilityStep visibilityStart bs).bind (fun u => (visibilityStep u a).bind
      (fun v => (run visibilityStep v guestActions).bind (fun s => (visibilityStep s b).map
        (fun _ => (u.transaction visibilityConfig visibilityLines a,
          decide ("s1" ∈ u.bus.peerOwners),
          s.transaction visibilityConfig visibilityLines b))))) =
      some (some (.announce 0 "s1" 7 "/" "" none), false, some (.peers 60)) := by decide
  have hb : (1, "s1", 50) ∈ trace visibilityStep (beats visibilityLines) visibilityStart
      (bs ++ a :: guestActions) := by decide
  have hl : Along visibilityStep (fun s a => (s.transaction visibilityConfig visibilityLines a).all
      (leavesRecord s.bus a.time "s1") = true) visibilityStart (bs ++ a :: guestActions) := by
    decide
  obtain ⟨u, hu, hr⟩ := Option.bind_eq_some_iff.mp hr
  obtain ⟨v, hv, hr⟩ := Option.bind_eq_some_iff.mp hr
  obtain ⟨s, hs, hr⟩ := Option.bind_eq_some_iff.mp hr
  obtain ⟨t, ht, hr⟩ := Option.map_eq_some_iff.mp hr
  simp only [Prod.mk.injEq, decide_eq_false_iff_not] at hr
  obtain ⟨hann, hown, hpeers⟩ := hr
  refine ⟨s, t, ?_, ht, ?_⟩
  · exact (run_append_eq_some _).mpr ⟨u, hu, (run_cons_eq_some _).mpr ⟨v, hv, hs⟩⟩
  · refine listed_while_owned visibilityConfig visibilityLines .default [] 0 bs guestActions a u v
      s t 0 1 1 7 50 100 "s1" "/" "" _ none hu hv hs hann hown ?_ ht hpeers hb (by decide)
    refine along_and.mpr ⟨along_of_forall v (by simp [guestActions]), ?_⟩
    exact ((along_append.mp hl).2 u hu v hv).2

/-- The owner leaves, and the guest that goes on with its heartbeats is not listed any more. -/
theorem owner_close_hides_guest :
    ¬ ∀ (cfg : Config) (fromStr : String → Option ClientMessage) (as : List Action) (s t : Daemon)
      (c d n later : Nat) (k : Conn) (sid text : String),
      run (step cfg fromStr) (start .default [] 0) as = some s →
      s.conns[c]? = some k → k.status = .running → k.sessionId = some sid →
      (c, sid, n) ∈ trace (step cfg fromStr) (beats fromStr) (start .default [] 0) as →
      later - n ≤ cfg.heartbeatTimeoutSecs →
      step cfg fromStr s (.line d text later) = some t →
      s.transaction cfg fromStr (.line d text later) = some (.peers cfg.heartbeatTimeoutSecs) →
      Lists t d sid := by
  intro h
  let as : List Action := [.connect, .connect, .line 0 (announceLine "s1") 1, .proceed 0 1 true,
    .line 1 (announceLine "s1") 2, .proceed 1 2 true, .hangup 0, .proceed 0 3 true,
    .line 1 heartbeatLine 4, .proceed 1 4 true]
  let a : Action := .line 1 peersLine 5
  have hr : (run visibilityStep visibilityStart as).bind (fun s => (visibilityStep s a).map
      (fun t => (s.conns[1]?.map (fun k => (k.status, k.sessionId)),
        s.transaction visibilityConfig visibilityLines a, t.bus.peers.values.length))) =
      some (some (.running, some "s1"), some (.peers 60), 0) := by decide
  have hb : (1, "s1", 4) ∈ trace visibilityStep (beats visibilityLines) visibilityStart as := by
    decide
  obtain ⟨s, hs, hr⟩ := Option.bind_eq_some_iff.mp hr
  obtain ⟨t, ht, hr⟩ := Option.map_eq_some_iff.mp hr
  simp only [Prod.mk.injEq] at hr
  obtain ⟨hk, htr, hlen⟩ := hr
  obtain ⟨k, hk, he⟩ := Option.map_eq_some_iff.mp hk
  simp only [Prod.mk.injEq] at he
  obtain ⟨k', rs, hk', hp, hin⟩ := h visibilityConfig visibilityLines as s t 1 1 4 5 k "s1" _ hs hk
    he.1 he.2 hb (by decide) ht htr
  obtain ⟨k'', hk'', hp'⟩ := peers_reply ht htr
  obtain rfl : k' = k'' := Option.some.inj (hk'.symm.trans hk'')
  have hrs : rs.map PeerRecord.toValue = t.bus.peers.values.map PeerRecord.toValue := by
    simpa [Reply.okWith] using hp.symm.trans hp'
  have hnil : rs.length = 0 := by simpa [hlen] using congrArg List.length hrs
  rw [List.length_eq_zero_iff.mp hnil] at hin
  cases hin

end Agorabus.Visibility
