import Agorabus.ClaimTable
import Agorabus.Steps

namespace Agorabus.Attribution

open Agorabus Daemon StepSystem

variable {cfg : Config} {fromStr : String → Option ClientMessage} {s t : Daemon} {a : Action}

def ActsFor (sid : Option String) : Effect → Prop
  | .touch sid' => sid = some sid'
  | .signal => sid ≠ none
  | .broadcast m => m.fromUplink = false ∧ sid = some m.source
  | _ => True

def Attributed (s : Daemon) : Prop :=
  ∀ (c : Nat) (k : Conn), s.conns[c]? = some k → ∀ e ∈ k.pending, ActsFor k.sessionId e

theorem handleMessage_actsFor (cfg : Config) (k : Conn) (sid : String) (bus : BusState)
    (uplink : UplinkStatus) (sent now : Nat) (msg : ClientMessage) :
    (∀ e ∈ (handleMessage cfg k sid bus uplink sent now msg).conn.pending, ActsFor (some sid) e) ∧
      ∀ m ∈ (handleMessage cfg k sid bus uplink sent now msg).sent,
        m.fromUplink = false ∧ m.source = sid := by
  cases msg with
  | heartbeat tool skill prdSlug paths =>
    simp only [handleMessage]
    split
    · simp [answer, ActsFor]
    · split <;> simp [ActsFor]
  | claimAcquire path ttl reason force =>
    rw [handleMessage_claimAcquire]
    split
    · simp [answer, ActsFor]
    · rename_i evicted _
      cases evicted <;> simp [ActsFor, claimAcquireMsg, claimReleaseMsg]
  | claimRelease path =>
    simp only [handleMessage]
    split <;> simp [ActsFor, claimReleaseMsg]
  | _ => simp [handleMessage, answer, ActsFor]

theorem handleLine_actsFor {k : Conn} (hk : k.pending = []) (c : Nat) (bus : BusState)
    (uplink : UplinkStatus) (sent now : Nat) (line : String) :
    (∀ e ∈ (handleLine cfg fromStr k c bus uplink sent now line).conn.pending,
      ActsFor (handleLine cfg fromStr k c bus uplink sent now line).conn.sessionId e) ∧
      ∀ m ∈ (handleLine cfg fromStr k c bus uplink sent now line).sent,
        m.fromUplink = false ∧ k.sessionId = some m.source := by
  unfold handleLine
  split
  · simp [hk]
  · cases fromStr (trim line) with
    | none => simp [ActsFor]
    | some msg =>
      cases hs : k.sessionId with
      | none => cases msg <;> simp [handleFirst, answer, ActsFor]
      | some sid =>
        have h := handleMessage_actsFor cfg k sid bus uplink sent now msg
        have hconn := (handleMessage_conn cfg k bus uplink sent now sid msg).2.2
        dsimp only
        rw [hconn, hs]
        exact ⟨h.1, fun m hm => ⟨(h.2 m hm).1, congrArg some (h.2 m hm).2.symm⟩⟩

theorem attributed_step (hs : Attributed s) (h : step cfg fromStr s a = some t) :
    Attributed t := by
  refine pending_invariant (fun _ _ => trivial) (fun _ _ => trivial) (fun _ => trivial) ?_ hs h
  intro c k text now _ hi
  exact (handleLine_actsFor (Conn.idle_iff.mp hi).2 c _ _ _ now text).1

theorem attributed_run {file : DurableState} {log : List BroadcastMsg} {now : Nat}
    {as : List Action} (hr : run (step cfg fromStr) (start file log now) as = some s) :
    Attributed s :=
  run_invariant (fun _ _ _ hs h => attributed_step hs h) hr (fun _ _ hk => by cases hk)

/-- The step accepts an announce of the session as the first message of the connection. -/
def AcceptsAnnounce (fromStr : String → Option ClientMessage) (s : Daemon) (a : Action) (c : Nat)
    (sid : String) : Prop :=
  a.conn = some c ∧ ∃ pid cwd intent node,
    s.request fromStr a = some (none, .announce sid pid cwd intent node)

/-- A connection that has answered a first message that is no announce, and does nothing else
before it is closed. -/
def Closing (k : Conn) : Prop :=
  k.sessionId = none ∧ (k.status ≠ .running ∨ k.pending = [.bail] ∨
    ∃ r, k.pending = [.write (.reply r), .bail])

theorem unannounced_step (hs : Attributed s) (h : step cfg fromStr s a = some t) {c : Nat}
    {k : Conn} (hc : a.conn = some c) (hk : s.conns[c]? = some k) (hsid : k.sessionId = none) :
    t.log = s.log ∧ t.signals = s.signals ∧
      (t.bus = s.bus ∨ ∃ sid, AcceptsAnnounce fromStr s a c sid) := by
  cases a with
  | line d text now =>
    cases hc
    obtain ⟨k', hk', _, rfl⟩ := step_line.mp h
    obtain rfl : k = k' := Option.some.inj (hk.symm.trans hk')
    by_cases ht : (trim text).isEmpty
    · simp [takeLine, handleLine, ht]
    · cases hm : fromStr (trim text) with
      | none => simp [takeLine, handleLine, ht, hm]
      | some msg =>
        cases msg with
        | announce sid pid cwd intent node =>
          have hreq : s.request fromStr (.line c text now) =
              some (none, .announce sid pid cwd intent node) := by
            simp [request, hk, ht, hm, hsid]
          refine ⟨?_, ?_, Or.inr ⟨sid, rfl, pid, cwd, intent, node, hreq⟩⟩ <;>
            simp [takeLine, handleLine, ht, hm, hsid, handleFirst, answer]
        | _ => simp [takeLine, handleLine, ht, hm, hsid, handleFirst]
  | hangup d =>
    obtain ⟨k', _, _, rfl⟩ := step_hangup.mp h
    exact ⟨rfl, rfl, Or.inl rfl⟩
  | event d =>
    obtain ⟨k', rx, _, _, _, he⟩ := step_event.mp h
    obtain ⟨_, _, rfl, _⟩ := takeEvent_cases he
    exact ⟨rfl, rfl, Or.inl rfl⟩
  | drain d =>
    obtain ⟨k', _, _, _, rfl⟩ := step_drain.mp h
    exact ⟨rfl, rfl, Or.inl rfl⟩
  | proceed d now ok =>
    cases hc
    obtain ⟨k', e, es, hk', hp, _, rfl⟩ := step_proceed.mp h
    obtain rfl : k = k' := Option.some.inj (hk.symm.trans hk')
    have hact := hs c k hk e (by rw [hp]; exact List.mem_cons_self)
    rw [hsid] at hact
    -- an effect that acts for a session has none to act for
    cases e with
    | touch sid => cases hact
    | signal => exact absurd rfl hact
    | broadcast m => cases hact.2
    | write l => cases ok <;> exact ⟨rfl, rfl, Or.inl rfl⟩
    | writeNotice n => exact ⟨rfl, rfl, Or.inl rfl⟩
    | bail => exact ⟨rfl, rfl, Or.inl rfl⟩
    | cleanup => exact ⟨rfl, rfl, Or.inl (by simp [perform, hsid])⟩
  | abort d =>
    obtain ⟨k', _, _, _, rfl⟩ := step_abort.mp h
    exact ⟨rfl, rfl, Or.inl rfl⟩
  | _ => cases hc

theorem announced_step (h : step cfg fromStr s a = some t) {c : Nat} {k k' : Conn} {sid : String}
    (hk : s.conns[c]? = some k) (hk' : t.conns[c]? = some k') (hnone : k.sessionId = none)
    (hsome : k'.sessionId = some sid) : AcceptsAnnounce fromStr s a c sid := by
  obtain ⟨hn, _⟩ | ⟨k₀, hk₀, hst⟩ := conn_before h hk'
  · rw [hk] at hn
    cases hn
  obtain rfl : k = k₀ := Option.some.inj (hk.symm.trans hk₀)
  have changed (he : k'.sessionId = k.sessionId) : False := by
    rw [he, hnone] at hsome
    cases hsome
  cases hst with
  | @line text now hi =>
    refine ⟨rfl, ?_⟩
    by_cases ht : (trim text).isEmpty
    · simp [handleLine, ht, hnone] at hsome
    · cases hm : fromStr (trim text) with
      | none => simp [handleLine, ht, hm, hnone] at hsome
      | some msg =>
        cases msg with
        | announce sid' pid cwd intent node =>
          have hsid : sid' = sid := by
            simpa [handleLine, ht, hm, hnone, handleFirst, answer] using hsome
          refine ⟨pid, cwd, intent, node, ?_⟩
          simp [request, hk, ht, hm, hnone, hsid]
        | _ => simp [handleLine, ht, hm, hnone, handleFirst] at hsome
  | proceed hp hr => exact (changed (performed_sessionId ..)).elim
  | _ => exact (changed rfl).elim

theorem claimant_announced {sid path reason : String} {ttl : Nat} {force : Bool}
    (h : s.transaction cfg fromStr a = some (.claimAcquire sid path ttl reason force)) :
    ∃ (c : Nat) (k : Conn), a.conn = some c ∧ s.conns[c]? = some k ∧ k.sessionId = some sid := by
  cases transaction_section h with
  | @message c now text k sid' msg _ hk hs _ _ htr =>
    obtain ⟨rfl, _⟩ := ClientMessage.transaction_claimAcquire htr
    exact ⟨c, k, rfl, hk, hs⟩

theorem intent_announced {sid : String} {tr : Transaction}
    (h : s.transaction cfg fromStr a = some tr) (hi : tr.intentSid = some sid) :
    ∃ (c : Nat) (k : Conn), a.conn = some c ∧ s.conns[c]? = some k ∧ k.sessionId = some sid := by
  cases transaction_section h with
  | @message c now text k sid' msg _ hk hs _ _ htr =>
    refine ⟨c, k, rfl, hk, ?_⟩
    cases msg with
    | heartbeat tool skill prdSlug paths =>
      simp only [ClientMessage.transaction] at htr
      split at htr
      · cases htr
      · cases htr
        cases hi
        exact hs
    | _ => cases htr <;> cases hi
  | _ => cases hi

theorem messages_step (hs : Attributed s) (h : step cfg fromStr s a = some t) {c : Nat}
    (hc : a.conn = some c) {m : BroadcastMsg} (hm : m ∈ s.sends cfg fromStr a) :
    m.fromUplink = false ∧ ∃ k : Conn, s.conns[c]? = some k ∧ k.sessionId = some m.source := by
  cases a with
  | line d text now =>
    cases hc
    obtain ⟨k, hk, ⟨hi, _⟩, _⟩ := step_line.mp h
    simp only [sends, hk] at hm
    have hact := (handleLine_actsFor (Conn.idle_iff.mp hi).2 c _ _ _ now text).2 m hm
    exact ⟨hact.1, k, hk, hact.2⟩
  | proceed d now ok =>
    cases hc
    obtain ⟨k, e, es, hk, hp, _, _⟩ := step_proceed.mp h
    have hact := hs c k hk e (by rw [hp]; exact List.mem_cons_self)
    simp only [sends, hk, hp] at hm
    cases e with
    | broadcast m' =>
      obtain rfl := List.mem_singleton.mp hm
      exact ⟨hact.1, k, hk, hact.2⟩
    | _ => cases hm
  | uplinkInbound topic data origin => cases hc
  | presenceSend now => cases hc
  | _ => cases hm

def acquired (cfg : Config) (fromStr : String → Option ClientMessage) (s : Daemon) (a : Action) :
    List ClaimRecord :=
  match s.transaction cfg fromStr a with
  | some (.claimAcquire sid path ttl reason force) =>
      if s.bus.grants a.time sid path force then [⟨path, sid, ttl, a.time, reason⟩] else []
  | _ => []

theorem claims_step (h : step cfg fromStr s a = some t) {p : String} {r : ClaimRecord}
    (hr : t.bus.claims.lookup p = some r) :
    s.bus.claims.lookup p = some r ∨
      (∃ now, a = .boot now ∧ s.file.claims.lookup p = some r) ∨
      r ∈ acquired cfg fromStr s a ∧ r.path = p := by
  obtain ⟨now, rfl⟩ | hbus := step_bus h
  · obtain ⟨_, _, rfl⟩ := step_boot.mp h
    refine Or.inr (Or.inl ⟨now, rfl, ?_⟩)
    have hp : liveClaim s.file.claims now p = some r := (lookup_prune _ now p).symm.trans hr
    exact (liveClaim_eq_some.mp hp).1
  rw [hbus] at hr
  cases htr : s.transaction cfg fromStr a with
  | none =>
    rw [htr] at hr
    exact Or.inl hr
  | some tr =>
    rw [htr] at hr
    have htime := clock_of_transaction h htr
    obtain hr | ⟨sid, ttl, reason, force, rfl, hg, rfl⟩ := lookup_apply_claims hr
    · exact Or.inl hr
    · rw [htime] at hg
      exact Or.inr (Or.inr ⟨by simp [acquired, htr, hg, htime], rfl⟩)

theorem acquired_announced {r : ClaimRecord} (hr : r ∈ acquired cfg fromStr s a) :
    ∃ (c : Nat) (k : Conn), a.conn = some c ∧ s.conns[c]? = some k ∧
      k.sessionId = some r.sessionId := by
  unfold acquired at hr
  split at hr
  · rename_i sid path ttl reason force htr
    split at hr
    · rw [List.mem_singleton.mp hr]
      exact claimant_announced htr
    · cases hr
  · cases hr

structure Attributes (cfg : Config) (fromStr : String → Option ClientMessage) (s : Daemon)
    (a : Action) (t : Daemon) : Prop where
  announceFirst : ∀ (c : Nat) (k : Conn), a.conn = some c → s.conns[c]? = some k →
    k.sessionId = none → t.log = s.log ∧ t.signals = s.signals ∧
      (t.bus = s.bus ∨ ∃ sid, AcceptsAnnounce fromStr s a c sid)
  session : ∀ (c : Nat) (k : Conn) sid, s.conns[c]? = some k → k.sessionId = some sid →
    (∀ now, a ≠ .boot now) → ∃ k' : Conn, t.conns[c]? = some k' ∧ k'.sessionId = some sid
  claims : ∀ p r, t.bus.claims.lookup p = some r → s.bus.claims.lookup p = some r ∨
    (∃ now, a = .boot now ∧ s.file.claims.lookup p = some r) ∨
    r ∈ acquired cfg fromStr s a ∧ r.path = p
  holders : ∀ r ∈ acquired cfg fromStr s a, ∃ (c : Nat) (k : Conn), a.conn = some c ∧
    s.conns[c]? = some k ∧ k.sessionId = some r.sessionId
  intents : ∀ sid i, t.bus.intents.lookup sid = some i → s.bus.intents.lookup sid = some i ∨
    (∃ now, a = .boot now ∧ s.file.intents.lookup sid = some i) ∨
    ∃ (c : Nat) (k : Conn), a.conn = some c ∧ s.conns[c]? = some k ∧ k.sessionId = some sid
  messages : ∃ ms, t.log = s.log ++ ms ∧ ∀ c, a.conn = some c → ∀ m ∈ ms,
    m.fromUplink = false ∧ ∃ k : Conn, s.conns[c]? = some k ∧ k.sessionId = some m.source

theorem attributes_step (hs : Attributed s) (h : step cfg fromStr s a = some t) :
    Attributes cfg fromStr s a t where
  announceFirst _ _ hc hk hnone := unannounced_step hs h hc hk hnone
  session _ _ _ hk hsid hb := session_kept h hb hk hsid
  claims _ _ hr := claims_step h hr
  holders _ hr := acquired_announced hr
  intents sid i hi := by
    obtain ⟨now, rfl⟩ | hbus := step_bus h
    · obtain ⟨_, _, rfl⟩ := step_boot.mp h
      exact Or.inr (Or.inl ⟨now, rfl, hi⟩)
    rw [hbus] at hi
    cases htr : s.transaction cfg fromStr a with
    | none =>
      rw [htr] at hi
      exact Or.inl hi
    | some tr =>
      rw [htr] at hi
      by_cases hsid : tr.intentSid = some sid
      · exact Or.inr (Or.inr (intent_announced htr hsid))
      · refine Or.inl ?_
        rw [← hi]
        exact (intents_apply_unchanged (fun he => absurd he hsid)).symm
  messages := ⟨_, step_log h, fun _ hc _ hm => messages_step hs h hc hm⟩

theorem session_announced {file : DurableState} {log : List BroadcastMsg} {now : Nat}
    {as : List Action} (hr : run (step cfg fromStr) (start file log now) as = some s) {c : Nat}
    {k : Conn} {sid : String} (hk : s.conns[c]? = some k) (hsid : k.sessionId = some sid) :
    ∃ bs a cs u, as = bs ++ a :: cs ∧ run (step cfg fromStr) (start file log now) bs = some u ∧
      AcceptsAnnounce fromStr u a c sid ∧ ∀ b ∈ cs, ∀ now, b ≠ .boot now := by
  induction as using List.reverseRecOn generalizing s k with
  | nil =>
    cases hr
    cases hk
  | append_singleton as a ih =>
    obtain ⟨u, hu, hr⟩ := (run_append_eq_some _).mp hr
    obtain ⟨v, hv, hr⟩ := (run_cons_eq_some _).mp hr
    cases hr
    by_cases hb : ∃ now, a = .boot now
    · obtain ⟨now, rfl⟩ := hb
      obtain ⟨_, _, rfl⟩ := step_boot.mp hv
      cases hk
    -- the session was there before the last step, or that step is the announce
    have before {k₀ : Conn} (hk₀ : u.conns[c]? = some k₀) (hsid₀ : k₀.sessionId = some sid) :
        ∃ bs b cs w, as ++ [a] = bs ++ b :: cs ∧
          run (step cfg fromStr) (start file log now) bs = some w ∧
          AcceptsAnnounce fromStr w b c sid ∧ ∀ b ∈ cs, ∀ now, b ≠ .boot now := by
      obtain ⟨bs, b, cs, w, rfl, hw, hacc, hcs⟩ := ih hu hk₀ hsid₀
      refine ⟨bs, b, cs ++ [a], w, by simp, hw, hacc, fun x hx now he => ?_⟩
      obtain hx | hx := List.mem_append.mp hx
      · exact hcs x hx now he
      · exact hb ⟨now, (List.mem_singleton.mp hx).symm.trans he⟩
    obtain ⟨_, rfl⟩ | ⟨k₀, hk₀, _⟩ := conn_before hv hk
    · cases hsid
    cases hsid₀ : k₀.sessionId with
    | none => exact ⟨as, a, [], u, rfl, hu, announced_step hv hk₀ hk hsid₀ hsid, nofun⟩
    | some sid₀ =>
      obtain ⟨k₁, hk₁, hsid₁⟩ := session_kept hv (fun now he => hb ⟨now, he⟩) hk₀ hsid₀
      obtain rfl : k₁ = k := Option.some.inj (hk₁.symm.trans hk)
      obtain rfl : sid₀ = sid := Option.some.inj (hsid₁.symm.trans hsid)
      exact before hk₀ hsid₀

theorem closing_of_line {c now : Nat} {text : String} {k : Conn} (hk : s.conns[c]? = some k)
    (hsid : k.sessionId = none) (ht : (trim text).isEmpty = false)
    (hm : ∀ sid pid cwd intent node,
      fromStr (trim text) ≠ some (.announce sid pid cwd intent node))
    (h : step cfg fromStr s (.line c text now) = some t) :
    t.bus = s.bus ∧ ∃ k' : Conn, t.conns[c]? = some k' ∧ Closing k' := by
  obtain ⟨k', hk', _, rfl⟩ := step_line.mp h
  obtain rfl : k = k' := Option.some.inj (hk.symm.trans hk')
  cases hmsg : fromStr (trim text) with
  | none =>
    refine ⟨by simp [takeLine, handleLine, ht, hmsg], _, getElem?_set_conn hk _, ?_, ?_⟩
    · simp [handleLine, ht, hmsg, hsid]
    · simp [handleLine, ht, hmsg]
  | some msg =>
    cases msg with
    | announce sid pid cwd intent node => exact absurd hmsg (hm sid pid cwd intent node)
    | _ =>
      refine ⟨by simp [takeLine, handleLine, ht, hmsg, hsid, handleFirst], _,
        getElem?_set_conn hk _, ?_, ?_⟩
      · simp [handleLine, ht, hmsg, hsid, handleFirst]
      · simp [handleLine, ht, hmsg, hsid, handleFirst]

theorem closing_step {c : Nat} {k : Conn} (hk : s.conns[c]? = some k) (hcl : Closing k)
    (h : step cfg fromStr s a = some t) (hb : ∀ now, a ≠ .boot now) :
    (∃ k' : Conn, t.conns[c]? = some k' ∧ Closing k') ∧
      (a.conn = some c → t.bus = s.bus ∧ t.log = s.log ∧ t.signals = s.signals) := by
  by_cases hc : a.conn = some c
  · obtain ⟨k₀, _, hk₀, _, hrun, _⟩ := step_conn_self h hc
    obtain rfl : k = k₀ := Option.some.inj (hk.symm.trans hk₀)
    have hpend : k.pending = [.bail] ∨ ∃ r, k.pending = [.write (.reply r), .bail] :=
      hcl.2.resolve_left (fun hne => hne hrun)
    have hbusy : k.idle = false := by
      obtain hp | ⟨r, hp⟩ := hpend <;> simp [Conn.idle, hp]
    have idle {k' : Conn} (hk' : s.conns[c]? = some k') (hi : k'.idle = true) : False := by
      obtain rfl : k = k' := Option.some.inj (hk.symm.trans hk')
      rw [hbusy] at hi
      cases hi
    cases a with
    | line d text now =>
      cases hc
      obtain ⟨k', hk', ⟨hi, _⟩, _⟩ := step_line.mp h
      exact (idle hk' hi).elim
    | hangup d =>
      cases hc
      obtain ⟨k', hk', hi, _⟩ := step_hangup.mp h
      exact (idle hk' hi).elim
    | event d =>
      cases hc
      obtain ⟨k', rx, hk', _, hi, _⟩ := step_event.mp h
      exact (idle hk' hi).elim
    | drain d =>
      cases hc
      obtain ⟨k', hk', _, hi, _⟩ := step_drain.mp h
      exact (idle hk' hi).elim
    | proceed d now ok =>
      cases hc
      obtain ⟨k', e, es, hk', hp, _, rfl⟩ := step_proceed.mp h
      obtain rfl : k = k' := Option.some.inj (hk.symm.trans hk')
      rw [perform_conns]
      obtain hpe | ⟨r, hpe⟩ := hpend
      · obtain ⟨rfl, rfl⟩ := List.cons.inj (hp.symm.trans hpe)
        refine ⟨⟨_, getElem?_set_conn hk _, hcl.1, Or.inl ?_⟩, fun _ => ⟨rfl, rfl, rfl⟩⟩
        exact fun h => by cases h
      · obtain ⟨rfl, rfl⟩ := List.cons.inj (hp.symm.trans hpe)
        cases ok with
        | true =>
          refine ⟨⟨_, getElem?_set_conn hk _, hcl.1, Or.inr (Or.inl rfl)⟩,
            fun _ => ⟨rfl, rfl, rfl⟩⟩
        | false =>
          refine ⟨⟨_, getElem?_set_conn hk _, hcl.1, Or.inl ?_⟩, fun _ => ⟨rfl, rfl, rfl⟩⟩
          exact fun h => by cases h
    | abort d =>
      cases hc
      obtain ⟨k', hk', _, _, rfl⟩ := step_abort.mp h
      obtain rfl : k = k' := Option.some.inj (hk.symm.trans hk')
      refine ⟨⟨_, getElem?_set_conn hk _, hcl.1, Or.inl ?_⟩, fun _ => ⟨rfl, rfl, rfl⟩⟩
      exact fun h => by cases h
    | _ => cases hc
  · exact ⟨⟨k, conn_kept h hb hc hk, hcl⟩, fun he => absurd he hc⟩

theorem closing_run {c : Nat} {as : List Action} (hb : ∀ a ∈ as, ∀ now, a ≠ .boot now)
    (hs : ∃ k : Conn, s.conns[c]? = some k ∧ Closing k)
    (hr : run (step cfg fromStr) s as = some t) :
    ∃ k : Conn, t.conns[c]? = some k ∧ Closing k := by
  refine run_along_invariant (I := fun u => ∃ k : Conn, u.conns[c]? = some k ∧ Closing k)
    (P := fun _ a => ∀ now, a ≠ .boot now) ?_ (along_of_forall s hb) hr hs
  rintro u a v ⟨k, hk, hcl⟩ hb hv
  exact (closing_step hk hcl hv hb).1

/-- The claims a daemon has somewhere: in its table, in its journal or in a snapshot on the way
from one to the other. -/
inductive Held (s : Daemon) (p : String) (r : ClaimRecord) : Prop
  | table (hr : s.bus.claims.lookup p = some r)
  | journal (hr : s.file.claims.lookup p = some r)
  | saving (d : DurableState) (hd : s.persist = .saving d) (hr : d.claims.lookup p = some r)
  | flushing (d : DurableState) (hd : s.main = .flushing d) (hr : d.claims.lookup p = some r)

theorem held_step (h : step cfg fromStr s a = some t) {p : String} {r : ClaimRecord}
    (hr : Held t p r) : Held s p r ∨ (r ∈ acquired cfg fromStr s a ∧ r.path = p) := by
  obtain ⟨hfile, hsaving, hflushing⟩ := snapshot_step h
  cases hr with
  | table hr =>
    obtain hr | ⟨now, rfl, hr⟩ | hr := claims_step h hr
    · exact Or.inl (.table hr)
    · exact Or.inl (.journal hr)
    · exact Or.inr hr
  | journal hr =>
    obtain hf | hd | hd := hfile
    · exact Or.inl (.journal (hf ▸ hr))
    · exact Or.inl (.saving _ hd hr)
    · exact Or.inl (.flushing _ hd hr)
  | saving d hd hr =>
    obtain hd | rfl := hsaving d hd
    · exact Or.inl (.saving d hd hr)
    · exact Or.inl (.table hr)
  | flushing d hd hr =>
    obtain hd | rfl := hflushing d hd
    · exact Or.inl (.flushing d hd hr)
    · exact Or.inl (.table hr)

theorem held_run {file : DurableState} {log : List BroadcastMsg} {now : Nat} {as : List Action}
    (hr : run (step cfg fromStr) (start file log now) as = some s) {p : String} {r : ClaimRecord}
    (hp : Held s p r) : file.claims.lookup p = some r ∨
      r ∈ trace (step cfg fromStr) (acquired cfg fromStr) (start file log now) as ∧ r.path = p := by
  revert p r
  rw [← List.nil_append (trace _ _ _ _)]
  refine run_trace_invariant
    (I := fun u out => ∀ {p r}, Held u p r → file.claims.lookup p = some r ∨ r ∈ out ∧ r.path = p)
    ?_ (along_true _ _) hr ?_
  · intro u a v out hu _ hv p r hp
    obtain hp | ⟨ha, hp⟩ := held_step hv hp
    · exact (hu hp).imp_right (fun h => ⟨List.mem_append_left _ h.1, h.2⟩)
    · exact Or.inr ⟨List.mem_append_right _ ha, hp⟩
  · intro p r hp
    cases hp with
    | table hp =>
      have hl : liveClaim file.claims now p = some r := (lookup_prune _ now p).symm.trans hp
      exact Or.inl (liveClaim_eq_some.mp hl).1
    | journal hp => exact Or.inl hp
    | saving d hd => cases hd
    | flushing d hd => cases hd

theorem bail_ends {c now : Nat} {k : Conn} (hk : s.conns[c]? = some k) (hp : k.pending = [.bail])
    (hrun : k.status = .running) (hn : s.clock ≤ now) :
    ∃ t k', run (step cfg fromStr) s [.proceed c now true] = some t ∧
      t.conns[c]? = some k' ∧ k'.status = .returned := by
  have hstep : step cfg fromStr s (.proceed c now true) = some _ :=
    step_proceed.mpr ⟨k, .bail, [], hk, hp, ⟨hrun, hn⟩, rfl⟩
  exact ⟨_, { k with status := .returned, pending := [] },
    (run_cons_eq_some _).mpr ⟨_, hstep, rfl⟩, getElem?_set_conn hk _, rfl⟩

theorem closing_ends {c : Nat} {k : Conn} (hk : s.conns[c]? = some k) (hcl : Closing k)
    (hrun : k.status = .running) :
    ∃ t k', run (step cfg fromStr) s
        (List.replicate k.pending.length (.proceed c s.clock true)) = some t ∧
      t.conns[c]? = some k' ∧ k'.status = .returned := by
  obtain hne | hp | ⟨r, hp⟩ := hcl.2
  · exact absurd hrun hne
  · rw [hp]
    exact bail_ends hk hp hrun (Nat.le_refl _)
  · let k₁ : Conn := { k with pending := [.bail], written := k.written ++ [.reply r] }
    have hstep : step cfg fromStr s (.proceed c s.clock true) = some (s.setConn c k₁) :=
      step_proceed.mpr ⟨k, _, _, hk, hp, ⟨hrun, Nat.le_refl _⟩, rfl⟩
    have hk₁ : (s.setConn c k₁).conns[c]? = some k₁ := getElem?_set_conn hk _
    obtain ⟨t, k', ht, hk', hr⟩ := bail_ends hk₁ rfl hrun (Nat.le_refl s.clock)
    rw [hp]
    exact ⟨t, k', (run_cons_eq_some _).mpr ⟨_, hstep, ht⟩, hk', hr⟩

/-- Whatever a connection does to the bus it does as the session it has announced, and a connection
that does not begin with an announce is closed and does nothing; so every claim in the table was in
the journal or has been acquired by a connection announced as its holder. -/
theorem attribution (cfg : Config) (fromStr : String → Option ClientMessage) (file : DurableState)
    (log : List BroadcastMsg) (now : Nat) (as : List Action) (s : Daemon)
    (hr : run (step cfg fromStr) (start file log now) as = some s) :
    (∀ a t, step cfg fromStr s a = some t → Attributes cfg fromStr s a t) ∧
    (∀ (c : Nat) (k : Conn) sid, s.conns[c]? = some k → k.sessionId = some sid →
      ∃ bs a cs u, as = bs ++ a :: cs ∧ run (step cfg fromStr) (start file log now) bs = some u ∧
        AcceptsAnnounce fromStr u a c sid ∧ ∀ b ∈ cs, ∀ now, b ≠ .boot now) ∧
    (∀ (c now : Nat) (k : Conn) text t, s.conns[c]? = some k → k.sessionId = none →
      (trim text).isEmpty = false →
      (∀ sid pid cwd intent node,
        fromStr (trim text) ≠ some (.announce sid pid cwd intent node)) →
      step cfg fromStr s (.line c text now) = some t →
      t.bus = s.bus ∧ ∀ bs u, (∀ b ∈ bs, ∀ now, b ≠ .boot now) →
        run (step cfg fromStr) t bs = some u →
        (∀ a v, a.conn = some c → step cfg fromStr u a = some v →
          v.bus = u.bus ∧ v.log = u.log ∧ v.signals = u.signals) ∧
        ∃ k' : Conn, u.conns[c]? = some k' ∧ k'.sessionId = none ∧ (k'.status = .running →
          ∃ v k'', run (step cfg fromStr) u
            (List.replicate k'.pending.length (.proceed c u.clock true)) = some v ∧
            v.conns[c]? = some k'' ∧ k''.status = .returned)) ∧
    ∀ p r, s.bus.claims.lookup p = some r → file.claims.lookup p = some r ∨
      ∃ bs a cs u c k, as = bs ++ a :: cs ∧
        run (step cfg fromStr) (start file log now) bs = some u ∧ a.conn = some c ∧
        u.conns[c]? = some k ∧ k.sessionId = some r.sessionId ∧
        r ∈ acquired cfg fromStr u a ∧ r.path = p := by
  refine ⟨fun a t h => attributes_step (attributed_run hr) h,
    fun c k sid hk hsid => session_announced hr hk hsid, ?_, ?_⟩
  · intro c now k text t hk hsid ht hm h
    obtain ⟨hbus, hcl⟩ := closing_of_line hk hsid ht hm h
    refine ⟨hbus, fun bs u hb hu => ?_⟩
    obtain ⟨k', hk', hcl'⟩ := closing_run hb hcl hu
    refine ⟨fun a v hc hv => ?_, k', hk', hcl'.1, closing_ends hk' hcl'⟩
    refine (closing_step hk' hcl' hv (fun now he => ?_)).2 hc
    rw [he] at hc
    cases hc
  · intro p r hp
    obtain hf | ⟨hin, hpath⟩ := held_run hr (.table hp)
    · exact Or.inl hf
    · obtain ⟨bs, a, cs, u, _, has, hu, _, ha⟩ := mem_trace hin
      obtain ⟨c, k, hc, hk, hsid⟩ := acquired_announced ha
      exact Or.inr ⟨bs, a, cs, u, c, k, has, hu, hc, hk, hsid, ha, hpath⟩

def attributionLines : String → Option ClientMessage :=
  decodeFrom [(announceLine "s2", .announce "s2" 7 "/" "" none),
    (forceLine, .claimAcquire "/x" 100 "" true)]

def attributionConfig : Config := ⟨60, 1024, 3000, false, "carbon"⟩

def attributionFile : DurableState :=
  ⟨(∅ : Table String ClaimRecord).insert "/x" ⟨"/x", "s1", 100, 1, ""⟩, ∅⟩

def attributionActions : List Action :=
  [.connect, .line 0 (announceLine "s2") 2, .proceed 0 2 true, .line 0 forceLine 3]

theorem attribution_force :
    ∃ s r, run (step attributionConfig attributionLines) (start attributionFile [] 1)
        attributionActions = some s ∧ s.bus.claims.lookup "/x" = some r ∧ r.sessionId = "s2" ∧
      ∃ bs a cs u c k, attributionActions = bs ++ a :: cs ∧
        run (step attributionConfig attributionLines) (start attributionFile [] 1) bs = some u ∧
        a.conn = some c ∧ u.conns[c]? = some k ∧ k.sessionId = some "s2" ∧
        r ∈ acquired attributionConfig attributionLines u a := by
  have hs : (run (step attributionConfig attributionLines) (start attributionFile [] 1)
      attributionActions).map (fun s => s.bus.claims.lookup "/x") =
      some (some ⟨"/x", "s2", 100, 3, ""⟩) := by decide
  obtain ⟨s, hs, hx⟩ := Option.map_eq_some_iff.mp hs
  refine ⟨s, _, hs, hx, rfl, ?_⟩
  obtain hf | ⟨bs, a, cs, u, c, k, has, hu, hc, hk, hsid, ha, _⟩ :=
    (attribution _ _ _ _ _ _ s hs).2.2.2 "/x" _ hx
  · exact absurd hf (by decide)
  · exact ⟨bs, a, cs, u, c, k, has, hu, hc, hk, hsid, ha⟩

end Agorabus.Attribution
