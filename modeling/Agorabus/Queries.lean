import Agorabus.FleetView
import Agorabus.WireDaemon

namespace Agorabus

open Daemon StepSystem
open Subscriber (unwritten)
open Json (asStr? asVec?)

def UplinkStatus.fromJson (v : Json) : Option UplinkStatus := do
  let (state, content) ← v.tagged "state"
  match state with
  | "disabled" => return disabled
  | "connected" =>
    let [url] ← content.fieldsOf ["url"] | none
    return connected (← (← url).asStr?)
  | "reconnecting" =>
    let [error] ← content.fieldsOf ["error"] | none
    return reconnecting (← (← error).asStr?)
  | _ => none

def Reply.fromStr (text : String) : Option Reply := (Json.parse text).bind fromJson

namespace Client

/-- What a query makes of its reply. The payload `missing` stands for one that is left out. -/
def queried {α : Type} (query payload : String) (missing : Json) (read : Json → Option α)
    (r : Reply) : Except String α :=
  if r.ok then
    match read (r.data.getD missing) with
    | some a => .ok a
    | none => .error ("decoding " ++ payload)
  else .error (query ++ " query failed: " ++ r.error.getD "(no error tag)")

def peers : Reply → Except String (List PeerRecord) :=
  queried "peers" "peers payload" (.array []) (asVec? PeerRecord.fromJson)

def claimList : Reply → Except String (List ClaimRecord) :=
  queried "claim_list" "claim_list payload" (.array []) (asVec? ClaimRecord.fromJson)

def uplinkStatus : Reply → Except String UplinkStatus :=
  queried "uplink_status" "uplink status payload" .null UplinkStatus.fromJson

end Client

theorem UplinkStatus.fromJson_toValue (u : UplinkStatus) : fromJson u.toValue = some u := by
  cases u <;> rfl

theorem Reply.fromStr_text {r : Reply} (h : (OutLine.reply r).Fits) :
    fromStr (OutLine.reply r).text = some r := by
  rw [fromStr, OutLine.text, (OutLine.writes_toJson h).parse_text (by decide), Option.bind_some]
  exact fromJson_toJson (fun v hv => ⟨(h v hv).1.ordered, (h v hv).2⟩)

namespace Client

variable {α : Type} {query payload : String} {missing : Json} {read : Json → Option α}

theorem queried_okWith {v : Json} {a : α} (h : read v = some a) :
    queried query payload missing read (.okWith v) = .ok a := by
  rw [queried, Reply.okWith, if_pos rfl, Option.getD_some, h]

theorem peers_ok {ps : List PeerRecord} (h : ∀ p ∈ ps, p.Fits) :
    peers (.okWith (.array (ps.map PeerRecord.toValue))) = .ok ps :=
  queried_okWith (Json.mapM_map (fun p hp => PeerRecord.fromJson_toValue (h p hp)))

theorem claimList_ok {cs : List ClaimRecord} (h : ∀ c ∈ cs, c.Fits) :
    claimList (.okWith (.array (cs.map ClaimRecord.toValue))) = .ok cs :=
  queried_okWith (Json.mapM_map (fun c hc => ClaimRecord.fromJson_toValue (h c hc)))

end Client

namespace Daemon

variable {cfg : Config} {s t : Daemon} {c time : Nat} {text : String} {o : Option String}
  {msg : ClientMessage}

theorem answer_eq {fromStr : String → Option ClientMessage}
    (h : step cfg fromStr s (.line c text time) = some t)
    (hreq : s.request fromStr (.line c text time) = some (o, msg)) :
    ∃ k r, s.conns[c]? = some k ∧ s.answer cfg fromStr (.line c text time) = some r ∧
      unwritten (handleLine cfg fromStr k c s.bus s.uplinkStatus s.log.length time
        text).conn.pending = [.reply r] ∧
      handleLine cfg fromStr k c s.bus s.uplinkStatus s.log.length time text =
        o.elim (handleFirst k c s.bus time msg) (fun sid => handleMessage cfg k sid s.bus
          s.uplinkStatus s.log.length time msg) := by
  obtain ⟨k, hk, _, _, hline, _⟩ := step_request h hreq
  have htrim : (trim text).isEmpty = false := by
    by_contra hblank
    rw [Bool.not_eq_false] at hblank
    simp [request, hk, hblank] at hreq
  obtain ⟨⟨r, hr⟩, _⟩ := handleLine_answers cfg fromStr k c s.bus s.uplinkStatus s.log.length time
    htrim
  refine ⟨k, r, hk, ?_, hr, hline⟩
  simp only [Daemon.answer, hk, Option.bind_eq_bind, Option.bind_some, hr]
  rfl

theorem mem_values_retain {α : Type} {m : Table String α} {keep : α → Bool} {a : α} :
    a ∈ (Table.retain (fun _ v => keep v) m).values ↔ ∃ k, m.lookup k = some a ∧ keep a = true := by
  rw [Table.mem_values]
  refine exists_congr (fun k => ?_)
  rw [Table.lookup_retain, Option.filter_eq_some_iff]

section query

variable {fromStr : String → Option ClientMessage} {sid : String} {r : Reply}
  (h : step cfg fromStr s (.line c text time) = some t)
  (hanswer : s.answer cfg fromStr (.line c text time) = some r)

include h hanswer

theorem peers_answered (hs : s.bus.Fits) (hn : FleetView.Named s)
    (hreq : s.request fromStr (.line c text time) = some (some sid, .peers)) :
    ∃ ps, Client.peers r = .ok ps ∧ (∀ p ∈ ps, p.Fits) ∧ (ps.map PeerRecord.sessionId).Nodup ∧
      ∀ p, p ∈ ps ↔ ∃ j, s.bus.peers.lookup j = some p ∧
        time - p.lastHeartbeatUnixSecs ≤ cfg.heartbeatTimeoutSecs := by
  obtain ⟨k, r', hk, hr, hone, hline⟩ := answer_eq h hreq
  obtain rfl : r = r' := Option.some.inj (hanswer.symm.trans hr)
  rw [hline] at hone
  cases hone
  have hfits := hs.peers.retain
    (fun _ p => decide (time - p.lastHeartbeatUnixSecs ≤ cfg.heartbeatTimeoutSecs))
  have hps : ∀ p ∈ (s.bus.prunePeers cfg.heartbeatTimeoutSecs time).peers.values, p.Fits :=
    fun p hp => (hfits.values p hp).fits
  refine ⟨_, Client.peers_ok hps, hps, ?_, fun p => ?_⟩
  · refine Table.nodup_map_values (fun j p hp => ?_)
    rw [BusState.prunePeers, Table.lookup_retain] at hp
    exact hn j p (Option.filter_eq_some_iff.mp hp).1
  · rw [← decide_eq_true_iff (p := time - p.lastHeartbeatUnixSecs ≤ cfg.heartbeatTimeoutSecs)]
    exact mem_values_retain

theorem claims_answered (hs : s.bus.Fits)
    (hreq : s.request fromStr (.line c text time) = some (some sid, .claimList)) :
    ∃ cs, Client.claimList r = .ok cs ∧ (∀ claim ∈ cs, claim.Fits) ∧
      ∀ claim, claim ∈ cs ↔ ∃ path, s.bus.claims.lookup path = some claim ∧
        time < claim.ttlUnixSecs := by
  obtain ⟨k, r', hk, hr, hone, hline⟩ := answer_eq h hreq
  obtain rfl : r = r' := Option.some.inj (hanswer.symm.trans hr)
  rw [hline] at hone
  cases hone
  have hcs := (hs.claims.retain (fun _ claim => decide (time < claim.ttlUnixSecs))).values
  refine ⟨_, Client.claimList_ok hcs, hcs, fun claim => ?_⟩
  rw [← decide_eq_true_iff (p := time < claim.ttlUnixSecs)]
  exact mem_values_retain

end query

/-- A query of an announced session gets what the bus holds at that moment, through the text of
the reply: the records that are fresh, each session once, the claims that have not expired, the
state of the uplink. A query before the announce is refused, and says so. -/
theorem queries_answered (cfg : Config) (hcfg : cfg.drainResumeHintMs < 2 ^ 64)
    (journal : Option String) (now : Nat) (as : List Action) (ha : ∀ a ∈ as, a.InRange)
    (s t : Daemon)
    (hr : run (step cfg ClientMessage.fromStr) (start (load journal) [] now) as = some s)
    (c time : Nat) (text : String) (htime : time < 2 ^ 64)
    (h : step cfg ClientMessage.fromStr s (.line c text time) = some t)
    (o : Option String) (msg : ClientMessage)
    (hreq : s.request ClientMessage.fromStr (.line c text time) = some (o, msg)) :
    ∃ r, s.answer cfg ClientMessage.fromStr (.line c text time) = some r ∧
      Reply.fromStr (OutLine.reply r).text = some r ∧
      (o = none → msg = .peers ∨ msg = .claimList ∨ msg = .uplinkStatus →
        Client.peers r = .error "peers query failed: announce_required" ∧
        Client.claimList r = .error "claim_list query failed: announce_required" ∧
        Client.uplinkStatus r = .error "uplink_status query failed: announce_required") ∧
      ∀ sid, o = some sid →
        (msg = .peers → ∃ ps, Client.peers r = .ok ps ∧ (ps.map PeerRecord.sessionId).Nodup ∧
          ∀ p, p ∈ ps ↔ ∃ j, s.bus.peers.lookup j = some p ∧
            time - p.lastHeartbeatUnixSecs ≤ cfg.heartbeatTimeoutSecs) ∧
        (msg = .claimList → ∃ cs, Client.claimList r = .ok cs ∧
          ∀ claim, claim ∈ cs ↔ ∃ path, s.bus.claims.lookup path = some claim ∧
            time < claim.ttlUnixSecs) ∧
        (msg = .uplinkStatus → Client.uplinkStatus r = .ok s.uplinkStatus) := by
  have hfits : s.Fits := fits_reachable hcfg ha hr
  have hnamed : FleetView.Named s := run_invariant (fun _ _ _ hs h => FleetView.named_step hs h) hr
    (fun sid r hr => by cases hr)
  obtain ⟨k, r, hk, hanswer, hone, hline⟩ := answer_eq h hreq
  have hserved : (handleLine cfg ClientMessage.fromStr k c s.bus s.uplinkStatus s.log.length time
      text).Fits :=
    handleLine_fits hfits.bus htime (hfits.conns c k hk).pending
      (fun _ hm => ClientMessage.fits_fromStr hm) c s.uplinkStatus s.log.length
  have hreply : (OutLine.reply r).Fits := unwritten_fits hserved.pending _ (by
    rw [hone]
    exact List.mem_singleton_self _)
  rw [hline] at hone
  refine ⟨r, hanswer, Reply.fromStr_text hreply, ?_, ?_⟩
  · rintro rfl (rfl | rfl | rfl)
    all_goals
      cases hone
      exact ⟨rfl, rfl, rfl⟩
  · rintro sid rfl
    refine ⟨?_, ?_, ?_⟩
    · rintro rfl
      obtain ⟨ps, hps, _, hnodup, hmem⟩ := peers_answered h hanswer hfits.bus hnamed hreq
      exact ⟨ps, hps, hnodup, hmem⟩
    · rintro rfl
      obtain ⟨cs, hcs, _, hmem⟩ := claims_answered h hanswer hfits.bus hreq
      exact ⟨cs, hcs, hmem⟩
    · rintro rfl
      cases hone
      exact Client.queried_okWith (UplinkStatus.fromJson_toValue _)

theorem queries_answered_peers : ∃ s r ps,
    run (step ⟨60, 1024, 3000, false, "carbon"⟩ ClientMessage.fromStr) (start (load none) [] 0)
      lookalikeRun = some s ∧
    s.answer ⟨60, 1024, 3000, false, "carbon"⟩ ClientMessage.fromStr (.line 0 peersLine 5) =
      some r ∧
    Reply.fromStr (OutLine.reply r).text = some r ∧ Client.peers r = .ok ps ∧
    ∀ p, p ∈ ps ↔ ∃ j, s.bus.peers.lookup j = some p ∧ 5 - p.lastHeartbeatUnixSecs ≤ 60 := by
  have heval : ((run (step ⟨60, 1024, 3000, false, "carbon"⟩ ClientMessage.fromStr)
      (start (load none) [] 0) lookalikeRun).map (fun s =>
        ((step ⟨60, 1024, 3000, false, "carbon"⟩ ClientMessage.fromStr s
          (.line 0 peersLine 5)).isSome,
          s.request ClientMessage.fromStr (.line 0 peersLine 5)))) =
      some (true, some (some "s1", .peers)) := by decide +kernel
  obtain ⟨s, hs, heval⟩ := Option.map_eq_some_iff.mp heval
  rw [Prod.mk.injEq, Option.isSome_iff_exists] at heval
  obtain ⟨⟨t, ht⟩, hreq⟩ := heval
  have hrange : ∀ a ∈ lookalikeRun, a.InRange := by
    simp [lookalikeRun, Action.InRange]
  obtain ⟨r, hanswer, htext, _, hquery⟩ := queries_answered _ (by decide) none 0 lookalikeRun hrange
    s t hs 0 5 peersLine (by decide) ht _ _ hreq
  obtain ⟨ps, hps, _, hmem⟩ := (hquery "s1" rfl).1 rfl
  exact ⟨s, r, ps, hs, hanswer, htext, hps, hmem⟩

end Daemon

end Agorabus
