import Agorabus.Lease
import Agorabus.Library.LeaseTable
import Agorabus.Library.Unwinding
import Agorabus.Queries

namespace Agorabus.LeaseService

open Agorabus Daemon StepSystem Durability Subscriber Unwinding
open LeaseTable (Op Outcome Alike live live_acquire live_release)

def claimTerms : LeaseTable.Terms ClaimRecord String :=
  ⟨ClaimRecord.sessionId, ClaimRecord.ttlUnixSecs⟩

def claimOp (now : Nat) (sid : String) : ClientMessage → Option (Op String ClaimRecord String)
  | .claimAcquire path ttl reason force => some (.acquire path ⟨path, sid, ttl, now, reason⟩ force)
  | .claimRelease path => some (.release path sid)
  | .claimList => some .list
  | _ => none

def Tells : Op String ClaimRecord String → Outcome String ClaimRecord → Reply → Prop
  | .acquire path lease _, .granted _, r =>
      r = .okWith (.object [("path", .string path), ("ttl_unix_secs", .nat lease.ttlUnixSecs)])
  | .acquire .., .refused held, r => r = claimConflictReply held
  | .release .., .released held, r => r = .okWith (.object [("released", .bool held)])
  | .list, .listed leases, r => ∃ es : List (String × ClaimRecord), (es.map Prod.fst).Nodup ∧
      (∀ path c, (path, c) ∈ es ↔ leases path = some c) ∧
      r = .okWith (.array (es.map (fun e => e.2.toValue)))
  | _, _, _ => False

/-- A claim operation that a step serves, with its clock reading and its reply. -/
structure Exchange where
  call : Nat × Op String ClaimRecord String
  reply : Reply

def exchanges (cfg : Config) (fromStr : String → Option ClientMessage) (s : Daemon) (a : Action) :
    List Exchange :=
  match s.request fromStr a with
  | some (some sid, msg) =>
      match claimOp a.time sid msg, s.answer cfg fromStr a with
      | some op, some r => [⟨(a.time, op), r⟩]
      | _, _ => []
  | _ => []

def served (cfg : Config) (fromStr : String → Option ClientMessage) (s : Daemon)
    (as : List Action) : List Exchange :=
  trace (step cfg fromStr) (exchanges cfg fromStr) s as

section handler

variable {cfg : Config} {k : Conn} {bus : BusState} {uplink : UplinkStatus} {sent now : Nat}
  {sid : String} {msg : ClientMessage} {op : Op String ClaimRecord String}

theorem live_lookup (now : Nat) (path : String) :
    live claimTerms bus.claims.lookup now path = liveClaim bus.claims now path :=
  rfl

theorem grants_lookup (bus : BusState) (now : Nat) (sid path : String) (force : Bool) :
    LeaseTable.grants claimTerms bus.claims.lookup now sid path force =
      bus.grants now sid path force := by
  rw [LeaseTable.grants, BusState.grants, live_lookup]
  cases liveClaim bus.claims now path <;> rfl

theorem step_release (bus : BusState) (now : Nat) (sid path : String) :
    LeaseTable.step claimTerms bus.claims.lookup (now, .release path sid) =
      if (liveClaim bus.claims now path).any (fun c => decide (c.sessionId = sid)) then
        (Function.update bus.claims.lookup path none, .released true)
      else (bus.claims.lookup, .released false) :=
  rfl

theorem handleMessage_tells (h : claimOp now sid msg = some op) {r : Reply}
    (hr : unwritten (handleMessage cfg k sid bus uplink sent now msg).conn.pending = [.reply r]) :
    Tells op (LeaseTable.step claimTerms bus.claims.lookup (now, op)).2 r := by
  cases msg with
  | claimAcquire path ttl reason force =>
    cases h
    rw [handleMessage_claimAcquire, BusState.claimAcquire_decision] at hr
    simp only [LeaseTable.step, live_lookup]
    cases hl : liveClaim bus.claims now path with
    | none =>
      simp only [hl] at hr
      cases hr
      rfl
    | some c =>
      simp only [hl, claimTerms] at hr ⊢
      by_cases hc : c.sessionId = sid
      · simp only [hc, if_true] at hr ⊢
        cases hr
        rfl
      · cases force with
        | true =>
          simp only [hc, if_false, if_true] at hr ⊢
          cases hr
          rfl
        | false =>
          simp only [hc, if_false, Bool.false_eq_true] at hr ⊢
          cases hr
          rfl
  | claimRelease path =>
    cases h
    have hreleased : (bus.claimRelease sid path now).2 =
        (liveClaim bus.claims now path).any (fun c => decide (c.sessionId = sid)) :=
      changesDurable_claimRelease sid path
    simp only [handleMessage, hreleased] at hr
    rw [step_release]
    cases hany : (liveClaim bus.claims now path).any (fun c => decide (c.sessionId = sid)) with
    | true =>
      rw [hany] at hr
      cases hr
      rfl
    | false =>
      rw [hany] at hr
      cases hr
      rfl
  | claimList =>
    cases h
    cases hr
    have hp := Table.enumerates_pairs (bus.pruneExpiredClaims now).claims
    refine ⟨_, hp.nodup, fun path c => ?_, ?_⟩
    · rw [hp.mem, lookup_prune, live_lookup]
    · rw [Table.values, Table.pairs, List.map_map, List.map_map]
      rfl
  | _ => cases h

theorem apply_alike (h : claimOp now sid msg = some op) {tr : Transaction}
    (htr : msg.transaction cfg sid = some tr) :
    Alike claimTerms now (tr.apply bus now).claims.lookup
      (LeaseTable.step claimTerms bus.claims.lookup (now, op)).1 := by
  intro p
  rw [live_lookup, liveClaim_apply]
  cases msg with
  | claimAcquire path ttl reason force =>
    cases h
    cases htr
    have hgrants := grants_lookup bus now sid path force
    simp only [live_acquire, claimTerms, Option.filter, decide_eq_true_eq] at hgrants ⊢
    rw [hgrants]
    rfl
  | claimRelease path =>
    cases h
    cases htr
    rw [live_release]
    rfl
  | claimList =>
    cases h
    cases htr
    rfl
  | _ => cases h

theorem claimOp_of_claimPath {tr : Transaction} {path : String} (now : Nat)
    (htr : msg.transaction cfg sid = some tr) (hp : tr.claimPath = some path) :
    ∃ op, claimOp now sid msg = some op := by
  cases msg with
  | claimAcquire | claimRelease => exact ⟨_, rfl⟩
  | heartbeat tool skill prdSlug paths =>
    simp only [ClientMessage.transaction] at htr
    split at htr
    · cases htr
    · cases htr
      cases hp
  | update | peers | claimList =>
    cases htr
    cases hp
  | _ => cases htr

theorem transaction_of_claimOp (cfg : Config) (h : claimOp now sid msg = some op) :
    ∃ tr, msg.transaction cfg sid = some tr := by
  cases msg with
  | claimAcquire | claimRelease | claimList => exact ⟨_, rfl⟩
  | _ => cases h

end handler

section Run

variable {cfg : Config} {fromStr : String → Option ClientMessage} {s t : Daemon} {a : Action}

theorem alike_of_no_exchange (hj : Journaled s) (h : step cfg fromStr s a = some t)
    (hno : ∀ sid msg, s.request fromStr a = some (some sid, msg) → claimOp a.time sid msg = none) :
    Alike claimTerms t.clock t.bus.claims.lookup s.bus.claims.lookup := by
  intro path
  refine claim_kept hj h (fun tr htr hp => ?_)
  cases transaction_section htr with
  | @message c now text k sid msg tr hk hs ht hm htr' =>
    obtain ⟨op, hop⟩ := claimOp_of_claimPath now htr' hp
    have hreq : s.request fromStr (.line c text now) = some (some sid, msg) := by
      simp [request, hk, hs, ht, hm]
    rw [show claimOp now sid msg = none from hno sid msg hreq] at hop
    cases hop
  | first => cases hp
  | touch => cases hp
  | cleanup => cases hp

theorem exchange_step (h : step cfg fromStr s a = some t) {sid : String} {msg : ClientMessage}
    (hreq : s.request fromStr a = some (some sid, msg)) {op : Op String ClaimRecord String}
    (hop : claimOp a.time sid msg = some op) :
    ∃ r, exchanges cfg fromStr s a = [⟨(t.clock, op), r⟩] ∧
      Tells op (LeaseTable.step claimTerms s.bus.claims.lookup (t.clock, op)).2 r ∧
      Alike claimTerms t.clock t.bus.claims.lookup
        (LeaseTable.step claimTerms s.bus.claims.lookup (t.clock, op)).1 := by
  cases a with
  | line c text time =>
    obtain ⟨tr, htr⟩ := transaction_of_claimOp cfg hop
    have hsection : s.transaction cfg fromStr (.line c text time) = some tr := by
      simp only [transaction, hreq, htr]
    have hclock : t.clock = time := clock_of_transaction h hsection
    have hbus : t.bus = tr.apply s.bus t.clock := by
      obtain ⟨now, hboot⟩ | hbus := step_bus h
      · cases hboot
      · rw [hbus, hsection]
        rfl
    obtain ⟨k, r, _, hanswer, hone, hline⟩ := answer_eq h hreq
    rw [hline] at hone
    rw [hbus, hclock]
    refine ⟨r, ?_, handleMessage_tells hop hone, apply_alike hop htr⟩
    simp only [exchanges, hreq, hop, hanswer]
    rfl
  | _ => cases hreq

/-- What has been answered so far has been answered as on the table of leases, and the claims that
have not expired are its leases that are not over. -/
structure Refines (file : DurableState) (s : Daemon) (xs : List Exchange) : Prop where
  journaled : Journaled s
  alike : Alike claimTerms s.clock s.bus.claims.lookup
    (runs (LeaseTable.step claimTerms) file.claims.lookup (xs.map Exchange.call))
  answered : List.Forall₂ (fun x y => x.call = y.1 ∧ Tells x.call.2 y.2 x.reply) xs
    (outputs (LeaseTable.step claimTerms) file.claims.lookup (xs.map Exchange.call))

theorem refines_start (file : DurableState) (log : List BroadcastMsg) (now : Nat) :
    Refines file (start file log now) [] where
  journaled := journaled_start file log now
  alike := fun path => liveClaim_prune (.fromDurable file) (Nat.le_refl now) path
  answered := List.Forall₂.nil

theorem refines_step {file : DurableState} {xs : List Exchange} (hs : Refines file s xs)
    (hok : SaveSucceeds a) (h : step cfg fromStr s a = some t) :
    Refines file t (xs ++ exchanges cfg fromStr s a) := by
  have hj := journaled_step hs.journaled hok h
  have halike := hs.alike.later (step_clock h)
  by_cases hserves : ∃ sid msg op, s.request fromStr a = some (some sid, msg) ∧
      claimOp a.time sid msg = some op
  · obtain ⟨sid, msg, op, hreq, hop⟩ := hserves
    obtain ⟨r, hx, htells, hnext⟩ := exchange_step h hreq hop
    obtain ⟨hout, hstate⟩ := halike.step op
    rw [hx]
    refine ⟨hj, ?_, ?_⟩
    · rw [List.map_append, runs_append]
      exact hnext.trans hstate
    · rw [List.map_append, outputs_append]
      refine List.rel_append hs.answered ?_
      exact List.Forall₂.cons ⟨rfl, hout ▸ htells⟩ List.Forall₂.nil
  · have hno : ∀ sid msg, s.request fromStr a = some (some sid, msg) →
        claimOp a.time sid msg = none := by
      intro sid msg hreq
      rw [Option.eq_none_iff_forall_ne_some]
      exact fun op hop => hserves ⟨sid, msg, op, hreq, hop⟩
    have hx : exchanges cfg fromStr s a = [] := by
      unfold exchanges
      split
      · rename_i sid msg hreq
        rw [hno sid msg hreq]
      · rfl
    rw [hx, List.append_nil]
    exact ⟨hj, (alike_of_no_exchange hs.journaled h hno).trans halike, hs.answered⟩

/-- The claims of a daemon are a table of leases: over any run, clean restarts included, every
claim operation is answered as if no lease had ever been dropped before its time or been through
the journal, and the claims that have not expired are in the end the leases that are not over. -/
theorem claims_refine_leases (cfg : Config) (fromStr : String → Option ClientMessage)
    (file : DurableState) (log : List BroadcastMsg) (now : Nat) (as : List Action) (t : Daemon)
    (hsave : ∀ a ∈ as, SaveSucceeds a)
    (hr : run (step cfg fromStr) (start file log now) as = some t) :
    List.Forall₂ (fun x y => x.call = y.1 ∧ Tells x.call.2 y.2 x.reply)
      (served cfg fromStr (start file log now) as)
      (outputs (LeaseTable.step claimTerms) file.claims.lookup
        ((served cfg fromStr (start file log now) as).map Exchange.call)) ∧
      ∀ path, liveClaim t.bus.claims t.clock path =
        live claimTerms (runs (LeaseTable.step claimTerms) file.claims.lookup
          ((served cfg fromStr (start file log now) as).map Exchange.call)) t.clock path := by
  have hend : Refines file t ([] ++ served cfg fromStr (start file log now) as) :=
    run_trace_invariant (P := fun _ a => SaveSucceeds a)
      (fun _ _ _ _ hs hok h => refines_step hs hok h) (along_of_forall _ hsave) hr
      (refines_start file log now)
  exact ⟨hend.answered, hend.alike⟩

end Run

def refusedActions : List Action :=
  Lease.leaseActions ++ (Lease.bounceActions ++
    [.connect, .line 0 (announceLine "s2") 11, .proceed 0 11 true, .line 0 acquireLine 12])

theorem claims_refine_leases_bounce : ∃ t,
    run (step Lease.leaseConfig Lease.leaseLines) (start .default [] 0) refusedActions = some t ∧
      liveClaim t.bus.claims t.clock "/x" = some ⟨"/x", "s1", 100, 2, ""⟩ ∧
      (outputs (LeaseTable.step claimTerms) (DurableState.default).claims.lookup
        ((served Lease.leaseConfig Lease.leaseLines (start .default [] 0) refusedActions).map
          Exchange.call)).length = 2 := by
  have hrun : (run (step Lease.leaseConfig Lease.leaseLines) (start .default [] 0)
      refusedActions).map Daemon.clock = some 12 := by decide
  obtain ⟨hserved, hlive⟩ :
      (served Lease.leaseConfig Lease.leaseLines (start .default [] 0) refusedActions).length = 2 ∧
      live claimTerms (runs (LeaseTable.step claimTerms) (DurableState.default).claims.lookup
        ((served Lease.leaseConfig Lease.leaseLines (start .default [] 0) refusedActions).map
          Exchange.call)) 12 "/x" = some ⟨"/x", "s1", 100, 2, ""⟩ := by decide +kernel
  obtain ⟨t, ht, hclock⟩ := Option.map_eq_some_iff.mp hrun
  obtain ⟨hanswered, halike⟩ := claims_refine_leases Lease.leaseConfig Lease.leaseLines .default []
    0 refusedActions t (by simp [refusedActions, Lease.leaseActions, Lease.bounceActions,
      SaveSucceeds]) ht
  refine ⟨t, ht, ?_, hanswered.length_eq ▸ hserved⟩
  rw [halike "/x", hclock]
  exact hlive

end Agorabus.LeaseService
