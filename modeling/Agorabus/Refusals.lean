import Agorabus.Similar

namespace Agorabus.Refusals

open Agorabus Daemon StepSystem

variable {cfg : Config} {fromStr : String → Option ClientMessage} {s t u u' : Daemon}
  {c now : Nat} {k : Conn} {rep : Reply}

/-- What a refused line leaves behind: the reply to be written, perhaps the end of the connection
after it, and at most the expired claims dropped. -/
inductive Refusal (k : Conn) (bus : BusState) (now : Nat) (rep : Reply) : Served → Prop
  | closing (he : rep = .err "malformed_json" ∨ rep = .err "announce_required") :
      Refusal k bus now rep ⟨{ k with pending := [.write (.reply rep), .bail] }, bus, []⟩
  | plain (he : rep = .err "already_announced" ∨ rep = .err "too_many_paths") :
      Refusal k bus now rep ⟨{ k with pending := [.write (.reply rep)] }, bus, []⟩
  | conflict (c : ClaimRecord) (he : rep = claimConflictReply c) :
      Refusal k bus now rep
        ⟨{ k with pending := [.write (.reply rep)] }, bus.pruneExpiredClaims now, []⟩

theorem claimAcquire_conflict {st : BusState} {sid path reason : String} {ttl : Nat}
    {force : Bool} {r : ClaimRecord}
    (h : (st.claimAcquire sid path ttl reason force now).2 = .conflict r) :
    (st.claimAcquire sid path ttl reason force now).1 = st.pruneExpiredClaims now := by
  simp only [BusState.claimAcquire] at h ⊢
  split at h
  · cases h
  · split at h
    · cases h
    · split at h
      · cases h
      · rename_i hne hf
        simp only [hne, hf, Bool.false_eq_true, ↓reduceIte]

theorem handleMessage_refusal (sid : String) (bus : BusState) (uplink : UplinkStatus)
    (sent : Nat) (msg : ClientMessage) (hno : rep.ok = false)
    (hr : .write (.reply rep) ∈
      (handleMessage cfg k sid bus uplink sent now msg).conn.pending) :
    Refusal k bus now rep (handleMessage cfg k sid bus uplink sent now msg) := by
  have ok (es : List Effect) {r : Reply} (hok : r.ok = true)
      (hm : Effect.write (.reply rep) ∈ es ++ [.write (.reply r)])
      (hes : Effect.write (.reply rep) ∉ es) : False := by
    obtain hm | hm := List.mem_append.mp hm
    · exact hes hm
    · cases List.mem_singleton.mp hm
      rw [hno] at hok
      cases hok
  cases msg with
  | announce sid' pid cwd intent node =>
    cases List.mem_singleton.mp hr
    exact .plain (Or.inl rfl)
  | heartbeat tool skill prdSlug paths =>
    simp only [handleMessage] at hr ⊢
    split at hr
    · rename_i hp
      cases List.mem_singleton.mp hr
      rw [if_pos hp]
      exact .plain (Or.inr rfl)
    · refine (ok _ rfl hr ?_).elim
      split <;> simp
  | claimAcquire path ttl reason force =>
    rw [handleMessage_claimAcquire] at hr ⊢
    cases hd : (bus.claimAcquire sid path ttl reason force now).2 with
    | conflict r =>
      rw [hd] at hr
      cases List.mem_singleton.mp hr
      dsimp only
      rw [claimAcquire_conflict hd]
      exact .conflict r rfl
    | granted evicted =>
      rw [hd] at hr
      exact (ok [.signal, .broadcast _] rfl hr (by simp)).elim
  | publish topic data => exact (ok [.touch sid] rfl hr (by simp)).elim
  | claimRelease path =>
    simp only [handleMessage] at hr
    refine (ok _ rfl hr ?_).elim
    split <;> simp
  | _ => exact (ok [] rfl hr (by simp)).elim

theorem handleLine_refusal (hk : k.pending = []) (bus : BusState) (uplink : UplinkStatus)
    (sent : Nat) (line : String) (hno : rep.ok = false)
    (hr : .write (.reply rep) ∈
      (handleLine cfg fromStr k c bus uplink sent now line).conn.pending) :
    Refusal k bus now rep (handleLine cfg fromStr k c bus uplink sent now line) := by
  unfold handleLine at hr ⊢
  split at hr
  · rw [hk] at hr
    cases hr
  · rename_i he
    rw [if_neg he]
    cases hm : fromStr (trim line) with
    | none =>
      rw [hm] at hr
      have hrep : rep = .err "malformed_json" := by simpa using hr
      subst hrep
      exact .closing (Or.inl rfl)
    | some msg =>
      rw [hm] at hr
      cases hs : k.sessionId with
      | some sid =>
        rw [hs] at hr
        exact handleMessage_refusal sid bus uplink sent msg hno hr
      | none =>
        rw [hs] at hr
        cases msg with
        | announce sid pid cwd intent node =>
          cases List.mem_singleton.mp hr
          cases hno
        | _ =>
          have hrep : rep = .err "announce_required" := by simpa [handleFirst] using hr
          subst hrep
          exact .closing (Or.inr rfl)

theorem conns_kept {as : List Action} (hb : ∀ a ∈ as, a.conn ≠ some c ∧ ∀ now, a ≠ .boot now)
    (hk : s.conns[c]? = some k) (h : run (step cfg fromStr) s as = some t) :
    t.conns[c]? = some k := by
  refine run_along_invariant (I := fun s => s.conns[c]? = some k)
    (P := fun _ a => a.conn ≠ some c ∧ ∀ now, a ≠ .boot now) ?_ (along_of_forall s hb) h hk
  rintro u a v hu ⟨hc, hb⟩ hv
  exact conn_kept hv hb hc hu

def Answering (k : Conn) (rep : Reply) (x y : Conn) : Prop :=
  x = { k with pending := [.write (.reply rep)] } ∧ y = k

def Answered (k : Conn) (rep : Reply) : Conn → Conn → Prop :=
  WrittenAfter (k.written ++ [.reply rep]) k.written

theorem similar_refused {r : Served} (hk : s.conns[c]? = some k)
    (hr : Refusal k s.bus now rep r) (hopen : .bail ∉ r.conn.pending) :
    Similar (Answering k rep) c
      { s with clock := now, bus := r.bus, log := s.log ++ r.sent, conns := s.conns.set c r.conn }
      { s with clock := now } := by
  have hconns : r.conn = { k with pending := [.write (.reply rep)] } →
      ConnsAlike (Answering k rep) c (s.conns.set c r.conn) s.conns := by
    intro he
    refine ⟨by simp, fun d hd => List.getElem?_set_ne (Ne.symm hd), Or.inr ?_⟩
    exact ⟨_, k, getElem?_set_conn hk _, hk, he, rfl⟩
  cases hr with
  | closing he => simp at hopen
  | plain he =>
    exact ⟨⟨rfl, rfl, List.append_nil _, rfl, rfl, rfl, .same _, .same _, rfl⟩, hconns rfl⟩
  | conflict r he =>
    exact ⟨⟨rfl, BusState.alike_prune (Nat.le_refl now) s.bus, List.append_nil _, rfl, rfl, rfl,
      .same _, .same _, rfl⟩, hconns rfl⟩

theorem similar_answered (cfg : Config) (fromStr : String → Option ClientMessage)
    (hs : Similar (Answering k rep) c u u') (hrun : k.status = .running)
    (hk : u.conns[c]? = some { k with pending := [.write (.reply rep)] })
    (hk' : u'.conns[c]? = some k) (hpend : k.pending = []) {later : Nat} (hl : u.clock ≤ later) :
    ∃ v v', step cfg fromStr u (.proceed c later true) = some v ∧
      step cfg fromStr u' (.tick later) = some v' ∧ Similar (Answered k rep) c v v' := by
  refine ⟨_, _, step_proceed.mpr ⟨_, _, _, hk, rfl, ⟨hrun, hl⟩, rfl⟩,
    step_tick.mpr ⟨hs.clock ▸ hl, rfl⟩, ?_⟩
  have htick := hs.tick hl
  refine ⟨⟨rfl, htick.bus, hs.log, hs.uplinkStatus, hs.presence, hs.signals, htick.persist,
    htick.main, htick.file⟩, ?_⟩
  have hwritten : Answered k rep
      { k with pending := [], written := k.written ++ [.reply rep] } k := by
    refine ⟨[], ?_, (List.append_nil _).symm⟩
    rw [List.append_nil, Conn.rewritten, hpend]
  refine ⟨by simp [perform, setConn, hs.conns.length], fun d hd => ?_, Or.inr ?_⟩
  · exact (List.getElem?_set_ne (Ne.symm hd)).trans (hs.conns.others d hd)
  · exact ⟨_, k, getElem?_set_conn hk _, hk', hwritten⟩

theorem answered_flip (k : Conn) (rep : Reply) :
    (fun x y => Answered k rep y x) = WrittenAfter k.written (k.written ++ [.reply rep]) := by
  funext x y
  apply propext
  constructor
  · rintro ⟨rest, rfl, hw⟩
    refine ⟨rest, ?_, rfl⟩
    rw [← hw]
    rfl
  · rintro ⟨rest, rfl, hw⟩
    refine ⟨rest, ?_, rfl⟩
    rw [← hw]
    rfl

theorem refused_run (cfg : Config) (fromStr : String → Option ClientMessage)
    (hs : Similar (Answering k rep) c u u') (hi : k.idle = true)
    (hk : u.conns[c]? = some { k with pending := [.write (.reply rep)] })
    (hk' : u'.conns[c]? = some k) {bs as : List Action} {later : Nat}
    (hb : ∀ b ∈ bs, b.conn ≠ some c ∧ ∀ now, b ≠ .boot now) :
    (∀ v, run (step cfg fromStr) u (bs ++ .proceed c later true :: as) = some v →
      ∃ v', run (step cfg fromStr) u' (bs ++ .tick later :: as) = some v' ∧
        Similar (Answered k rep) c v v') ∧
    ∀ v', run (step cfg fromStr) u' (bs ++ .tick later :: as) = some v' →
      ∃ v, run (step cfg fromStr) u (bs ++ .proceed c later true :: as) = some v ∧
        Similar (Answered k rep) c v v' := by
  obtain ⟨hrun, hpend⟩ := Conn.idle_iff.mp hi
  have hstatus : ∀ x y, Answering k rep x y → x.status = y.status := by
    rintro x y ⟨rfl, rfl⟩
    rfl
  have hwritten : ∀ x y, Answered k rep x y → x.status = y.status := by
    rintro x y ⟨_, rfl, _⟩
    rfl
  constructor
  · intro v hv
    obtain ⟨w, hw, hv⟩ := (run_append_eq_some _).mp hv
    obtain ⟨x, hx, hv⟩ := (run_cons_eq_some _).mp hv
    obtain ⟨w', hw', hsw⟩ := similar_run hstatus (fun b hm he => absurd he (hb b hm).1) hs hw
    have hl : w.clock ≤ later := by
      obtain ⟨_, _, _, _, _, ⟨_, hl⟩, _⟩ := step_proceed.mp hx
      exact hl
    obtain ⟨y, y', hy, hy', hsy⟩ := similar_answered cfg fromStr hsw hrun
      (conns_kept hb hk hw) (conns_kept hb hk' hw') hpend hl
    obtain rfl : x = y := Option.some.inj (hx.symm.trans hy)
    obtain ⟨v', hv', hsv⟩ := similar_run hwritten (fun _ _ _ => ⟨_, _, rfl⟩) hsy hv
    exact ⟨v', (run_append_eq_some _).mpr ⟨w', hw', (run_cons_eq_some _).mpr ⟨y', hy', hv'⟩⟩, hsv⟩
  · intro v' hv'
    obtain ⟨w', hw', hv'⟩ := (run_append_eq_some _).mp hv'
    obtain ⟨x', hx', hv'⟩ := (run_cons_eq_some _).mp hv'
    obtain ⟨w, hw, hsw⟩ := similar_run (fun x y hxy => (hstatus y x hxy).symm)
      (fun b hm he => absurd he (hb b hm).1) hs.flip hw'
    have hsw := hsw.flip
    have hl : w.clock ≤ later := hsw.clock ▸ (step_tick.mp hx').1
    obtain ⟨y, y', hy, hy', hsy⟩ := similar_answered cfg fromStr hsw hrun
      (conns_kept hb hk hw) (conns_kept hb hk' hw') hpend hl
    obtain rfl : x' = y' := Option.some.inj (hx'.symm.trans hy')
    obtain ⟨v, hv, hsv⟩ := similar_run (fun x y hxy => (hwritten y x hxy).symm)
      (fun _ _ _ => ⟨_, _, answered_flip k rep⟩) hsy.flip hv'
    exact ⟨v, (run_append_eq_some _).mpr ⟨w, hw, (run_cons_eq_some _).mpr ⟨y, hy, hv⟩⟩, hsv.flip⟩

/-- A refused line changes nothing but that expired claims may be dropped. Unless it ends the
connection, the daemon goes on once the refusal has been written as if time had passed instead:
the same steps are possible and they lead to the same, up to expired claims and the line. -/
theorem refused_leaves_no_trace (cfg : Config) (fromStr : String → Option ClientMessage)
    (s t : Daemon) (c now : Nat) (text : String) (k k' : Conn) (rep : Reply)
    (h : step cfg fromStr s (.line c text now) = some t) (hk : s.conns[c]? = some k)
    (hk' : t.conns[c]? = some k') (hr : .write (.reply rep) ∈ k'.pending)
    (hno : rep.ok = false) :
    (t.bus.peers = s.bus.peers ∧ t.bus.peerOwners = s.bus.peerOwners ∧
      t.bus.intents = s.bus.intents ∧ (t.bus.claims = s.bus.claims ∨
        t.bus.claims = s.bus.claims.retain (fun _ r => decide (now < r.ttlUnixSecs)))) ∧
    (k'.sessionId = k.sessionId ∧ k'.subscribedPrefixes = k.subscribedPrefixes ∧
      k'.bcastRx = k.bcastRx) ∧
    (t.log = s.log ∧ t.signals = s.signals ∧
      ∀ e ∈ k'.pending, e = .write (.reply rep) ∨ e = .bail) ∧
    (.bail ∈ k'.pending ↔ rep = .err "malformed_json" ∨ rep = .err "announce_required") ∧
    (.bail ∉ k'.pending → ∀ bs later as, (∀ b ∈ bs, b.conn ≠ some c ∧ ∀ now, b ≠ .boot now) →
      (∀ u, run (step cfg fromStr) t (bs ++ .proceed c later true :: as) = some u →
        ∃ u', run (step cfg fromStr) s (.tick now :: (bs ++ .tick later :: as)) = some u' ∧
          Similar (Answered k rep) c u u') ∧
      ∀ u', run (step cfg fromStr) s (.tick now :: (bs ++ .tick later :: as)) = some u' →
        ∃ u, run (step cfg fromStr) t (bs ++ .proceed c later true :: as) = some u ∧
          Similar (Answered k rep) c u u') := by
  obtain ⟨k₀, hk₀, ⟨hi, hn⟩, rfl⟩ := step_line.mp h
  obtain rfl : k = k₀ := Option.some.inj (hk.symm.trans hk₀)
  obtain rfl := Option.some.inj ((getElem?_set_conn hk _).symm.trans hk')
  have href := handleLine_refusal (Conn.idle_iff.mp hi).2 s.bus s.uplinkStatus s.log.length text
    hno hr
  simp only [takeLine]
  generalize handleLine cfg fromStr k c s.bus s.uplinkStatus s.log.length now text = r at href
  have hsim := similar_refused hk href
  refine ⟨?_, ?_, ?_, ?_, fun hopen bs later as hb => ?_⟩
  · cases href with
    | conflict => exact ⟨rfl, rfl, rfl, Or.inr rfl⟩
    | _ => exact ⟨rfl, rfl, rfl, Or.inl rfl⟩
  · cases href <;> exact ⟨rfl, rfl, rfl⟩
  · cases href with
    | closing he => exact ⟨List.append_nil _, trivial, by simp⟩
    | _ => exact ⟨List.append_nil _, trivial, by simp⟩
  · cases href with
    | closing he => exact iff_of_true (by simp) he
    | plain he =>
      refine iff_of_false (by simp) ?_
      obtain rfl | rfl := he <;> simp [Reply.err]
    | conflict r he =>
      refine iff_of_false (by simp) ?_
      subst he
      simp [Reply.err, claimConflictReply]
  · have hkr : (s.conns.set c r.conn)[c]? = some { k with pending := [.write (.reply rep)] } := by
      rw [getElem?_set_conn hk]
      cases href with
      | closing he => simp at hopen
      | _ => rfl
    obtain ⟨hto, hfrom⟩ := refused_run cfg fromStr (hsim hopen) hi hkr hk hb
    have htick : step cfg fromStr s (.tick now) = some { s with clock := now } :=
      step_tick.mpr ⟨hn, rfl⟩
    refine ⟨fun u hu => ?_, fun u' hu' => ?_⟩
    · obtain ⟨u', hu', hsu⟩ := hto u hu
      exact ⟨u', (run_cons_eq_some _).mpr ⟨_, htick, hu'⟩, hsu⟩
    · obtain ⟨v, hv, hu'⟩ := (run_cons_eq_some _).mp hu'
      obtain rfl := Option.some.inj (htick.symm.trans hv)
      exact hfrom u' hu'

def onlyReply (k : Conn) : Option Reply :=
  match k.pending with
  | [.write (.reply r)] => some r
  | _ => none

theorem pending_of_onlyReply (h : onlyReply k = some rep) : k.pending = [.write (.reply rep)] := by
  unfold onlyReply at h
  split at h
  · rename_i hp
    cases h
    exact hp
  · cases h

def refusalLines : String → Option ClientMessage :=
  decodeFrom [(announceLine "s1", .announce "s1" 7 "/" "" none),
    (announceLine "s2", .announce "s2" 7 "/" "" none),
    (acquireLine, .claimAcquire "/x" 100 "" false)]

theorem refused_leaves_no_trace_conflict :
    ∃ s u u', run (step ⟨60, 1024, 3000, false, "carbon"⟩ refusalLines) (start .default [] 0)
        [.connect, .connect, .line 0 (announceLine "s1") 1, .proceed 0 1 true,
          .line 0 acquireLine 2, .proceed 0 2 true, .proceed 0 2 true, .proceed 0 2 true,
          .line 1 (announceLine "s2") 3, .proceed 1 3 true] = some s ∧
      run (step ⟨60, 1024, 3000, false, "carbon"⟩ refusalLines) s
        [.line 1 acquireLine 5, .proceed 1 6 true, .line 1 acquireLine 101] = some u ∧
      run (step ⟨60, 1024, 3000, false, "carbon"⟩ refusalLines) s
        [.tick 5, .tick 6, .line 1 acquireLine 101] = some u' ∧
      u.log = u'.log ∧ u.bus.peers = u'.bus.peers := by
  let cfg : Config := ⟨60, 1024, 3000, false, "carbon"⟩
  let pre : List Action := [.connect, .connect, .line 0 (announceLine "s1") 1, .proceed 0 1 true,
    .line 0 acquireLine 2, .proceed 0 2 true, .proceed 0 2 true, .proceed 0 2 true,
    .line 1 (announceLine "s2") 3, .proceed 1 3 true]
  have hs : (run (step cfg refusalLines) (start .default [] 0) pre).bind (fun s =>
      (step cfg refusalLines s (.line 1 acquireLine 5)).bind (fun t =>
        (run (step cfg refusalLines) t ([] ++ [.proceed 1 6 true, .line 1 acquireLine 101])).bind
          (fun _ => s.conns[1]?.bind (fun _ => t.conns[1]?.bind onlyReply)))) =
      some (claimConflictReply ⟨"/x", "s1", 100, 2, ""⟩) := by decide +kernel
  obtain ⟨s, hs, ht⟩ := Option.bind_eq_some_iff.mp hs
  obtain ⟨t, ht, hu⟩ := Option.bind_eq_some_iff.mp ht
  obtain ⟨u, hu, hk⟩ := Option.bind_eq_some_iff.mp hu
  obtain ⟨k, hk, hk'⟩ := Option.bind_eq_some_iff.mp hk
  obtain ⟨k', hk', hreply⟩ := Option.bind_eq_some_iff.mp hk'
  have hpend := pending_of_onlyReply hreply
  obtain ⟨_, _, _, _, hgo⟩ := refused_leaves_no_trace cfg refusalLines s t 1 5 acquireLine k k' _
    ht hk hk' (by rw [hpend]; exact List.mem_singleton.mpr rfl) rfl
  obtain ⟨u', hu', hsim⟩ := (hgo (by rw [hpend]; simp) [] 6 _ nofun).1 u hu
  exact ⟨s, u, u', hs, (run_cons_eq_some _).mpr ⟨t, ht, hu⟩, hu', hsim.log, hsim.bus.tables.1⟩

end Agorabus.Refusals
