import Agorabus.Transaction

namespace Agorabus

/-- The claim under a path as far as it has not expired. -/
def liveClaim (claims : Table String ClaimRecord) (now : Nat) (path : String) :
    Option ClaimRecord :=
  (claims.lookup path).filter (fun c => decide (now < c.ttlUnixSecs))

theorem liveClaim_eq_some {claims : Table String ClaimRecord} {now : Nat} {path : String}
    {c : ClaimRecord} : liveClaim claims now path = some c ↔
      claims.lookup path = some c ∧ now < c.ttlUnixSecs := by
  rw [liveClaim, Option.filter_eq_some_iff, decide_eq_true_eq]

theorem liveClaim_later {now later : Nat} (hl : now ≤ later) (m : Table String ClaimRecord)
    (path : String) : liveClaim m later path =
      (liveClaim m now path).filter (fun c => decide (later < c.ttlUnixSecs)) := by
  apply Option.ext
  intro c
  rw [Option.filter_eq_some_iff, liveClaim_eq_some, liveClaim_eq_some, decide_eq_true_eq]
  refine ⟨fun hc => ⟨⟨hc.1, ?_⟩, hc.2⟩, fun hc => ⟨hc.1.1, hc.2⟩⟩
  omega

theorem liveClaim_mono {m m' : Table String ClaimRecord} {now later : Nat} (hl : now ≤ later)
    {path : String} (h : liveClaim m now path = liveClaim m' now path) :
    liveClaim m later path = liveClaim m' later path := by
  rw [liveClaim_later hl, liveClaim_later hl, h]

theorem liveClaim_prune (st : BusState) {now later : Nat} (hl : now ≤ later) (path : String) :
    liveClaim (st.pruneExpiredClaims now).claims later path = liveClaim st.claims later path := by
  apply Option.ext
  intro c
  rw [liveClaim_eq_some, liveClaim_eq_some, BusState.pruneExpiredClaims, Table.lookup_retain,
    Option.filter_eq_some_iff, decide_eq_true_eq]
  refine ⟨fun hc => ⟨hc.1.1, hc.2⟩, fun hc => ⟨⟨hc.1, ?_⟩, hc.2⟩⟩
  omega

theorem lookup_prune (st : BusState) (now : Nat) (path : String) :
    (st.pruneExpiredClaims now).claims.lookup path = liveClaim st.claims now path :=
  Table.lookup_retain _ _ _

/-- Whether a `ClaimAcquire` is granted: nobody else holds the path, or by force. -/
def BusState.grants (st : BusState) (now : Nat) (sid path : String) (force : Bool) : Bool :=
  match liveClaim st.claims now path with
  | none => true
  | some c => decide (c.sessionId = sid) || force

theorem BusState.claimAcquire_granted {st : BusState} {now ttl : Nat} {sid path reason : String}
    {force : Bool} (h : st.grants now sid path force = true) :
    (st.claimAcquire sid path ttl reason force now).1 =
      { st.pruneExpiredClaims now with
        claims := (st.pruneExpiredClaims now).claims.insert path
          ⟨path, sid, ttl, now, reason⟩ }.touch sid now := by
  rw [BusState.grants] at h
  simp only [BusState.claimAcquire, lookup_prune]
  cases hl : liveClaim st.claims now path with
  | none => rfl
  | some c =>
    by_cases hc : c.sessionId = sid
    · simp [hc]
    · simp only [hl, hc, decide_false, Bool.false_or] at h
      simp [hc, h]

theorem BusState.claimAcquire_refused {st : BusState} {now ttl : Nat} {sid path reason : String}
    {force : Bool} (h : st.grants now sid path force = false) :
    (st.claimAcquire sid path ttl reason force now).1 = st.pruneExpiredClaims now := by
  rw [BusState.grants] at h
  simp only [BusState.claimAcquire, lookup_prune]
  cases hl : liveClaim st.claims now path with
  | none => simp [hl] at h
  | some c =>
    simp only [hl, Bool.or_eq_false_iff, decide_eq_false_iff_not] at h
    simp [h.1, h.2]

theorem BusState.claimAcquire_decision (st : BusState) (sid path reason : String) (ttl now : Nat)
    (force : Bool) : (st.claimAcquire sid path ttl reason force now).2 =
      match liveClaim st.claims now path with
      | none => .granted none
      | some c => if c.sessionId = sid then .granted none
          else if force then .granted (some c) else .conflict c := by
  simp only [BusState.claimAcquire, lookup_prune]
  cases liveClaim st.claims now path with
  | none => rfl
  | some c => by_cases hc : c.sessionId = sid <;> cases force <;> simp [hc]

theorem liveClaim_claimAcquire (st : BusState) (now ttl : Nat) (sid path reason p : String)
    (force : Bool) :
    liveClaim (st.claimAcquire sid path ttl reason force now).1.claims now p =
      if p = path ∧ st.grants now sid path force then
        if now < ttl then some ⟨path, sid, ttl, now, reason⟩ else none
      else liveClaim st.claims now p := by
  have pruned := liveClaim_prune st (Nat.le_refl now) p
  have granted : liveClaim ((st.pruneExpiredClaims now).claims.insert path
      ⟨path, sid, ttl, now, reason⟩) now p =
      if p = path then if now < ttl then some ⟨path, sid, ttl, now, reason⟩ else none
      else liveClaim st.claims now p := by
    rw [← pruned, liveClaim, Table.lookup_insert]
    split
    · simp only [Option.filter, decide_eq_true_eq]
    · rfl
  obtain hl | ⟨c, hl⟩ := Option.eq_none_or_eq_some (liveClaim st.claims now path)
  · simpa [BusState.claimAcquire, lookup_prune, BusState.grants, hl] using granted
  · by_cases hc : c.sessionId = sid
    · simpa [BusState.claimAcquire, lookup_prune, BusState.grants, hl, hc] using granted
    · cases force with
      | true => simpa [BusState.claimAcquire, lookup_prune, BusState.grants, hl, hc] using granted
      | false => simpa [BusState.claimAcquire, lookup_prune, BusState.grants, hl, hc] using pruned

theorem BusState.lookup_claimAcquire {st : BusState} {now ttl : Nat} {sid path reason : String}
    {force : Bool} (h : st.grants now sid path force = true) :
    (st.claimAcquire sid path ttl reason force now).1.claims.lookup path =
      some ⟨path, sid, ttl, now, reason⟩ := by
  simp only [BusState.grants] at h
  obtain hl | ⟨c, hl⟩ := Option.eq_none_or_eq_some (liveClaim st.claims now path)
  · simp [BusState.claimAcquire, lookup_prune, hl]
  · by_cases hc : c.sessionId = sid
    · simp [BusState.claimAcquire, lookup_prune, hl, hc]
    · simp only [hl, hc, decide_false, Bool.false_or] at h
      simp [BusState.claimAcquire, lookup_prune, hl, hc, h]

theorem lookup_apply_claims {st : BusState} {now : Nat} {tr : Transaction} {p : String}
    {r : ClaimRecord} (h : (tr.apply st now).claims.lookup p = some r) :
    st.claims.lookup p = some r ∨ ∃ sid ttl reason force,
      tr = .claimAcquire sid p ttl reason force ∧ st.grants now sid p force = true ∧
        r = ⟨p, sid, ttl, now, reason⟩ := by
  have pruned {q : String} (hq : (st.pruneExpiredClaims now).claims.lookup q = some r) :
      st.claims.lookup q = some r := by
    rw [lookup_prune] at hq
    exact (liveClaim_eq_some.mp hq).1
  cases tr with
  | announce c sid pid cwd intent node =>
    simp only [Transaction.apply, BusState.announce] at h
    split at h <;> exact Or.inl h
  | heartbeat sid tool skill prdSlug paths =>
    rw [Transaction.apply, (BusState.heartbeat_frame ..).2] at h
    exact Or.inl h
  | claimAcquire sid path ttl reason force =>
    rw [Transaction.apply] at h
    cases hg : st.grants now sid path force with
    | false =>
      rw [BusState.claimAcquire_refused hg] at h
      exact Or.inl (pruned h)
    | true =>
      rw [BusState.claimAcquire_granted hg, BusState.touch_claims, Table.lookup_insert] at h
      split at h
      · rename_i hp
        subst hp
        exact Or.inr ⟨sid, ttl, reason, force, rfl, hg, (Option.some.inj h).symm⟩
      · exact Or.inl (pruned h)
  | claimRelease sid path =>
    simp only [Transaction.apply, BusState.claimRelease] at h
    split at h
    · exact Or.inl (pruned h)
    · split at h
      · rw [BusState.touch_claims, Table.lookup_erase] at h
        split at h
        · cases h
        · exact Or.inl (pruned h)
      · exact Or.inl (pruned h)
  | claimList => exact Or.inl (pruned h)
  | disconnect c sid =>
    simp only [Transaction.apply, BusState.disconnect] at h
    split at h <;> exact Or.inl h
  | _ => exact Or.inl h

theorem BusState.claimAcquire_evicts {st : BusState} {now ttl : Nat} {sid path reason : String}
    {force : Bool} {c : ClaimRecord}
    (h : (st.claimAcquire sid path ttl reason force now).2 = .granted (some c)) :
    liveClaim st.claims now path = some c ∧ c.sessionId ≠ sid ∧ force = true := by
  rw [BusState.claimAcquire_decision] at h
  cases hl : liveClaim st.claims now path with
  | none => simp [hl] at h
  | some d =>
    by_cases hd : d.sessionId = sid
    · simp [hl, hd] at h
    · cases force with
      | false => simp [hl, hd] at h
      | true =>
        simp only [hl, hd, ↓reduceIte, Acquired.granted.injEq, Option.some.injEq] at h
        subst h
        exact ⟨rfl, hd, rfl⟩

theorem liveClaim_claimRelease (st : BusState) (now : Nat) (sid path p : String) :
    liveClaim (st.claimRelease sid path now).1.claims now p =
      if p = path ∧ (liveClaim st.claims now path).any (·.sessionId = sid) then none
      else liveClaim st.claims now p := by
  have pruned := liveClaim_prune st (Nat.le_refl now) p
  have released : liveClaim ((st.pruneExpiredClaims now).claims.erase path) now p =
      if p = path then none else liveClaim st.claims now p := by
    rw [← pruned, liveClaim, Table.lookup_erase]
    split <;> rfl
  obtain hl | ⟨c, hl⟩ := Option.eq_none_or_eq_some (liveClaim st.claims now path)
  · simpa [BusState.claimRelease, lookup_prune, hl] using pruned
  · by_cases hc : c.sessionId = sid
    · simpa [BusState.claimRelease, lookup_prune, hl, hc] using released
    · simpa [BusState.claimRelease, lookup_prune, hl, hc] using pruned

theorem BusState.lookup_claimRelease {st : BusState} {now : Nat} {sid path : String}
    {r : ClaimRecord} (h : (st.claimRelease sid path now).1.claims.lookup path = some r) :
    r.sessionId ≠ sid := by
  simp only [BusState.claimRelease] at h
  split at h
  · rename_i hn
    rw [BusState.touch_claims, hn] at h
    cases h
  · rename_i c hc
    split at h
    · rw [BusState.touch_claims, Table.lookup_erase, if_pos rfl] at h
      cases h
    · rename_i hne
      rw [BusState.touch_claims, hc] at h
      cases h
      exact hne

theorem liveClaim_apply (st : BusState) (now : Nat) (tr : Transaction) (p : String) :
    liveClaim (tr.apply st now).claims now p = match tr with
      | .claimAcquire sid path ttl reason force =>
          if p = path ∧ st.grants now sid path force then
            if now < ttl then some ⟨path, sid, ttl, now, reason⟩ else none
          else liveClaim st.claims now p
      | .claimRelease sid path =>
          if p = path ∧ (liveClaim st.claims now path).any (·.sessionId = sid) then none
          else liveClaim st.claims now p
      | _ => liveClaim st.claims now p := by
  cases tr with
  | announce c sid pid cwd intent node =>
    simp only [Transaction.apply, BusState.announce]
    split <;> rfl
  | heartbeat sid tool skill prdSlug paths =>
    rw [Transaction.apply, (BusState.heartbeat_frame ..).2]
  | claimAcquire sid path ttl reason force => exact liveClaim_claimAcquire ..
  | claimRelease sid path => exact liveClaim_claimRelease ..
  | claimList => exact liveClaim_prune st (Nat.le_refl now) p
  | disconnect c sid =>
    simp only [Transaction.apply, BusState.disconnect]
    split <;> rfl
  | _ => rfl

def Keyed (claims : Table String ClaimRecord) : Prop :=
  ∀ path c, claims.lookup path = some c → c.path = path

theorem Keyed.prune {st : BusState} (h : Keyed st.claims) (now : Nat) :
    Keyed (st.pruneExpiredClaims now).claims := by
  intro path c hc
  rw [lookup_prune] at hc
  exact h path c (liveClaim_eq_some.mp hc).1

theorem Keyed.apply {st : BusState} (h : Keyed st.claims) (now : Nat) (tr : Transaction) :
    Keyed (tr.apply st now).claims := by
  have hp := h.prune now
  cases tr with
  | announce c sid pid cwd intent node =>
    simp only [Transaction.apply, BusState.announce]
    split <;> exact h
  | heartbeat sid tool skill prdSlug paths =>
    rw [Transaction.apply, (BusState.heartbeat_frame ..).2]
    exact h
  | claimAcquire sid path ttl reason force =>
    have inserted : Keyed ((st.pruneExpiredClaims now).claims.insert path
        ⟨path, sid, ttl, now, reason⟩) := by
      intro p c hc
      rw [Table.lookup_insert] at hc
      split at hc
      · rename_i he
        cases hc
        exact he.symm
      · exact hp p c hc
    simp only [Transaction.apply, BusState.claimAcquire]
    split
    · exact inserted
    · split
      · exact inserted
      · split
        · exact inserted
        · exact hp
  | claimRelease sid path =>
    simp only [Transaction.apply, BusState.claimRelease]
    split
    · exact hp
    · split
      · intro p c hc
        rw [BusState.touch_claims, Table.lookup_erase] at hc
        split at hc
        · cases hc
        · exact hp p c hc
      · exact hp
  | claimList => exact hp
  | disconnect c sid =>
    simp only [Transaction.apply, BusState.disconnect]
    split <;> exact h
  | _ => exact h

/-- Whether a lock section changes what the journal has to hold: not when it only
drops expired claims. -/
def Transaction.changesDurable (st : BusState) (now : Nat) : Transaction → Bool
  | .heartbeat sid tool skill prdSlug paths => (st.heartbeat sid tool skill prdSlug paths now).2
  | .claimAcquire sid path ttl reason force =>
      match (st.claimAcquire sid path ttl reason force now).2 with
      | .granted _ => true
      | .conflict _ => false
  | .claimRelease sid path => (st.claimRelease sid path now).2
  | _ => false

/-- The path whose claim a lock section is about. -/
def Transaction.claimPath : Transaction → Option String
  | .claimAcquire _ path _ _ _ | .claimRelease _ path => some path
  | _ => none

def Transaction.intentSid : Transaction → Option String
  | .heartbeat sid .. => some sid
  | _ => none

variable {st : BusState} {now : Nat} {tr : Transaction}

theorem changesDurable_claimAcquire (sid path reason : String) (ttl : Nat) (force : Bool) :
    Transaction.changesDurable st now (.claimAcquire sid path ttl reason force) =
      st.grants now sid path force := by
  simp only [Transaction.changesDurable, BusState.claimAcquire, lookup_prune, BusState.grants]
  obtain hl | ⟨c, hl⟩ := Option.eq_none_or_eq_some (liveClaim st.claims now path)
  · simp [hl]
  · by_cases hc : c.sessionId = sid
    · simp [hl, hc]
    · cases force <;> simp [hl, hc]

theorem changesDurable_claimRelease (sid path : String) :
    Transaction.changesDurable st now (.claimRelease sid path) =
      (liveClaim st.claims now path).any (·.sessionId = sid) := by
  simp only [Transaction.changesDurable, BusState.claimRelease, lookup_prune]
  obtain hl | ⟨c, hl⟩ := Option.eq_none_or_eq_some (liveClaim st.claims now path)
  · simp [hl]
  · by_cases hc : c.sessionId = sid <;> simp [hl, hc]

theorem liveClaim_apply_unchanged {path : String}
    (h : tr.claimPath = some path → tr.changesDurable st now = false) :
    liveClaim (tr.apply st now).claims now path = liveClaim st.claims now path := by
  rw [liveClaim_apply]
  cases tr with
  | claimAcquire sid path' ttl reason force =>
    refine if_neg (fun hg => ?_)
    have hn := h (congrArg some hg.1.symm)
    rw [changesDurable_claimAcquire, hg.2] at hn
    cases hn
  | claimRelease sid path' =>
    refine if_neg (fun hg => ?_)
    have hn := h (congrArg some hg.1.symm)
    rw [changesDurable_claimRelease, hg.2] at hn
    cases hn
  | _ => rfl

theorem intents_apply_unchanged {sid : String}
    (h : tr.intentSid = some sid → tr.changesDurable st now = false) :
    (tr.apply st now).intents.lookup sid = st.intents.lookup sid := by
  cases tr with
  | announce c sid' pid cwd intent node =>
    simp only [Transaction.apply, BusState.announce]
    split <;> rfl
  | heartbeat sid' tool skill prdSlug paths =>
    simp only [Transaction.intentSid, Option.some.injEq, Transaction.changesDurable] at h
    revert h
    simp only [Transaction.apply, BusState.heartbeat]
    split
    · exact fun _ => rfl
    · split
      · intro h
        have hne : sid ≠ sid' := fun he => Bool.noConfusion (h he.symm)
        dsimp only
        split
        · exact AList.lookup_erase_ne hne
        · exact AList.lookup_insert_ne hne
      · exact fun _ => rfl
  | claimAcquire sid' path ttl reason force =>
    rw [Transaction.apply, (BusState.claimAcquire_frame ..).2.1]
  | claimRelease sid' path => rw [Transaction.apply, (BusState.claimRelease_frame ..).2.1]
  | disconnect c sid' =>
    simp only [Transaction.apply, BusState.disconnect]
    split <;> rfl
  | _ => rfl

theorem apply_unchanged (h : tr.changesDurable st now = false) :
    (∀ sid, (tr.apply st now).intents.lookup sid = st.intents.lookup sid) ∧
      ∀ path, liveClaim (tr.apply st now).claims now path = liveClaim st.claims now path :=
  ⟨fun _ => intents_apply_unchanged (fun _ => h), fun _ => liveClaim_apply_unchanged (fun _ => h)⟩

end Agorabus
