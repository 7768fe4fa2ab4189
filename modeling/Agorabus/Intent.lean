import Agorabus.Durability
import Agorabus.Ownership

namespace Agorabus.Intent

open Agorabus Daemon StepSystem Ownership Durability

variable {cfg : Config} {fromStr : String → Option ClientMessage} {s t : Daemon} {a : Action}

def durableIntent (bus : BusState) (sid : String) : StickyIntent :=
  (bus.intents.lookup sid).getD ⟨"", "", []⟩

theorem isEmpty_iff (i : StickyIntent) : i.isEmpty = true ↔ i = ⟨"", "", []⟩ := by
  obtain ⟨skill, prdSlug, paths⟩ := i
  simp [StickyIntent.isEmpty, and_assoc]

theorem getD_unchanged {α : Type} [DecidableEq α] {o : Option α} {x : α}
    (h : ¬ o.any (fun y => decide (y ≠ x)) = true) : o.getD x = x := by
  cases o with
  | none => rfl
  | some y => simpa using h

theorem durableIntent_heartbeat {bus : BusState} {sid : String} {r : PeerRecord}
    (hr : bus.peers.lookup sid = some r) (hi : r.stickyIntent = durableIntent bus sid)
    (tool : String) (skill prdSlug : Option String) (paths : Option (List String)) (now : Nat) :
    durableIntent (bus.heartbeat sid tool skill prdSlug paths now).1 sid =
      (durableIntent bus sid).overlay skill prdSlug paths := by
  have hb : (r.beat tool skill prdSlug paths now).stickyIntent =
      r.stickyIntent.overlay skill prdSlug paths := rfl
  rw [← hi, ← hb]
  simp only [BusState.heartbeat, hr]
  split
  · by_cases he : (r.beat tool skill prdSlug paths now).stickyIntent.isEmpty
    · rw [if_pos he, durableIntent]
      dsimp only
      rw [AList.lookup_erase, (isEmpty_iff _).mp he]
      rfl
    · rw [if_neg he, durableIntent]
      dsimp only
      rw [AList.lookup_insert]
      rfl
  · rename_i hc
    simp only [Bool.or_eq_true, not_or] at hc
    obtain ⟨⟨hs, hp⟩, hw⟩ := hc
    rw [hb, StickyIntent.overlay, PeerRecord.stickyIntent, getD_unchanged hs, getD_unchanged hp,
      getD_unchanged hw]
    exact hi.symm

/-- Every peer record shows the durable intent of its session. -/
def Mirrored (bus : BusState) : Prop :=
  ∀ sid r, bus.peers.lookup sid = some r → r.stickyIntent = durableIntent bus sid

theorem durableIntent_apply {bus : BusState} {sid : String} {r : PeerRecord}
    (hr : bus.peers.lookup sid = some r) (hi : r.stickyIntent = durableIntent bus sid)
    (now : Nat) (tr : Transaction) :
    durableIntent (tr.apply bus now) sid = tr.overlay sid (durableIntent bus sid) := by
  have kept (hne : tr.intentSid ≠ some sid) :
      durableIntent (tr.apply bus now) sid = durableIntent bus sid := by
    rw [durableIntent, intents_apply_unchanged (fun he => absurd he hne), durableIntent]
  cases tr with
  | heartbeat sid' tool skill prdSlug paths =>
    by_cases hs : sid = sid'
    · subst hs
      rw [Transaction.apply, durableIntent_heartbeat hr hi, Transaction.overlay, if_pos rfl]
    · rw [kept (fun he => hs (Option.some.inj he).symm), Transaction.overlay, if_neg hs]
  | _ => exact kept (fun h => by cases h)

def FindsRecord (cfg : Config) (fromStr : String → Option ClientMessage) (s : Daemon)
    (a : Action) : Prop :=
  ∀ c sid pid cwd intent node,
    s.transaction cfg fromStr a = some (.announce c sid pid cwd intent node) →
    durableIntent s.bus sid ≠ ⟨"", "", []⟩ → sid ∈ s.bus.peers

theorem mirrored_step (hr : Registered s) (hm : Mirrored s.bus)
    (hp : FindsRecord cfg fromStr s a) (h : step cfg fromStr s a = some t) : Mirrored t.bus := by
  obtain ⟨now, rfl⟩ | hbus := step_bus h
  · obtain ⟨_, _, rfl⟩ := step_boot.mp h
    exact fun sid r he => (by cases he)
  rw [hbus]
  cases htr : s.transaction cfg fromStr a with
  | none => exact hm
  | some tr =>
    intro sid r' hl
    obtain ⟨c, pid, cwd, intent, node, rfl, ho, rfl⟩ | ⟨r, hr', hrev⟩ :=
      BusState.lookup_apply_peers hl
    · -- a fresh record shows no intent
      have hnone : durableIntent s.bus sid = ⟨"", "", []⟩ := by
        by_contra hne
        exact ho (hr.2 sid (hp c sid pid cwd intent node htr hne))
      rw [durableIntent, BusState.commit, intents_apply_unchanged (fun he => by cases he)]
      exact hnone.symm
    · rw [hrev.intent, hm sid r hr', BusState.commit, durableIntent_apply hr' (hm sid r hr')]

/-- Intents are sticky across a step: an announce of a session with a durable
intent leaves a record that shows it, and a heartbeat of a session with a record changes
the fields it sets and no others, in the record and in the durable map. -/
def CarriesIntent (cfg : Config) (fromStr : String → Option ClientMessage) (s : Daemon)
    (a : Action) : Prop :=
  (∀ t c sid pid cwd intent node, step cfg fromStr s a = some t →
    s.transaction cfg fromStr a = some (.announce c sid pid cwd intent node) →
    durableIntent s.bus sid ≠ ⟨"", "", []⟩ →
    ∃ r, t.bus.peers.lookup sid = some r ∧ r.stickyIntent = durableIntent s.bus sid ∧
      durableIntent t.bus sid = durableIntent s.bus sid) ∧
  ∀ t sid tool skill prdSlug paths, step cfg fromStr s a = some t →
    s.transaction cfg fromStr a = some (.heartbeat sid tool skill prdSlug paths) →
    sid ∈ s.bus.peers →
    ∃ r, t.bus.peers.lookup sid = some r ∧
      r.stickyIntent = (durableIntent s.bus sid).overlay skill prdSlug paths ∧
      durableIntent t.bus sid = (durableIntent s.bus sid).overlay skill prdSlug paths

theorem carries_of_findsRecord (hr : Registered s) (hm : Mirrored s.bus)
    (hp : FindsRecord cfg fromStr s a) : CarriesIntent cfg fromStr s a := by
  constructor
  · intro t c sid pid cwd intent node h htr hne
    obtain ⟨now, rfl⟩ | hbus := step_bus h
    · simp [transaction] at htr
    obtain ⟨r, hl⟩ := Option.ne_none_iff_exists'.mp
      ((Table.mem_iff_lookup _ _).mp (hp c sid pid cwd intent node htr hne))
    have ho : sid ∈ s.bus.peerOwners := hr.2 sid ((Table.mem_iff_lookup _ _).mpr (by simp [hl]))
    have same : t.bus = s.bus := by
      rw [hbus, htr, BusState.commit, Transaction.apply, BusState.announce, if_pos ho]
    exact ⟨r, by rw [same, hl], hm sid r hl, by rw [same]⟩
  · intro t sid tool skill prdSlug paths h htr hin
    have hmt := mirrored_step hr hm hp h
    obtain ⟨now, rfl⟩ | hbus := step_bus h
    · simp [transaction] at htr
    obtain ⟨r, hl⟩ := Option.ne_none_iff_exists'.mp ((Table.mem_iff_lookup _ _).mp hin)
    have hd : durableIntent t.bus sid = (durableIntent s.bus sid).overlay skill prdSlug paths := by
      rw [hbus, htr, BusState.commit, Transaction.apply,
        durableIntent_heartbeat hl (hm sid r hl)]
    have hl' : t.bus.peers.lookup sid = some (r.beat tool skill prdSlug paths t.clock) := by
      rw [hbus, htr, BusState.commit, Transaction.apply, BusState.heartbeat_peers_lookup,
        if_pos rfl, hl, Option.map_some]
    exact ⟨_, hl', (hmt sid _ hl').trans hd, hd⟩

/-- An announce that creates a record forgets the durable intent. -/
theorem findsRecord_of_carries (h : step cfg fromStr s a = some t)
    (hc : CarriesIntent cfg fromStr s a) : FindsRecord cfg fromStr s a := by
  intro c sid pid cwd intent node htr hne
  obtain ⟨r, hl, hi, _⟩ := hc.1 t c sid pid cwd intent node h htr hne
  obtain ⟨now, rfl⟩ | hbus := step_bus h
  · simp [transaction] at htr
  rw [hbus, htr] at hl
  obtain ⟨_, _, _, _, _, _, _, rfl⟩ | ⟨r', hr', _⟩ := BusState.lookup_apply_peers hl
  · exact absurd hi.symm hne
  · exact (Table.mem_iff_lookup _ _).mpr (by simp [hr'])

/-- Intents are sticky along a run exactly if no announce has to create the record of a
session with a durable intent: a record is never rehydrated. -/
theorem carries_iff_finds_record (cfg : Config) (fromStr : String → Option ClientMessage)
    (file : DurableState) (log : List BroadcastMsg) (now : Nat) (as : List Action) :
    Along (step cfg fromStr) (CarriesIntent cfg fromStr) (start file log now) as ↔
      Along (step cfg fromStr) (FindsRecord cfg fromStr) (start file log now) as := by
  refine along_iff_of_invariant (J := fun s => Registered s ∧ Mirrored s.bus)
    ?_ ?_ ⟨registered_start file log now, fun sid r he => (by cases he)⟩
  · intro s a t hj hp h
    exact ⟨registered_step hj.1 h, mirrored_step hj.1 hj.2 hp h⟩
  · intro s a t hj h
    exact ⟨findsRecord_of_carries h, carries_of_findsRecord hj.1 hj.2⟩

def skillLine : String := "\x7b\"op\":\"heartbeat\",\"skill\":\"/build\"\x7d"

/-- After a clean bounce the session announces itself and its record shows no skill, although
the journal still has it. -/
theorem bounce_forgets_intent :
    ¬ ∀ (cfg : Config) (fromStr : String → Option ClientMessage) (as bs : List Action)
      (s u t : Daemon) (a : Action) (c : Nat) (sid : String) (pid : Nat) (cwd intent : String)
      (node : Option String), (∀ a ∈ as ++ bs, SaveSucceeds a) →
      run (step cfg fromStr) (start .default [] 0) as = some s →
      durableIntent s.bus sid ≠ ⟨"", "", []⟩ → run (step cfg fromStr) s bs = some u →
      (∃ now, .boot now ∈ bs) → durableIntent u.bus sid = durableIntent s.bus sid →
      step cfg fromStr u a = some t →
      u.transaction cfg fromStr a = some (.announce c sid pid cwd intent node) →
      ∃ r, t.bus.peers.lookup sid = some r ∧ r.stickyIntent = durableIntent s.bus sid := by
  intro h
  let cfg : Config := ⟨60, 1024, 3000, false, "carbon"⟩
  let fromStr := decodeFrom [(announceLine "s1", .announce "s1" 7 "/" "" none),
    (skillLine, .heartbeat "" (some "/build") none none)]
  let as : List Action := [.connect, .line 0 (announceLine "s1") 1, .proceed 0 1 true,
    .line 0 skillLine 2, .proceed 0 2 true, .proceed 0 2 true]
  let bs : List Action := [.shutdown, .drain 0, .proceed 0 3 true, .graceOver, .finalSnapshot,
    .finalSave true, .persistRecv, .persistWake, .persistTryRecv, .persistSnapshot,
    .persistSave true, .persistExit, .finish, .boot 10, .connect]
  have hs : (run (step cfg fromStr) (start .default [] 0) as).map
      (fun s => durableIntent s.bus "s1") = some ⟨"/build", "", []⟩ := by decide
  have hu : (run (step cfg fromStr) (start .default [] 0) (as ++ bs)).bind (fun u =>
      (step cfg fromStr u (.line 0 (announceLine "s1") 11)).map (fun t =>
        (durableIntent u.bus "s1", u.transaction cfg fromStr (.line 0 (announceLine "s1") 11),
          (t.bus.peers.lookup "s1").map PeerRecord.stickyIntent))) =
      some (⟨"/build", "", []⟩, some (.announce 0 "s1" 7 "/" "" none),
        some ⟨"", "", []⟩) := by decide
  obtain ⟨s, hs, hi⟩ := Option.map_eq_some_iff.mp hs
  obtain ⟨u, hu, hq⟩ := Option.bind_eq_some_iff.mp hu
  obtain ⟨t, ht, hq⟩ := Option.map_eq_some_iff.mp hq
  simp only [Prod.mk.injEq] at hq
  rw [run_append, hs, Option.bind_some] at hu
  obtain ⟨r, hr, hri⟩ := h cfg fromStr as bs s u t _ 0 "s1" 7 "/" "" none
    (by simp [as, bs, SaveSucceeds]) hs (by rw [hi]; decide) hu ⟨10, by simp [bs]⟩
    (hq.1.trans hi.symm) ht hq.2.1
  rw [hr, Option.map_some, hri, hi] at hq
  exact absurd hq.2.2 (by decide)

end Agorabus.Intent
