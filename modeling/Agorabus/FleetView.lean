import Agorabus.Steps
import Mathlib.Data.List.Sort
import Mathlib.Data.String.Basic

namespace Agorabus.FleetView

open Agorabus Daemon StepSystem

structure FleetKey where
  sessionId : String
  node : String
  deriving DecidableEq

structure FleetEntry where
  record : PeerRecord
  lastSeenUnixSecs : Nat

def mergeKey (p : PeerRecord) : String × Option String := (p.sessionId, p.node)

/-- Remote peers by session and node. Every record shows the key it is under. -/
structure FleetStore where
  entries : Table FleetKey FleetEntry
  ttlSecs : Nat
  keyed : ∀ k e, entries.lookup k = some e → mergeKey e.record = (k.sessionId, some k.node)

namespace FleetStore

def withTtl (ttlSecs : Nat) : FleetStore := ⟨∅, ttlSecs, fun k e h => by cases h⟩

def announce (store : FleetStore) (ev : FleetPresenceEvent) (now : Nat) : FleetStore where
  entries := store.entries.insert ⟨ev.sessionId, ev.node⟩
    ⟨.announced ev.sessionId ev.pid ev.cwd "" (some ev.node) ev.ts, now⟩
  ttlSecs := store.ttlSecs
  keyed := fun k e h => by
    rw [Table.lookup_insert] at h
    split at h
    · rename_i hk
      subst hk
      cases h
      rfl
    · exact store.keyed k e h

def livePeers (store : FleetStore) (now : Nat) : List PeerRecord :=
  ((store.entries.retain (fun _ e => decide (now - e.lastSeenUnixSecs ≤ store.ttlSecs))).values.map
    FleetEntry.record).insertionSort (fun a b =>
      a.node.getD "" < b.node.getD "" ∨
        a.node.getD "" = b.node.getD "" ∧ a.sessionId ≤ b.sessionId)

end FleetStore

/-- Local peers come first; a remote one is dropped if a local one has its session and node. -/
def mergePeers (loc remote : List PeerRecord) : List PeerRecord :=
  loc ++ remote.filter (fun p => decide (mergeKey p ∉ loc.map mergeKey))

def FleetStore.observe (store : FleetStore) (e : ServerEvent × Nat) : FleetStore :=
  if e.1.topic = fleetPresenceSubjectAnnounce then
    (FleetPresenceEvent.fromValue e.1.data).elim store (fun ev => store.announce ev e.2)
  else store

def collectStore (events : List (ServerEvent × Nat)) (ttlSecs : Nat) : FleetStore :=
  events.foldl FleetStore.observe (.withTtl ttlSecs)

def collectFleetPeers (events : List (ServerEvent × Nat)) (ttlSecs now : Nat) : List PeerRecord :=
  (collectStore events ttlSecs).livePeers now

/-- The local peers of a query, without the record of the query itself. -/
def localPeers (sid : String) (bus : BusState) : List PeerRecord :=
  bus.peers.values.filter (fun p => decide (p.sessionId ≠ sid))

/-- A local peer, or a remote one that is on the node itself. -/
def livesOn (n : String) (p : PeerRecord) : Bool := decide (p.node = none ∨ p.node = some n)

/-- The merged list has each session of the node once, and of two records the local one. -/
def MergedOnce (n : String) (loc remote : List PeerRecord) : Prop :=
  (((mergePeers loc remote).filter (livesOn n)).map PeerRecord.sessionId).Nodup ∧
    ∀ r ∈ remote, r.node = some n → (∃ p ∈ loc, p.sessionId = r.sessionId) →
      r ∉ mergePeers loc remote

/-- No remote entry of the node is a local peer. -/
def NoOwnEntry (n : String) (loc remote : List PeerRecord) : Prop :=
  ∀ r ∈ remote, r.node = some n → ∀ p ∈ loc, p.sessionId ≠ r.sessionId

theorem livePeers_perm (store : FleetStore) (now : Nat) : (store.livePeers now).Perm
    ((store.entries.retain (fun _ e =>
      decide (now - e.lastSeenUnixSecs ≤ store.ttlSecs))).values.map FleetEntry.record) :=
  List.perm_insertionSort _ _

def announces (n sid : String) (e : ServerEvent) : Bool :=
  decide (e.topic = fleetPresenceSubjectAnnounce) &&
    (FleetPresenceEvent.fromValue e.data).any (fun ev => ev.node = n && ev.sessionId = sid)

/-- The last event that announces a local peer on the node, if any, is stale. -/
def NoFreshOwnEvent (n : String) (loc : List PeerRecord) (events : List (ServerEvent × Nat))
    (ttlSecs now : Nat) : Prop :=
  ∀ p ∈ loc, ∀ e ∈ events.reverse.find? (fun e => announces n p.sessionId e.1),
    ttlSecs < now - e.2

theorem observe_ttlSecs (store : FleetStore) (e : ServerEvent × Nat) :
    (store.observe e).ttlSecs = store.ttlSecs := by
  unfold FleetStore.observe
  split
  · cases FleetPresenceEvent.fromValue e.1.data <;> rfl
  · rfl

theorem lookup_observe (store : FleetStore) (e : ServerEvent × Nat) (n sid : String) :
    ((store.observe e).entries.lookup ⟨sid, n⟩).map FleetEntry.lastSeenUnixSecs =
      if announces n sid e.1 then some e.2
      else (store.entries.lookup ⟨sid, n⟩).map FleetEntry.lastSeenUnixSecs := by
  unfold FleetStore.observe announces
  by_cases htopic : e.1.topic = fleetPresenceSubjectAnnounce
  · cases hv : FleetPresenceEvent.fromValue e.1.data with
    | none => simp
    | some ev =>
      simp only [htopic, if_true, Option.elim_some, FleetStore.announce, Table.lookup_insert,
        FleetKey.mk.injEq, decide_true, Bool.true_and, Option.any_some]
      by_cases hkey : sid = ev.sessionId ∧ n = ev.node
      · obtain ⟨rfl, rfl⟩ := hkey
        simp only [and_self, if_true, decide_true, Bool.and_self, Option.map_some]
      · have hne : (decide (ev.node = n) && decide (ev.sessionId = sid)) = false := by
          rw [← Bool.decide_and]
          exact decide_eq_false fun h => hkey ⟨h.2.symm, h.1.symm⟩
        simp only [hkey, if_false, hne, Bool.false_eq_true]
  · simp [htopic]

theorem collectStore_ttlSecs (events : List (ServerEvent × Nat)) (ttlSecs : Nat) :
    (collectStore events ttlSecs).ttlSecs = ttlSecs := by
  induction events using List.reverseRecOn with
  | nil => rfl
  | append_singleton events e ih =>
    rw [collectStore, List.foldl_append]
    exact (observe_ttlSecs _ e).trans ih

theorem lookup_collectStore (events : List (ServerEvent × Nat)) (ttlSecs : Nat)
    (n sid : String) :
    ((collectStore events ttlSecs).entries.lookup ⟨sid, n⟩).map FleetEntry.lastSeenUnixSecs =
      (events.reverse.find? (fun e => announces n sid e.1)).map Prod.snd := by
  induction events using List.reverseRecOn with
  | nil => rfl
  | append_singleton events e ih =>
    rw [collectStore, List.foldl_append, List.foldl_cons, List.foldl_nil, lookup_observe,
      ← collectStore, ih, List.reverse_append, List.reverse_singleton, List.singleton_append,
      List.find?_cons]
    cases announces n sid e.1 <;> rfl

theorem mem_livePeers (store : FleetStore) (now : Nat) (n sid : String) :
    (∃ r ∈ store.livePeers now, r.node = some n ∧ r.sessionId = sid) ↔
      ∃ e, store.entries.lookup ⟨sid, n⟩ = some e ∧
        now - e.lastSeenUnixSecs ≤ store.ttlSecs := by
  constructor
  · rintro ⟨r, hr, hn, hsid⟩
    rw [(livePeers_perm store now).mem_iff, List.mem_map] at hr
    obtain ⟨e, he, rfl⟩ := hr
    obtain ⟨k, hk⟩ := (Table.mem_values _ e).mp he
    rw [Table.lookup_retain, Option.filter_eq_some_iff] at hk
    have hkey := store.keyed k e hk.1
    rw [mergeKey, hn, hsid, Prod.mk.injEq, Option.some.injEq] at hkey
    rw [hkey.1, hkey.2]
    exact ⟨e, hk.1, of_decide_eq_true hk.2⟩
  · rintro ⟨e, he, hfresh⟩
    have hkey := store.keyed _ e he
    rw [mergeKey, Prod.mk.injEq] at hkey
    refine ⟨e.record, ?_, hkey.2, hkey.1⟩
    rw [(livePeers_perm store now).mem_iff, List.mem_map]
    refine ⟨e, (Table.mem_values _ e).mpr ⟨⟨sid, n⟩, ?_⟩, rfl⟩
    rw [Table.lookup_retain, Option.filter_eq_some_iff]
    exact ⟨he, decide_eq_true hfresh⟩

theorem noOwnEntry_iff {n : String} {loc : List PeerRecord}
    {events : List (ServerEvent × Nat)} {ttlSecs now : Nat} :
    NoOwnEntry n loc (collectFleetPeers events ttlSecs now) ↔
      NoFreshOwnEvent n loc events ttlSecs now := by
  have hlast (sid : String) := lookup_collectStore events ttlSecs n sid
  constructor
  · intro h p hp e he
    by_contra hstale
    have hentry := hlast p.sessionId
    rw [Option.mem_def.mp he, Option.map_some, Option.map_eq_some_iff] at hentry
    obtain ⟨entry, hentry, hseen⟩ := hentry
    obtain ⟨r, hr, hn, hsid⟩ := (mem_livePeers _ now n p.sessionId).mpr
      ⟨entry, hentry, by rw [hseen, collectStore_ttlSecs]; omega⟩
    exact h r hr hn p hp hsid.symm
  · intro h r hr hn p hp hsid
    obtain ⟨entry, hentry, hfresh⟩ := (mem_livePeers _ now n p.sessionId).mp ⟨r, hr, hn, hsid.symm⟩
    have hfind := hlast p.sessionId
    rw [hentry, Option.map_some] at hfind
    obtain ⟨e, he, hseen⟩ := Option.map_eq_some_iff.mp hfind.symm
    have hstale := h p hp e he
    rw [collectStore_ttlSecs, ← hseen] at hfresh
    omega

theorem livePeers_node {store : FleetStore} {now : Nat} {r : PeerRecord}
    (h : r ∈ store.livePeers now) : r.node ≠ none := by
  rw [(livePeers_perm store now).mem_iff, List.mem_map] at h
  obtain ⟨e, he, rfl⟩ := h
  obtain ⟨k, hk⟩ := (Table.mem_values _ e).mp he
  rw [Table.lookup_retain, Option.filter_eq_some_iff] at hk
  have hkey := store.keyed k e hk.1
  rw [mergeKey, Prod.mk.injEq] at hkey
  rw [hkey.2]
  exact nofun

theorem livePeers_nodup (store : FleetStore) (now : Nat) :
    ((store.livePeers now).map mergeKey).Nodup := by
  rw [((livePeers_perm store now).map mergeKey).nodup_iff, List.map_map]
  let key (k : String × Option String) : FleetKey := ⟨k.1, k.2.getD ""⟩
  refine List.Nodup.of_map key ?_
  rw [List.map_map]
  refine Table.nodup_map_values fun k e he => ?_
  rw [Table.lookup_retain, Option.filter_eq_some_iff] at he
  rw [Function.comp_apply, Function.comp_apply, store.keyed k e he.1]
  rfl

theorem mergePeers_untagged {loc remote : List PeerRecord} (hl : ∀ p ∈ loc, p.node = none)
    (hr : ∀ r ∈ remote, r.node ≠ none) : mergePeers loc remote = loc ++ remote := by
  rw [mergePeers, List.filter_eq_self.mpr]
  intro r hm
  rw [decide_eq_true_eq, List.mem_map]
  rintro ⟨p, hp, he⟩
  rw [mergeKey, mergeKey, Prod.mk.injEq, hl p hp] at he
  exact hr r hm he.2.symm

theorem mergedOnce_iff {n : String} {loc remote : List PeerRecord}
    (hl : ∀ p ∈ loc, p.node = none) (hr : ∀ r ∈ remote, r.node ≠ none)
    (hloc : (loc.map PeerRecord.sessionId).Nodup) (hremote : (remote.map mergeKey).Nodup) :
    MergedOnce n loc remote ↔ NoOwnEntry n loc remote := by
  have hmem : ∀ r ∈ remote.filter (livesOn n), r ∈ remote ∧ r.node = some n := by
    intro r hm
    obtain ⟨hm, hlives⟩ := List.mem_filter.mp hm
    obtain hn | hn := of_decide_eq_true hlives
    · exact absurd hn (hr r hm)
    · exact ⟨hm, hn⟩
  have hown : ((remote.filter (livesOn n)).map PeerRecord.sessionId).Nodup := by
    refine List.Nodup.of_map (fun sid => (sid, some n)) ?_
    rw [List.map_map]
    have hkey : (remote.filter (livesOn n)).map ((fun sid => (sid, some n)) ∘
        PeerRecord.sessionId) = (remote.filter (livesOn n)).map mergeKey :=
      List.map_congr_left fun r hm => by rw [mergeKey, (hmem r hm).2]; rfl
    rw [hkey]
    exact hremote.sublist (List.filter_sublist.map _)
  have hfilter : loc.filter (livesOn n) = loc :=
    List.filter_eq_self.mpr fun p hp => decide_eq_true (Or.inl (hl p hp))
  rw [MergedOnce, mergePeers_untagged hl hr, List.filter_append, hfilter, List.map_append,
    List.nodup_append]
  constructor
  · rintro ⟨⟨_, _, hdisjoint⟩, _⟩ r hm hn p hp he
    have hlives : r ∈ remote.filter (livesOn n) :=
      List.mem_filter.mpr ⟨hm, decide_eq_true (Or.inr hn)⟩
    exact hdisjoint _ (List.mem_map_of_mem hp) _ (List.mem_map_of_mem hlives) he
  · intro hno
    refine ⟨⟨hloc, hown, ?_⟩, ?_⟩
    · intro a ha b hb
      obtain ⟨p, hp, rfl⟩ := List.mem_map.mp ha
      obtain ⟨r, hm, rfl⟩ := List.mem_map.mp hb
      exact hno r (hmem r hm).1 (hmem r hm).2 p hp
    · rintro r hm hn ⟨p, hp, he⟩
      exact absurd he (hno r hm hn p hp)

def Named (s : Daemon) : Prop := ∀ sid r, s.bus.peers.lookup sid = some r → r.sessionId = sid

section Run

variable {cfg : Config} {fromStr : String → Option ClientMessage} {s t : Daemon} {a : Action}

theorem named_step (hs : Named s) (h : step cfg fromStr s a = some t) : Named t := by
  intro sid r hr
  obtain ⟨now, rfl⟩ | hbus := step_bus h
  · obtain ⟨_, _, rfl⟩ := step_boot.mp h
    cases hr
  · rw [hbus] at hr
    cases htr : s.transaction cfg fromStr a with
    | none =>
      rw [htr] at hr
      exact hs sid r hr
    | some tr =>
      rw [htr] at hr
      obtain ⟨c, pid, cwd, intent, node, _, _, rfl⟩ | ⟨r₀, hr₀, hrev⟩ :=
        BusState.lookup_apply_peers hr
      · rfl
      · exact hrev.sessionId.trans (hs sid r₀ hr₀)

theorem localPeers_nodup (hs : Named s) (sid : String) :
    ((localPeers sid s.bus).map PeerRecord.sessionId).Nodup :=
  (Table.nodup_map_values hs).sublist (List.filter_sublist.map _)

end Run

/-- The list shows each session of the node once exactly if no local peer has been announced
on the node in the collected events, other than in ones that are stale by now. -/
theorem merged_once_iff_no_own_event (cfg : Config) (fromStr : String → Option ClientMessage)
    (file : DurableState) (log : List BroadcastMsg) (now : Nat) (as : List Action) (t : Daemon)
    (sid : String) (events : List (ServerEvent × Nat)) (ttlSecs later : Nat)
    (hr : run (step cfg fromStr) (start file log now) as = some t)
    (hl : ∀ p ∈ t.bus.peers.values, p.node = none) :
    MergedOnce cfg.node (localPeers sid t.bus) (collectFleetPeers events ttlSecs later) ↔
      NoFreshOwnEvent cfg.node (localPeers sid t.bus) events ttlSecs later := by
  have hnamed : Named t :=
    run_invariant (fun _ _ _ hs h => named_step hs h) hr (fun _ _ h => by cases h)
  rw [← noOwnEntry_iff]
  exact mergedOnce_iff (fun p hp => hl p (List.mem_of_mem_filter hp))
    (fun r hr => livePeers_node hr) (localPeers_nodup hnamed sid) (livePeers_nodup ..)

def uplinkConfig : Config := ⟨60, 1024, 3000, true, "carbon"⟩

def announceStep : Daemon → Action → Option Daemon :=
  step uplinkConfig (decodeFrom [(announceLine "s1", .announce "s1" 7 "/" "" none)])

def announced : Option Daemon :=
  run announceStep (start .default [] 0)
    [.connect, .line 0 (announceLine "s1") 1, .proceed 0 1 true]

theorem merged_once_other_node :
    ∃ t, announced = some t ∧
      MergedOnce "carbon" (localPeers "cli" t.bus) (collectFleetPeers
        [(⟨fleetPresenceSubjectAnnounce, FleetPresenceEvent.toValue ⟨"s1", 9, "/", "testb", 2⟩,
          "uplink:testb"⟩, 2)] fleetPeerTtlSecs 3) := by
  have hrun : announced.map (fun t => decide ((∀ p ∈ t.bus.peers.values, p.node = none) ∧
      ∀ p ∈ localPeers "cli" t.bus, p.sessionId = "s1")) = some true := by decide +kernel
  obtain ⟨t, ht, hp⟩ := Option.map_eq_some_iff.mp hrun
  obtain ⟨hnode, hsid⟩ := of_decide_eq_true hp
  refine ⟨t, ht, ?_⟩
  refine (merged_once_iff_no_own_event uplinkConfig _ .default [] 0 _ t "cli" _ _ 3 ht
    hnode).mpr fun p hp e he => ?_
  rw [hsid p hp] at he
  revert e
  decide +kernel

/-- The presence broadcaster tells the query of the daemon's own session under its node. -/
theorem own_session_listed_twice :
    ¬ ∀ (cfg : Config) (fromStr : String → Option ClientMessage) (file : DurableState)
      (log : List BroadcastMsg) (now : Nat) (as bs : List Action) (t u : Daemon) (sid : String)
      (events : List (ServerEvent × Nat)) (ttlSecs later : Nat), cfg.uplinkEnabled = true →
      run (step cfg fromStr) (start file log now) as = some t →
      (∀ p ∈ t.bus.peers.values, p.node = none) →
      run (step cfg fromStr) t bs = some u →
      (∀ e ∈ events, ∃ m ∈ u.log.drop t.log.length, e.1 = m.toEvent) →
      MergedOnce cfg.node (localPeers sid t.bus) (collectFleetPeers events ttlSecs later) := by
  intro h
  have hrun : announced.bind (fun t => (run announceStep t [.presenceTick, .presenceSend 2]).map
      (fun u => (decide (∀ p ∈ t.bus.peers.values, p.node = none),
        ((mergePeers (localPeers "cli" t.bus) (collectFleetPeers
          ((u.log.drop t.log.length).map (fun m => (m.toEvent, 2))) fleetPeerTtlSecs 3)).filter
            (livesOn "carbon")).map PeerRecord.sessionId))) =
      some (true, ["s1", "s1"]) := by decide +kernel
  obtain ⟨t, ht, hrun⟩ := Option.bind_eq_some_iff.mp hrun
  obtain ⟨u, hu, he⟩ := Option.map_eq_some_iff.mp hrun
  simp only [Prod.mk.injEq, decide_eq_true_eq] at he
  have hevents : ∀ e ∈ (u.log.drop t.log.length).map (fun m => (m.toEvent, 2)),
      ∃ m ∈ u.log.drop t.log.length, e.1 = m.toEvent := by
    intro e he
    obtain ⟨m, hm, rfl⟩ := List.mem_map.mp he
    exact ⟨m, hm, rfl⟩
  have hnodup := (h uplinkConfig _ .default [] 0 _ _ t u "cli" _ fleetPeerTtlSecs 3 rfl ht he.1
    hu hevents).1
  rw [show uplinkConfig.node = "carbon" from rfl, he.2] at hnodup
  exact absurd hnodup (by decide)

end Agorabus.FleetView
