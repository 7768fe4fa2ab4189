import Agorabus.FleetView
import Mathlib.Data.Prod.Lex

namespace Agorabus.FleetView

def FleetStore.remove (store : FleetStore) (sessionId node : String) : FleetStore where
  entries := store.entries.erase ⟨sessionId, node⟩
  ttlSecs := store.ttlSecs
  keyed := fun k e h => by
    rw [Table.lookup_erase] at h
    split at h
    · cases h
    · exact store.keyed k e h

/-- A call on the store; an announcement has the reading of the clock with it. -/
inductive StoreOp where
  | announce (ev : FleetPresenceEvent) (now : Nat)
  | remove (sessionId node : String)

def StoreOp.key : StoreOp → FleetKey
  | announce ev _ => ⟨ev.sessionId, ev.node⟩
  | remove sessionId node => ⟨sessionId, node⟩

/-- The entry that the call leaves under its key. -/
def StoreOp.entry? : StoreOp → Option FleetEntry
  | announce ev now =>
      some ⟨.announced ev.sessionId ev.pid ev.cwd "" (some ev.node) ev.ts, now⟩
  | remove _ _ => none

def FleetStore.apply (store : FleetStore) : StoreOp → FleetStore
  | .announce ev now => store.announce ev now
  | .remove sessionId node => store.remove sessionId node

def storeAfter (ttlSecs : Nat) (ops : List StoreOp) : FleetStore :=
  ops.foldl FleetStore.apply (.withTtl ttlSecs)

def latest (ops : List StoreOp) (k : FleetKey) : Option StoreOp :=
  ops.reverse.find? (fun op => decide (op.key = k))

variable {ops : List StoreOp} {op : StoreOp} {k : FleetKey} {ttlSecs : Nat} {store : FleetStore}

theorem latest_concat (ops : List StoreOp) (op : StoreOp) (k : FleetKey) :
    latest (ops ++ [op]) k = if op.key = k then some op else latest ops k := by
  rw [latest, List.reverse_append, List.reverse_singleton, List.singleton_append, List.find?_cons]
  by_cases hk : op.key = k
  · rw [if_pos hk, decide_eq_true hk]
  · rw [if_neg hk, decide_eq_false hk]
    rfl

theorem storeAfter_concat (ttlSecs : Nat) (ops : List StoreOp) (op : StoreOp) :
    storeAfter ttlSecs (ops ++ [op]) = (storeAfter ttlSecs ops).apply op := by
  rw [storeAfter, List.foldl_append]
  rfl

theorem apply_ttlSecs (store : FleetStore) (op : StoreOp) :
    (store.apply op).ttlSecs = store.ttlSecs := by
  cases op <;> rfl

theorem lookup_apply (store : FleetStore) (op : StoreOp) (k : FleetKey) :
    (store.apply op).entries.lookup k =
      if op.key = k then op.entry? else store.entries.lookup k := by
  cases op with
  | announce ev now =>
    rw [FleetStore.apply, FleetStore.announce, Table.lookup_insert]
    exact if_congr eq_comm rfl rfl
  | remove sessionId node =>
    rw [FleetStore.apply, FleetStore.remove, Table.lookup_erase]
    exact if_congr eq_comm rfl rfl

theorem storeAfter_ttlSecs (ttlSecs : Nat) (ops : List StoreOp) :
    (storeAfter ttlSecs ops).ttlSecs = ttlSecs := by
  induction ops using List.reverseRecOn with
  | nil => rfl
  | append_singleton ops op ih => rw [storeAfter_concat, apply_ttlSecs, ih]

theorem lookup_storeAfter (ttlSecs : Nat) (ops : List StoreOp) (k : FleetKey) :
    (storeAfter ttlSecs ops).entries.lookup k = (latest ops k).bind StoreOp.entry? := by
  induction ops using List.reverseRecOn with
  | nil => rfl
  | append_singleton ops op ih =>
    rw [storeAfter_concat, lookup_apply, latest_concat, ih]
    split <;> rfl

theorem key_of_latest (h : latest ops k = some op) : op.key = k :=
  of_decide_eq_true (List.find?_some (p := fun op : StoreOp => decide (op.key = k)) h)

theorem mem_livePeers_iff {now : Nat} {r : PeerRecord} : r ∈ store.livePeers now ↔
    ∃ k e, store.entries.lookup k = some e ∧ now - e.lastSeenUnixSecs ≤ store.ttlSecs ∧
      e.record = r := by
  rw [(livePeers_perm store now).mem_iff, List.mem_map]
  constructor
  · rintro ⟨e, he, rfl⟩
    obtain ⟨k, hk⟩ := (Table.mem_values _ e).mp he
    rw [Table.lookup_retain, Option.filter_eq_some_iff] at hk
    exact ⟨k, e, hk.1, of_decide_eq_true hk.2, rfl⟩
  · rintro ⟨k, e, he, hfresh, rfl⟩
    refine ⟨e, (Table.mem_values _ e).mpr ⟨k, ?_⟩, rfl⟩
    rw [Table.lookup_retain, Option.filter_eq_some_iff]
    exact ⟨he, decide_eq_true hfresh⟩

theorem mem_livePeers_storeAfter {now : Nat} {r : PeerRecord} :
    r ∈ (storeAfter ttlSecs ops).livePeers now ↔
      ∃ ev seen, latest ops ⟨ev.sessionId, ev.node⟩ = some (.announce ev seen) ∧
        now - seen ≤ ttlSecs ∧
        r = .announced ev.sessionId ev.pid ev.cwd "" (some ev.node) ev.ts := by
  rw [mem_livePeers_iff, storeAfter_ttlSecs]
  constructor
  · rintro ⟨k, e, he, hfresh, rfl⟩
    rw [lookup_storeAfter, Option.bind_eq_some_iff] at he
    obtain ⟨op, hop, he⟩ := he
    obtain rfl := key_of_latest hop
    cases op with
    | announce ev seen =>
      cases he
      exact ⟨ev, seen, hop, hfresh, rfl⟩
    | remove sessionId node => cases he
  · rintro ⟨ev, seen, hop, hfresh, rfl⟩
    have he : (storeAfter ttlSecs ops).entries.lookup ⟨ev.sessionId, ev.node⟩ =
        some ⟨.announced ev.sessionId ev.pid ev.cwd "" (some ev.node) ev.ts, seen⟩ := by
      rw [lookup_storeAfter, hop]
      rfl
    exact ⟨_, _, he, hfresh, rfl⟩

/-- What the records are sorted by. -/
def sortKey (p : PeerRecord) : String ×ₗ String := toLex (p.node.getD "", p.sessionId)

theorem sortKey_le (a b : PeerRecord) : sortKey a ≤ sortKey b ↔
    a.node.getD "" < b.node.getD "" ∨
      a.node.getD "" = b.node.getD "" ∧ a.sessionId ≤ b.sessionId :=
  Prod.Lex.toLex_le_toLex

theorem sortKey_lt (a b : PeerRecord) : sortKey a < sortKey b ↔
    a.node.getD "" < b.node.getD "" ∨
      a.node.getD "" = b.node.getD "" ∧ a.sessionId < b.sessionId :=
  Prod.Lex.toLex_lt_toLex

theorem mergeKey_eq {a b : PeerRecord} (ha : a.node ≠ none) (hb : b.node ≠ none)
    (h : sortKey a = sortKey b) : mergeKey a = mergeKey b := by
  obtain ⟨m, hm⟩ := Option.ne_none_iff_exists'.mp ha
  obtain ⟨n, hn⟩ := Option.ne_none_iff_exists'.mp hb
  rw [sortKey, sortKey, hm, hn] at h
  obtain ⟨hnode, hsid⟩ := Prod.mk.inj (toLex.injective h)
  rw [mergeKey, mergeKey, hm, hn, hsid]
  exact congrArg (fun n => (b.sessionId, some n)) hnode

theorem livePeers_sorted (store : FleetStore) (now : Nat) :
    (store.livePeers now).Pairwise (fun a b => sortKey a < sortKey b) := by
  let le (a b : PeerRecord) : Prop := a.node.getD "" < b.node.getD "" ∨
    a.node.getD "" = b.node.getD "" ∧ a.sessionId ≤ b.sessionId
  have htotal : Std.Total le := ⟨fun a b =>
    (le_total (sortKey a) (sortKey b)).imp (sortKey_le a b).mp (sortKey_le b a).mp⟩
  have htrans : IsTrans PeerRecord le := ⟨fun a b c hab hbc =>
    (sortKey_le a c).mp (((sortKey_le a b).mpr hab).trans ((sortKey_le b c).mpr hbc))⟩
  have hsorted : (store.livePeers now).Pairwise le := List.pairwise_insertionSort le _
  have hdistinct := List.pairwise_map.mp (livePeers_nodup store now)
  refine (hsorted.and hdistinct).imp_of_mem (fun {a b} ha hb hab => ?_)
  refine lt_of_le_of_ne ((sortKey_le a b).mpr hab.1) (fun he => hab.2 ?_)
  exact mergeKey_eq (livePeers_node ha) (livePeers_node hb) he

/-- The merge as a loop over the remote records, with the keys of the local ones at hand. -/
theorem mergePeers_loop (loc remote : List PeerRecord) : mergePeers loc remote =
    remote.foldl (fun merged p =>
      if mergeKey p ∈ loc.map mergeKey then merged else merged ++ [p]) loc := by
  induction remote using List.reverseRecOn with
  | nil => exact List.append_nil loc
  | append_singleton remote p ih =>
    rw [List.foldl_append, ← ih, List.foldl_cons, List.foldl_nil, mergePeers, mergePeers,
      List.filter_append]
    split
    · rename_i hp
      rw [List.filter_singleton, decide_eq_false (not_not_intro hp)]
      exact congrArg (loc ++ ·) (List.append_nil _)
    · rename_i hp
      rw [List.filter_singleton, decide_eq_true hp, ← List.append_assoc]
      rfl

theorem mergePeers_nodup {loc remote : List PeerRecord} (hl : (loc.map mergeKey).Nodup)
    (hr : (remote.map mergeKey).Nodup) : ((mergePeers loc remote).map mergeKey).Nodup := by
  rw [mergePeers, List.map_append, List.nodup_append]
  refine ⟨hl, hr.sublist (List.filter_sublist.map _), fun a ha b hb => ?_⟩
  obtain ⟨p, hp, rfl⟩ := List.mem_map.mp hb
  have hfresh := of_decide_eq_true (List.mem_filter.mp hp).2
  intro he
  rw [he] at ha
  exact hfresh ha

/-- The store lists a record for each key whose latest call is an announcement that is not stale,
with what was announced, in order. A merge keeps the local records and adds those that have no
local one with their key, in the same order. -/
theorem fleet_view_exact (ttlSecs now : Nat) (ops : List StoreOp) {loc : List PeerRecord}
    (hl : (loc.map mergeKey).Nodup) :
    (∀ r, r ∈ (storeAfter ttlSecs ops).livePeers now ↔
      ∃ ev seen, latest ops ⟨ev.sessionId, ev.node⟩ = some (.announce ev seen) ∧
        now - seen ≤ ttlSecs ∧
        r = .announced ev.sessionId ev.pid ev.cwd "" (some ev.node) ev.ts) ∧
      (((storeAfter ttlSecs ops).livePeers now).map mergeKey).Nodup ∧
      ((storeAfter ttlSecs ops).livePeers now).Pairwise (fun a b =>
        a.node.getD "" < b.node.getD "" ∨
          a.node.getD "" = b.node.getD "" ∧ a.sessionId < b.sessionId) ∧
      ∃ added, mergePeers loc ((storeAfter ttlSecs ops).livePeers now) = loc ++ added ∧
        added.Sublist ((storeAfter ttlSecs ops).livePeers now) ∧
        (∀ r, r ∈ added ↔ r ∈ (storeAfter ttlSecs ops).livePeers now ∧
          mergeKey r ∉ loc.map mergeKey) ∧
        ((mergePeers loc ((storeAfter ttlSecs ops).livePeers now)).map mergeKey).Nodup := by
  refine ⟨fun r => mem_livePeers_storeAfter, livePeers_nodup _ now, ?_, _, rfl,
    List.filter_sublist, fun r => ?_, mergePeers_nodup hl (livePeers_nodup _ now)⟩
  · exact (livePeers_sorted _ now).imp (fun {a b} h => (sortKey_lt a b).mp h)
  · rw [List.mem_filter, decide_eq_true_eq]

def storeOps : List StoreOp :=
  [.announce ⟨"s1", 7, "/", "testb", 90⟩ 100, .announce ⟨"s1", 8, "/w", "testb", 91⟩ 70,
    .announce ⟨"s2", 9, "/", "carbon", 92⟩ 100, .remove "s2" "carbon",
    .announce ⟨"s1", 5, "/", "carbon", 93⟩ 100]

theorem fleet_view_exact_refreshed :
    PeerRecord.announced "s1" 8 "/w" "" (some "testb") 91 ∈
        (storeAfter 30 storeOps).livePeers 100 ∧
      PeerRecord.announced "s1" 8 "/w" "" (some "testb") 91 ∉
        (storeAfter 29 storeOps).livePeers 100 ∧
      ∃ added, mergePeers [.announced "s1" 5 "/" "" none 99]
          ((storeAfter 30 storeOps).livePeers 100) =
        .announced "s1" 5 "/" "" none 99 :: added := by
  have hl : (([.announced "s1" 5 "/" "" none 99] : List PeerRecord).map mergeKey).Nodup := by
    decide
  have hlatest : latest storeOps ⟨"s1", "testb"⟩ =
      some (.announce ⟨"s1", 8, "/w", "testb", 91⟩ 70) := by rfl
  obtain ⟨hmem, _, _, added, hmerge, _⟩ := fleet_view_exact 30 100 storeOps hl
  refine ⟨(hmem _).mpr ⟨⟨"s1", 8, "/w", "testb", 91⟩, 70, hlatest, by decide, rfl⟩,
    fun h => ?_, added, hmerge⟩
  obtain ⟨ev, seen, hev, hfresh, he⟩ := ((fleet_view_exact 29 100 storeOps hl).1 _).mp h
  have hsid : ev.sessionId = "s1" := (congrArg PeerRecord.sessionId he).symm
  have hnode : ev.node = "testb" := (Option.some.inj (congrArg PeerRecord.node he)).symm
  rw [hsid, hnode, hlatest] at hev
  cases hev
  exact absurd hfresh (by decide)

end Agorabus.FleetView
