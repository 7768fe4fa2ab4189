import Agorabus.Intent
import Agorabus.Registers

namespace Agorabus

structure StickyIntent.Agrees (i : StickyIntent) (skill prdSlug : Option String)
    (paths : Option (List String)) : Prop where
  skill : ∀ x ∈ skill, i.skill = x
  prdSlug : ∀ x ∈ prdSlug, i.prdSlug = x
  paths : ∀ x ∈ paths, i.workingPaths = x

namespace IntentWrites

open Agorabus Daemon StepSystem Intent Registers

variable {cfg : Config} {fromStr : String → Option ClientMessage} {s t : Daemon} {a : Action}
  {skill prdSlug : Option String} {paths : Option (List String)}

theorem any_ne_iff {α : Type} [DecidableEq α] (o : Option α) (x : α) :
    o.any (fun y => decide (y ≠ x)) = true ↔ ¬ ∀ y ∈ o, x = y := by
  cases o with
  | none => simp
  | some y =>
    rw [Option.any_some, decide_eq_true_eq, ne_comm]
    simp

theorem overlay_agrees (i : StickyIntent) :
    (i.overlay skill prdSlug paths).Agrees skill prdSlug paths :=
  ⟨by rintro x ⟨⟩; rfl, by rintro x ⟨⟩; rfl, by rintro x ⟨⟩; rfl⟩

theorem agrees_iff {i : StickyIntent} : i.Agrees skill prdSlug paths ↔
    (∀ x ∈ skill, i.skill = x) ∧ (∀ x ∈ prdSlug, i.prdSlug = x) ∧
      ∀ x ∈ paths, i.workingPaths = x :=
  ⟨fun h => ⟨h.skill, h.prdSlug, h.paths⟩, fun h => ⟨h.1, h.2.1, h.2.2⟩⟩

theorem changed_iff (r : PeerRecord) : (skill.any (· ≠ r.skill) || prdSlug.any (· ≠ r.prdSlug) ||
    paths.any (· ≠ r.workingPaths)) = true ↔ ¬ r.stickyIntent.Agrees skill prdSlug paths := by
  rw [Bool.or_eq_true, Bool.or_eq_true, any_ne_iff, any_ne_iff, any_ne_iff, agrees_iff,
    not_and_or, not_and_or, or_assoc]
  rfl

theorem durableIntent_written {bus : BusState} {sid tool : String} {now : Nat} {r : PeerRecord}
    (hr : bus.peers.lookup sid = some r) (hn : ¬ r.stickyIntent.Agrees skill prdSlug paths) :
    durableIntent (bus.heartbeat sid tool skill prdSlug paths now).1 sid =
      r.stickyIntent.overlay skill prdSlug paths := by
  have hb : (r.beat tool skill prdSlug paths now).stickyIntent =
      r.stickyIntent.overlay skill prdSlug paths := rfl
  simp only [BusState.heartbeat, hr]
  rw [if_pos ((changed_iff r).mpr hn), ← hb]
  by_cases he : (r.beat tool skill prdSlug paths now).stickyIntent.isEmpty
  · rw [if_pos he, durableIntent]
    dsimp only
    rw [AList.lookup_erase]
    exact ((isEmpty_iff _).mp he).symm
  · rw [if_neg he, durableIntent]
    dsimp only
    rw [AList.lookup_insert]
    rfl

theorem durableIntent_left {bus : BusState} {sid tool : String} {now : Nat}
    (h : ∀ r, bus.peers.lookup sid = some r → r.stickyIntent.Agrees skill prdSlug paths) :
    durableIntent (bus.heartbeat sid tool skill prdSlug paths now).1 sid =
      durableIntent bus sid := by
  cases hr : bus.peers.lookup sid with
  | none => simp only [BusState.heartbeat, hr]
  | some r =>
    simp only [BusState.heartbeat, hr]
    rw [if_neg (fun hc => (changed_iff r).mp hc (h r hr))]
    rfl

/-- The daemon takes a heartbeat of the session and goes on to answer it with ok. -/
def Acknowledges (cfg : Config) (fromStr : String → Option ClientMessage) (s : Daemon)
    (a : Action) (t : Daemon) (sid tool : String) (skill prdSlug : Option String)
    (paths : Option (List String)) : Prop :=
  step cfg fromStr s a = some t ∧ ∃ c text now k, a = .line c text now ∧
    s.request fromStr a = some (some sid, .heartbeat tool skill prdSlug paths) ∧
    t.conns[c]? = some k ∧ .write (.reply .okEmpty) ∈ k.pending

theorem acknowledges_iff (h : step cfg fromStr s a = some t) {sid tool : String} :
    Acknowledges cfg fromStr s a t sid tool skill prdSlug paths ↔
      s.transaction cfg fromStr a = some (.heartbeat sid tool skill prdSlug paths) := by
  constructor
  · rintro ⟨_, c, text, now, k, rfl, hreq, hk, hok⟩
    obtain ⟨k', hk', _, hmany⟩ := heartbeat_answered h hreq
    obtain rfl : k' = k := Option.some.inj (hk'.symm.trans hk)
    have hfew : tooMany paths = false := by
      cases ht : tooMany paths with
      | false => rfl
      | true =>
        rw [(hmany ht).1] at hok
        simp [Reply.okEmpty, Reply.err] at hok
    rw [tooMany] at hfew
    simp only [transaction, hreq, ClientMessage.transaction, hfew]
    rfl
  · intro htr
    cases transaction_section htr with
    | @message c now text k _ msg _ hk hs ht hm hmsg =>
      obtain ⟨rfl, rfl, hle⟩ := ClientMessage.transaction_heartbeat hmsg
      have hreq : s.request fromStr (.line c text now) =
          some (some sid, .heartbeat tool skill prdSlug paths) := by
        simp [request, hk, ht, hm, hs]
      obtain ⟨k', hk', hok, _⟩ := heartbeat_answered h hreq
      refine ⟨h, c, text, now, k', rfl, hreq, hk', hok ?_⟩
      cases paths with
      | none => rfl
      | some ps => simpa [tooMany] using hle ps rfl

/-- The durable intent of a session has the values of a heartbeat that is answered with ok. -/
def TakesEffect (cfg : Config) (fromStr : String → Option ClientMessage) (s : Daemon)
    (a : Action) : Prop :=
  ∀ t sid tool skill prdSlug paths,
    Acknowledges cfg fromStr s a t sid tool skill prdSlug paths →
    (skill.isSome ∨ prdSlug.isSome ∨ paths.isSome) →
    (durableIntent t.bus sid).Agrees skill prdSlug paths

/-- The session has a record that a value of the heartbeat differs from, or its durable intent has
the values already. -/
def ShowsChange (cfg : Config) (fromStr : String → Option ClientMessage) (s : Daemon)
    (a : Action) : Prop :=
  ∀ sid tool skill prdSlug paths,
    s.transaction cfg fromStr a = some (.heartbeat sid tool skill prdSlug paths) →
    (skill.isSome ∨ prdSlug.isSome ∨ paths.isSome) →
    (∃ r, s.bus.peers.lookup sid = some r ∧ ¬ r.stickyIntent.Agrees skill prdSlug paths) ∨
      (durableIntent s.bus sid).Agrees skill prdSlug paths

theorem takesEffect_iff (h : step cfg fromStr s a = some t) :
    TakesEffect cfg fromStr s a ↔ ShowsChange cfg fromStr s a := by
  have hbus {sid tool : String} {skill prdSlug : Option String} {paths : Option (List String)}
      (htr : s.transaction cfg fromStr a = some (.heartbeat sid tool skill prdSlug paths)) :
      t.bus = (s.bus.heartbeat sid tool skill prdSlug paths t.clock).1 := by
    obtain ⟨now, rfl⟩ | hbus := step_bus h
    · simp [transaction] at htr
    · rw [hbus, htr]
      rfl
  constructor
  · intro ht sid tool skill prdSlug paths htr hgiven
    have ht := ht t sid tool skill prdSlug paths ((acknowledges_iff h).mpr htr) hgiven
    by_cases hr : ∃ r, s.bus.peers.lookup sid = some r ∧
      ¬ r.stickyIntent.Agrees skill prdSlug paths
    · exact Or.inl hr
    · rw [hbus htr, durableIntent_left (fun r hl => not_not.mp (fun hn => hr ⟨r, hl, hn⟩))] at ht
      exact Or.inr ht
  · intro hs u sid tool skill prdSlug paths hack hgiven
    obtain rfl : t = u := Option.some.inj (h.symm.trans hack.1)
    have htr := (acknowledges_iff h).mp hack
    rw [hbus htr]
    by_cases hr : ∃ r, s.bus.peers.lookup sid = some r ∧
      ¬ r.stickyIntent.Agrees skill prdSlug paths
    · obtain ⟨r, hl, hn⟩ := hr
      rw [durableIntent_written hl hn]
      exact overlay_agrees _
    · rw [durableIntent_left (fun r hl => not_not.mp (fun hn => hr ⟨r, hl, hn⟩))]
      exact (hs sid tool skill prdSlug paths htr hgiven).resolve_left hr

/-- Along a run every acknowledged heartbeat reaches the durable intent exactly if each finds a
record of its session that shows something else, or finds its values in the durable intent: what
is compared is the record, not the durable intent. -/
theorem takes_effect_iff_shows_change (cfg : Config) (fromStr : String → Option ClientMessage)
    (file : DurableState) (log : List BroadcastMsg) (now : Nat) (as : List Action) :
    Along (step cfg fromStr) (TakesEffect cfg fromStr) (start file log now) as ↔
      Along (step cfg fromStr) (ShowsChange cfg fromStr) (start file log now) as :=
  along_iff_of_invariant (J := fun _ => True) (fun _ _ _ _ _ _ => trivial)
    (fun _ _ _ _ h => takesEffect_iff h) trivial

def clearLine : String := "\x7b\"op\":\"heartbeat\",\"skill\":\"\"\x7d"

/-- After a restart `s1` clears its skill and is told ok; the journal keeps it. -/
theorem cleared_skill_is_kept :
    ¬ ∀ (cfg : Config) (fromStr : String → Option ClientMessage) (file : DurableState)
      (log : List BroadcastMsg) (now : Nat) (as : List Action) (s t : Daemon) (a : Action)
      (sid tool : String) (skill prdSlug : Option String) (paths : Option (List String)),
      run (step cfg fromStr) (start file log now) as = some s →
      Acknowledges cfg fromStr s a t sid tool skill prdSlug paths →
      (skill.isSome ∨ prdSlug.isSome ∨ paths.isSome) →
      (durableIntent t.bus sid).Agrees skill prdSlug paths := by
  intro h
  let cfg : Config := ⟨60, 1024, 3000, false, "carbon"⟩
  let fromStr := decodeFrom [(announceLine "s1", .announce "s1" 7 "/" "" none),
    (clearLine, .heartbeat "" (some "") none none)]
  let file : DurableState := ⟨∅, (∅ : Table String StickyIntent).insert "s1" ⟨"/build", "", []⟩⟩
  let as : List Action := [.connect, .line 0 (announceLine "s1") 1, .proceed 0 1 true]
  let a : Action := .line 0 clearLine 2
  have hr : (run (step cfg fromStr) (start file [] 0) as).bind (fun s =>
      (step cfg fromStr s a).map (fun t => (s.transaction cfg fromStr a,
        durableIntent t.bus "s1"))) =
      some (some (.heartbeat "s1" "" (some "") none none), ⟨"/build", "", []⟩) := by
    decide +kernel
  obtain ⟨s, hs, ht⟩ := Option.bind_eq_some_iff.mp hr
  obtain ⟨t, ht, hq⟩ := Option.map_eq_some_iff.mp ht
  simp only [Prod.mk.injEq] at hq
  have hagrees := h cfg fromStr file [] 0 as s t a "s1" "" (some "") none none hs
    ((acknowledges_iff ht).mpr hq.1) (Or.inl rfl)
  rw [hq.2] at hagrees
  exact absurd (hagrees.skill "" rfl) (by decide)

end IntentWrites

end Agorabus
