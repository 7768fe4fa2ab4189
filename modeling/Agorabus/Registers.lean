import Agorabus.Ownership

namespace Agorabus

structure Beat where
  tool : String
  skill : Option String
  prdSlug : Option String
  workingPaths : Option (List String)
  deriving DecidableEq

def Beat.named (b : Beat) : Option String := if b.tool.isEmpty then none else some b.tool

namespace Registers

open Agorabus Daemon StepSystem Ownership

variable {cfg : Config} {fromStr : String → Option ClientMessage} {s t : Daemon} {a : Action}

/-- What a register shows after some messages, each of which may set it: the value set last. -/
def lastGiven {α : Type} (initial : α) (ws : List (Option α)) : α :=
  (ws.filterMap id).getLast?.getD initial

theorem lastGiven_concat {α : Type} (initial : α) (ws : List (Option α)) (w : Option α) :
    lastGiven initial (ws ++ [w]) = w.getD (lastGiven initial ws) := by
  cases w <;> simp [lastGiven]

def tooMany (workingPaths : Option (List String)) : Bool :=
  workingPaths.any (fun ps => decide (maxWorkingPaths < ps.length))

/-- The heartbeat of a session that a step accepts. -/
def beats (fromStr : String → Option ClientMessage) (sid : String) (s : Daemon) (a : Action) :
    List Beat :=
  match s.request fromStr a with
  | some (some sid', .heartbeat tool skill prdSlug workingPaths) =>
      if sid = sid' ∧ tooMany workingPaths = false then [⟨tool, skill, prdSlug, workingPaths⟩]
      else []
  | _ => []

theorem beats_eq (cfg : Config) (sid : String) : beats fromStr sid s a =
    match s.transaction cfg fromStr a with
    | some (.heartbeat sid' tool skill prdSlug workingPaths) =>
        if sid = sid' then [⟨tool, skill, prdSlug, workingPaths⟩] else []
    | _ => [] := by
  cases a with
  | line c text now =>
    simp only [beats, transaction]
    cases s.request fromStr (.line c text now) with
    | none => rfl
    | some p =>
      obtain ⟨o, msg⟩ := p
      cases o with
      | none => cases msg <;> rfl
      | some sid' =>
        cases msg with
        | heartbeat tool skill prdSlug paths =>
          cases ht : tooMany paths <;>
            simp [ClientMessage.transaction, ht, show paths.any _ = _ from ht]
        | _ => rfl
  | proceed c now ok =>
    change [] = _
    split
    · rename_i h
      cases transaction_section h
    · rfl
  | _ => rfl

structure Shows (bs : List Beat) (r : PeerRecord) : Prop where
  skill : r.skill = lastGiven "" (bs.map Beat.skill)
  prdSlug : r.prdSlug = lastGiven "" (bs.map Beat.prdSlug)
  workingPaths : r.workingPaths = lastGiven [] (bs.map Beat.workingPaths)
  lastTool : r.lastTool = lastGiven "" (bs.map Beat.named)

theorem shows_announced (sid : String) (pid : Nat) (cwd intent : String) (node : Option String)
    (now : Nat) : Shows [] (.announced sid pid cwd intent node now) :=
  ⟨rfl, rfl, rfl, rfl⟩

theorem Shows.beat {bs : List Beat} {r r' : PeerRecord} (hs : Shows bs r) {sid tool : String}
    {skill prdSlug : Option String} {paths : Option (List String)}
    (hr : Transaction.Revises (.heartbeat sid tool skill prdSlug paths) sid r r') :
    Shows (bs ++ [⟨tool, skill, prdSlug, paths⟩]) r' := by
  have hi : r'.stickyIntent = r.stickyIntent.overlay skill prdSlug paths :=
    hr.intent.trans (if_pos rfl)
  have ht : r'.lastTool = if tool.isEmpty then r.lastTool else tool := hr.tool.trans (if_pos rfl)
  constructor
  · rw [List.map_append, List.map_singleton, lastGiven_concat, ← hs.skill]
    exact congrArg StickyIntent.skill hi
  · rw [List.map_append, List.map_singleton, lastGiven_concat, ← hs.prdSlug]
    exact congrArg StickyIntent.prdSlug hi
  · rw [List.map_append, List.map_singleton, lastGiven_concat, ← hs.workingPaths]
    exact congrArg StickyIntent.workingPaths hi
  · rw [List.map_append, List.map_singleton, lastGiven_concat, ← hs.lastTool, ht, Beat.named]
    cases tool.isEmpty <;> rfl

theorem Shows.kept {bs : List Beat} {r r' : PeerRecord} (hs : Shows bs r)
    (hi : r'.stickyIntent = r.stickyIntent) (ht : r'.lastTool = r.lastTool) : Shows bs r' :=
  ⟨(congrArg StickyIntent.skill hi).trans hs.skill,
    (congrArg StickyIntent.prdSlug hi).trans hs.prdSlug,
    (congrArg StickyIntent.workingPaths hi).trans hs.workingPaths, ht.trans hs.lastTool⟩

theorem shows_step {bs : List Beat} {sid : String} {r r' : PeerRecord} {tr : Transaction}
    (hs : Shows bs r) (htr : s.transaction cfg fromStr a = some tr) (hr : tr.Revises sid r r') :
    Shows (bs ++ beats fromStr sid s a) r' := by
  rw [beats_eq cfg, htr]
  cases tr with
  | heartbeat sid' tool skill prdSlug paths =>
    dsimp only
    by_cases he : sid = sid'
    · subst he
      rw [if_pos rfl]
      exact hs.beat hr
    · rw [if_neg he, List.append_nil]
      exact hs.kept (hr.intent.trans (if_neg he)) (hr.tool.trans (if_neg he))
  | _ =>
    rw [List.append_nil]
    exact hs.kept hr.intent hr.tool

theorem shows_run {sid : String} {as : List Action} (hreg : Registered s) {r : PeerRecord}
    (hr : s.bus.peers.lookup sid = some r) (hs : Shows [] r)
    (hp : Along (step cfg fromStr) (fun s _ => sid ∈ s.bus.peers) s as)
    (h : run (step cfg fromStr) s as = some t) {r' : PeerRecord}
    (hr' : t.bus.peers.lookup sid = some r') :
    Shows (trace (step cfg fromStr) (beats fromStr sid) s as) r' := by
  have hinv : Registered t ∧ ∀ r, t.bus.peers.lookup sid = some r →
      Shows ([] ++ trace (step cfg fromStr) (beats fromStr sid) s as) r := by
    refine run_trace_invariant (I := fun s bs => Registered s ∧
      ∀ r, s.bus.peers.lookup sid = some r → Shows bs r) ?_ hp h ⟨hreg, ?_⟩
    · rintro u a v bs ⟨hreg, hu⟩ hin hv
      refine ⟨registered_step hreg hv, fun r hr => ?_⟩
      obtain ⟨now, rfl⟩ | hbus := step_bus hv
      · obtain ⟨_, _, rfl⟩ := step_boot.mp hv
        cases hr
      rw [hbus] at hr
      cases htr : u.transaction cfg fromStr a with
      | none =>
        rw [htr] at hr
        rw [beats_eq cfg, htr, List.append_nil]
        exact hu r hr
      | some tr =>
        rw [htr] at hr
        obtain ⟨_, _, _, _, _, _, hn, _⟩ | ⟨r₀, hr₀, hrev⟩ := BusState.lookup_apply_peers hr
        · exact absurd (hreg.2 sid hin) hn
        · exact shows_step (hu r₀ hr₀) htr hrev
    · intro r₀ hr₀
      obtain rfl : r = r₀ := Option.some.inj (hr.symm.trans hr₀)
      exact hs
  exact hinv.2 r' hr'

theorem shows_created {sid : String} (h : step cfg fromStr s a = some t)
    (hn : sid ∉ s.bus.peers) {r : PeerRecord} (hr : t.bus.peers.lookup sid = some r) :
    Shows [] r := by
  obtain ⟨now, rfl⟩ | hbus := step_bus h
  · obtain ⟨_, _, rfl⟩ := step_boot.mp h
    cases hr
  rw [hbus] at hr
  have absent {r₀ : PeerRecord} (hr₀ : s.bus.peers.lookup sid = some r₀) : False :=
    hn ((Table.mem_iff_lookup _ _).mpr (by simp [hr₀]))
  cases htr : s.transaction cfg fromStr a with
  | none =>
    rw [htr] at hr
    exact (absent hr).elim
  | some tr =>
    rw [htr] at hr
    obtain ⟨_, pid, cwd, intent, node, _, _, rfl⟩ | ⟨r₀, hr₀, _⟩ := BusState.lookup_apply_peers hr
    · exact shows_announced ..
    · exact (absent hr₀).elim

/-- No record has more working paths than a heartbeat may give. -/
def Bounded (s : Daemon) : Prop :=
  ∀ sid r, s.bus.peers.lookup sid = some r → r.workingPaths.length ≤ maxWorkingPaths

theorem bounded_step (hs : Bounded s) (h : step cfg fromStr s a = some t) : Bounded t := by
  intro sid r hr
  obtain ⟨now, rfl⟩ | hbus := step_bus h
  · obtain ⟨_, _, rfl⟩ := step_boot.mp h
    cases hr
  rw [hbus] at hr
  cases htr : s.transaction cfg fromStr a with
  | none =>
    rw [htr] at hr
    exact hs sid r hr
  | some tr =>
    rw [htr] at hr
    obtain ⟨_, _, _, _, _, _, _, rfl⟩ | ⟨r₀, hr₀, hrev⟩ := BusState.lookup_apply_peers hr
    · exact Nat.zero_le _
    · have hi := congrArg StickyIntent.workingPaths hrev.intent
      have hold : r₀.workingPaths.length ≤ maxWorkingPaths := hs sid r₀ hr₀
      change r.workingPaths = _ at hi
      rw [hi]
      cases tr with
      | heartbeat sid' tool skill prdSlug paths =>
        rw [Transaction.overlay]
        split
        · cases transaction_section htr with
          | message _ _ _ _ hmsg =>
            obtain ⟨_, _, hle⟩ := ClientMessage.transaction_heartbeat hmsg
            cases paths with
            | none => exact hold
            | some ps => exact hle ps rfl
        · exact hold
      | _ => exact hold

theorem heartbeat_answered {c now : Nat} {text sid tool : String} {skill prdSlug : Option String}
    {paths : Option (List String)} (h : step cfg fromStr s (.line c text now) = some t)
    (hreq : s.request fromStr (.line c text now) =
      some (some sid, .heartbeat tool skill prdSlug paths)) :
    ∃ k, t.conns[c]? = some k ∧
      (tooMany paths = false → .write (.reply .okEmpty) ∈ k.pending) ∧
      (tooMany paths = true →
        k.pending = [.write (.reply (.err "too_many_paths"))] ∧ t.bus = s.bus ∧
          t.log = s.log ∧ t.signals = s.signals) := by
  obtain ⟨k, hk, _, _, hline, rfl⟩ := step_request h hreq
  refine ⟨_, getElem?_set_conn hk _, ?_, ?_⟩
  · intro hle
    rw [tooMany] at hle
    rw [hline]
    simp [handleMessage, hle]
  · intro hlt
    rw [tooMany] at hlt
    simp only [takeLine, hline]
    simp [handleMessage, hlt, answer]

/-- The fields of a record are sticky registers: each shows what the last heartbeat that its
session has had accepted since the record was made has set it to. A heartbeat with too many paths
sets nothing, and no record ever has more. -/
theorem sticky_registers (cfg : Config) (fromStr : String → Option ClientMessage)
    (file : DurableState) (log : List BroadcastMsg) (now : Nat) (as : List Action) (s : Daemon)
    (hr : run (step cfg fromStr) (start file log now) as = some s) :
    (∀ sid r, s.bus.peers.lookup sid = some r → r.workingPaths.length ≤ maxWorkingPaths) ∧
    (∀ c text now t sid tool skill prdSlug paths, step cfg fromStr s (.line c text now) = some t →
      s.request fromStr (.line c text now) =
        some (some sid, .heartbeat tool skill prdSlug paths) →
      ∃ k, t.conns[c]? = some k ∧
        (tooMany paths = false → .write (.reply .okEmpty) ∈ k.pending) ∧
        (tooMany paths = true →
          k.pending = [.write (.reply (.err "too_many_paths"))] ∧ t.bus = s.bus ∧
            t.log = s.log ∧ t.signals = s.signals)) ∧
    ∀ sid a u bs t r, step cfg fromStr s a = some u → sid ∉ s.bus.peers → sid ∈ u.bus.peers →
      Along (step cfg fromStr) (fun v _ => sid ∈ v.bus.peers) u bs →
      run (step cfg fromStr) u bs = some t → t.bus.peers.lookup sid = some r →
      Shows (trace (step cfg fromStr) (beats fromStr sid) u bs) r := by
  have hreg : Registered s :=
    run_invariant (fun _ _ _ hs h => registered_step hs h) hr (registered_start file log now)
  have hbound : Bounded s :=
    run_invariant (fun _ _ _ hs h => bounded_step hs h) hr (fun _ _ hl => nomatch hl)
  refine ⟨hbound, fun _ _ _ _ _ _ _ _ _ h hreq => heartbeat_answered h hreq, ?_⟩
  intro sid a u bs t r h hn hin hp ht hr
  obtain ⟨r₀, hr₀⟩ := Option.ne_none_iff_exists'.mp ((Table.mem_iff_lookup _ _).mp hin)
  exact shows_run (registered_step hreg h) hr₀ (shows_created h hn hr₀) hp ht hr

def beatLine (tool : String) : String :=
  "\x7b\"op\":\"heartbeat\",\"tool\":\"" ++ tool ++ "\"\x7d"

def registerLines : String → Option ClientMessage :=
  decodeFrom [(announceLine "s1", .announce "s1" 7 "/" "" none),
    (beatLine "Bash", .heartbeat "Bash" (some "/build") none none),
    (beatLine "", .heartbeat "" (some "") none (some ["a.rs"])),
    (beatLine "Edit", .heartbeat "Edit" (some "/x") none (some (List.replicate 9 "b.rs")))]

theorem sticky_registers_in_turn :
    ∃ t r, run (step ⟨60, 1024, 3000, false, "carbon"⟩ registerLines) (start .default [] 0)
        ([.connect, .connect] ++ .line 0 (announceLine "s1") 1 ::
          [.proceed 0 1 true, .line 1 (announceLine "s1") 2, .proceed 1 2 true,
            .line 1 (beatLine "Bash") 3, .proceed 1 3 true, .proceed 1 3 true,
            .line 0 (beatLine "") 4, .proceed 0 4 true, .proceed 0 4 true,
            .line 1 (beatLine "Edit") 5, .proceed 1 5 true]) = some t ∧
      t.bus.peers.lookup "s1" = some r ∧ r.skill = "" ∧ r.workingPaths = ["a.rs"] ∧
      r.lastTool = "Bash" := by
  let cfg : Config := ⟨60, 1024, 3000, false, "carbon"⟩
  let a : Action := .line 0 (announceLine "s1") 1
  let bs : List Action := [.proceed 0 1 true, .line 1 (announceLine "s1") 2, .proceed 1 2 true,
    .line 1 (beatLine "Bash") 3, .proceed 1 3 true, .proceed 1 3 true,
    .line 0 (beatLine "") 4, .proceed 0 4 true, .proceed 0 4 true,
    .line 1 (beatLine "Edit") 5, .proceed 1 5 true]
  have hs : (run (step cfg registerLines) (start .default [] 0) [.connect, .connect]).bind
      (fun s => (step cfg registerLines s a).bind (fun u =>
        (run (step cfg registerLines) u bs).bind (fun t => (t.bus.peers.lookup "s1").map (fun _ =>
          (decide ("s1" ∈ s.bus.peers), decide ("s1" ∈ u.bus.peers),
            decide (Along (step cfg registerLines) (fun v _ => "s1" ∈ v.bus.peers) u bs),
            trace (step cfg registerLines) (beats registerLines "s1") u bs))))) =
      some (false, true, true, [⟨"Bash", some "/build", none, none⟩,
        ⟨"", some "", none, some ["a.rs"]⟩]) := by decide +kernel
  obtain ⟨s, hs, hu⟩ := Option.bind_eq_some_iff.mp hs
  obtain ⟨u, hu, ht⟩ := Option.bind_eq_some_iff.mp hu
  obtain ⟨t, ht, hr⟩ := Option.bind_eq_some_iff.mp ht
  obtain ⟨r, hr, hq⟩ := Option.map_eq_some_iff.mp hr
  simp only [Prod.mk.injEq, decide_eq_true_eq, decide_eq_false_iff_not] at hq
  obtain ⟨hn, hin, hp, htrace⟩ := hq
  have hshows := (sticky_registers cfg registerLines .default [] 0 [.connect, .connect] s hs).2.2
    "s1" a u bs t r hu hn hin hp ht hr
  rw [htrace] at hshows
  exact ⟨t, r, (run_append_eq_some _).mpr ⟨s, hs, (run_cons_eq_some _).mpr ⟨u, hu, ht⟩⟩, hr,
    hshows.skill, hshows.workingPaths, hshows.lastTool⟩

end Registers

end Agorabus
