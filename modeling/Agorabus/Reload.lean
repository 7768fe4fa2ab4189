import Agorabus.Library.Utf8
import Mathlib.Data.List.Dedup
import Mathlib.Data.List.Sort
import Mathlib.Data.String.Basic

namespace Agorabus.Reload

inductive ReloadStatus where
  | reloaded
  | reloadedDegraded
  | failed
  deriving DecidableEq

structure ReloadVerdict where
  oldPid : Option Nat
  newPid : Option Nat
  binaryBefore : String
  binaryAfter : Option String
  peersBefore : List String
  peersAfter : List String
  peersRecovered : List String
  peersMissing : List String
  elapsedMs : Nat
  status : ReloadStatus
  buildCommand : Option String
  installDest : Option String
  buildSkipped : Option Bool

/-- The socket path is of any bytes. -/
structure ReloadConfig where
  socketPath : List UInt8
  requireFresh : Bool
  startIfAbsent : Bool
  dryRun : Bool
  drainTimeoutMs : Nat
  reconnectTimeoutMs : Nat
  installedPath : Option String
  build : Bool
  cloudbuildPath : Option String

inductive Staleness where
  | current
  | staleDeletedExe
  | staleInodeDrift
  | unknown
  deriving DecidableEq

def Staleness.text : Staleness → String
  | .current => "current"
  | .staleDeletedExe => "stale:deleted-exe"
  | .staleInodeDrift => "stale:inode-drift"
  | .unknown => "unknown"

structure DoctorReport where
  daemonPid : Option Nat
  verdict : Staleness

/-- What `snapshot_peers` meets at the socket: whether anybody listens there, and what comes of the
announce and of the query. -/
structure Attempt where
  connect : Except String Bool
  announce : Except String Unit
  peers : Except String (List String)

def Attempt.answer (a : Attempt) : Option (List String) :=
  match a.connect, a.announce, a.peers with
  | .ok true, .ok _, .ok ids => some ids
  | _, _, _ => none

inductive Event where
  | snapshot (a : Attempt)
  | sigterm (pid : Nat)
  | warned (text : String)
  | launched (pid : Nat)

def Event.isLaunch : Event → Bool
  | .launched _ => true
  | _ => false

def probe (pid : Nat) : String := "reload-probe-" ++ toString pid

/-- All that a reload finds around it. A poll is what is seen and the clock after it, in
milliseconds; `sessions` are those of the old daemon, which it lists when it is asked. -/
structure Environment where
  pid : Nat
  startedAt : Nat
  finishedAt : Nat
  cloudbuildVar : Option String
  home : Option String
  currentExe : Option String
  pathDirs : Option (List String)
  isFile : String → Bool
  doctor : Option String → DoctorReport
  doctorAfter : Option String → DoctorReport
  cloudbuildAndInstall : String → String → Except String Unit
  sessions : List String
  before : Attempt
  kill : Nat → Except String (Option String)
  killedAt : Nat
  exitPolls : List (Bool × Nat)
  spawn : List String → Except String Nat
  launchedAt : Nat
  socketPolls : List (Bool × Nat)
  peerPolls : List (Attempt × Nat)
  listed : ∀ ids, before.answer = some ids → ∀ s, s ∈ sessions ↔ s ∈ ids ∧ s ≠ probe pid

/-- The events of a reload, and what it returns: a verdict with an exit code, or an error. -/
structure Run where
  events : List Event
  result : Except String (ReloadVerdict × Nat)

def Run.sinceLaunch (r : Run) : List Event := (r.events.dropWhile (fun e => !e.isLaunch)).tail

def join (dir rel : String) : String :=
  if dir.isEmpty then rel else if dir.endsWith "/" then dir ++ rel else dir ++ "/" ++ rel

def resolveCloudbuildPath (env : Environment) (overridePath : Option String) :
    Except String String :=
  match overridePath, env.cloudbuildVar, env.home with
  | some p, _, _ => .ok p
  | none, some p, _ => .ok p
  | none, none, some home => .ok (join home ".claude/skills/cloudbuild/cloudbuild.sh")
  | none, none, none => .error "$HOME not set; cannot locate cloudbuild.sh"

def discoverBinary (env : Environment) : Except String String :=
  match env.currentExe, env.pathDirs with
  | some exe, _ => .ok exe
  | none, none => .error "$PATH not set"
  | none, some dirs =>
      match (dirs.map (fun dir => join dir "agorabus")).find? env.isFile with
      | some candidate => .ok candidate
      | none => .error "could not locate agorabus binary on $PATH or via current_exe"

def resolveInstallDest (env : Environment) (overridePath : Option String) : Except String String :=
  match overridePath with
  | some p => .ok p
  | none => discoverBinary env

/-- An absent socket is an empty set here, and whoever calls takes an error for one as well. -/
def snapshotPeers (pid : Nat) (a : Attempt) : Except String (List String) := do
  if ← a.connect then
    a.announce
    let ids ← a.peers
    return ids.filter (fun id => decide (id ≠ probe pid))
  else return []

def snapshotOrEmpty (pid : Nat) (a : Attempt) : List String :=
  (snapshotPeers pid a).toOption.getD []

def sendSigterm (pid : Nat) : Except String (Option String) → Except String Unit
  | .error e => .error ("failed to invoke kill(1): " ++ e)
  | .ok none => .ok ()
  | .ok (some stderr) => .error ("kill -TERM " ++ toString pid ++ " failed: " ++ stderr)

def waitForExit (deadline : Nat) : List (Bool × Nat) → Option Bool
  | [] => none
  | (alive, now) :: polls =>
      if alive then if deadline ≤ now then some false else waitForExit deadline polls
      else some true

def launchArgs (binary socket : String) : List String := [binary, "--socket", socket, "daemon"]

def launchDaemon (cfg : ReloadConfig) (env : Environment) : Except String Nat := do
  let binary ← discoverBinary env
  let some socket := Utf8.decode? cfg.socketPath | .error "socket path is not valid UTF-8"
  match env.spawn (launchArgs binary socket) with
  | .ok pid => .ok pid
  | .error e => .error ("failed to spawn nohup agorabus daemon: " ++ e)

def waitForSocket (deadline : Nat) : List (Bool × Nat) → Option Unit
  | [] => none
  | (present, now) :: polls =>
      if present ∨ deadline ≤ now then some () else waitForSocket deadline polls

/-- The attempts that are made, and the peers the last of them has shown. -/
def pollPeers (pid : Nat) (before : List String) (deadline : Nat) :
    List (Attempt × Nat) → Option (List Attempt × List String)
  | [] => none
  | (a, now) :: polls =>
      if before ⊆ snapshotOrEmpty pid a ∨ deadline ≤ now then some ([a], snapshotOrEmpty pid a)
      else (pollPeers pid before deadline polls).map (fun r => (a :: r.1, r.2))

def peersRecovered (before after : List String) : List String :=
  (before.dedup.filter (fun s => decide (s ∈ after))).insertionSort (· ≤ ·)

def peersMissing (before after : List String) : List String :=
  (before.dedup.filter (fun s => decide (s ∉ after))).insertionSort (· ≤ ·)

def statusOf (missing : List String) : ReloadStatus :=
  if missing.isEmpty then .reloaded else .reloadedDegraded

def exitCodeOf (status : ReloadStatus) : Nat := if status = .reloaded then 0 else 1

def elapsedMs (env : Environment) : Nat := min (env.finishedAt - env.startedAt) (2 ^ 64 - 1)

def buildMetadata (cfg : ReloadConfig) (env : Environment) :
    Except String (Option String × Option String) := do
  if cfg.build then
    let path ← resolveCloudbuildPath env cfg.cloudbuildPath
    let dest ← resolveInstallDest env cfg.installedPath
    return (some (path ++ " build agorabus"), some dest)
  else return (none, none)

def rebuild (cfg : ReloadConfig) (env : Environment) : Except String Unit := do
  if cfg.build then
    let path ← resolveCloudbuildPath env cfg.cloudbuildPath
    let dest ← resolveInstallDest env cfg.installedPath
    env.cloudbuildAndInstall path dest
  else return ()

/-- The bounce of a running daemon: the part of `run_reload` from the signal on. -/
def bounce (cfg : ReloadConfig) (env : Environment) (oldPid : Nat) (v : ReloadVerdict) :
    Option Run :=
  match sendSigterm oldPid (env.kill oldPid) with
  | .error e => some ⟨[.snapshot env.before], .error e⟩
  | .ok () => do
    let drained ← waitForExit (env.killedAt + cfg.drainTimeoutMs) env.exitPolls
    let done := [Event.snapshot env.before, .sigterm oldPid] ++
      if drained then [] else [.warned ("agorabus reload: old daemon (pid " ++ toString oldPid ++
        ") did not exit within " ++ toString cfg.drainTimeoutMs ++ "ms; proceeding anyway")]
    match launchDaemon cfg env with
    | .error e => some ⟨done, .error e⟩
    | .ok newPid =>
      let deadline := env.launchedAt + cfg.reconnectTimeoutMs
      let _ ← waitForSocket deadline env.socketPolls
      let (asked, peersAfter) ← pollPeers env.pid v.peersBefore deadline env.peerPolls
      let missing := peersMissing v.peersBefore peersAfter
      some ⟨done ++ .launched newPid :: asked.map .snapshot, .ok ({ v with
        newPid := some newPid
        binaryAfter := some (env.doctorAfter cfg.installedPath).verdict.text
        peersAfter := peersAfter
        peersRecovered := peersRecovered v.peersBefore peersAfter
        peersMissing := missing
        status := statusOf missing }, exitCodeOf (statusOf missing))⟩

def runReload (cfg : ReloadConfig) (env : Environment) : Option Run :=
  match buildMetadata cfg env with
  | .error e => some ⟨[], .error e⟩
  | .ok (buildCommand, installDest) =>
    let report := env.doctor cfg.installedPath
    -- what the verdicts have in common
    let v : ReloadVerdict :=
      { oldPid := report.daemonPid, newPid := none, binaryBefore := report.verdict.text,
        binaryAfter := none, peersBefore := [], peersAfter := [], peersRecovered := [],
        peersMissing := [], elapsedMs := elapsedMs env, status := .reloaded,
        buildCommand := buildCommand, installDest := installDest,
        buildSkipped := if cfg.build then some false else none }
    if report.daemonPid.isNone && !cfg.startIfAbsent && !(cfg.build && cfg.dryRun) then
      some ⟨[], .ok ({ v with
        binaryBefore := "unknown", status := .failed, buildSkipped := none }, 1)⟩
    else if cfg.build && cfg.requireFresh && report.daemonPid.isSome &&
        decide (report.verdict = .current) then
      some ⟨[], .ok ({ v with binaryAfter := some "current", buildSkipped := some true }, 0)⟩
    else if !cfg.build && cfg.requireFresh && report.daemonPid.isSome &&
        decide (report.verdict = .current) then
      some ⟨[], .ok ({ v with
        status := .failed, buildCommand := none, installDest := none, buildSkipped := none }, 1)⟩
    else
      let peersBefore := snapshotOrEmpty env.pid env.before
      if cfg.dryRun then
        some ⟨[.snapshot env.before],
          .ok ({ v with peersBefore := peersBefore, peersMissing := peersBefore }, 0)⟩
      else match rebuild cfg env with
        | .error e => some ⟨[.snapshot env.before], .error e⟩
        | .ok () =>
          match report.daemonPid with
          | none =>
            match launchDaemon cfg env with
            | .error e => some ⟨[.snapshot env.before], .error e⟩
            | .ok newPid => some ⟨[.snapshot env.before, .launched newPid],
                .ok ({ v with newPid := some newPid, binaryAfter := some "current" }, 0)⟩
          | some oldPid => bounce cfg env oldPid { v with peersBefore := peersBefore }

variable {cfg : ReloadConfig} {env : Environment} {run : Run} {v : ReloadVerdict}

theorem snapshotOrEmpty_eq (pid : Nat) (a : Attempt) :
    snapshotOrEmpty pid a = (a.answer.getD []).filter (fun id => decide (id ≠ probe pid)) := by
  obtain ⟨connect, announce, peers⟩ := a
  cases connect with
  | error e => rfl
  | ok there =>
    cases there with
    | false => rfl
    | true => cases announce <;> cases peers <;> rfl

theorem mem_snapshotOrEmpty {pid : Nat} {a : Attempt} {s : String} :
    s ∈ snapshotOrEmpty pid a ↔ ∃ ids, a.answer = some ids ∧ s ∈ ids ∧ s ≠ probe pid := by
  rw [snapshotOrEmpty_eq, List.mem_filter, decide_eq_true_eq]
  cases a.answer <;> simp

theorem peersMissing_eq_nil {before after : List String} :
    peersMissing before after = [] ↔ before ⊆ after := by
  have hperm := List.perm_insertionSort (· ≤ ·)
    (before.dedup.filter (fun s => decide (s ∉ after)))
  rw [peersMissing]
  constructor
  · intro h
    rw [h] at hperm
    intro s hs
    have := List.filter_eq_nil_iff.mp hperm.nil_eq.symm s (List.mem_dedup.mpr hs)
    simpa using this
  · intro h
    have hnil : before.dedup.filter (fun s => decide (s ∉ after)) = [] := by
      refine List.filter_eq_nil_iff.mpr (fun s hs => ?_)
      simpa using h (List.mem_dedup.mp hs)
    rw [hnil]
    rfl

theorem pollPeers_last {pid deadline : Nat} {before after : List String}
    {polls : List (Attempt × Nat)} {asked : List Attempt}
    (h : pollPeers pid before deadline polls = some (asked, after)) :
    ∃ a ∈ asked, snapshotOrEmpty pid a = after := by
  induction polls generalizing asked with
  | nil => cases h
  | cons p polls ih =>
    rw [pollPeers] at h
    split at h
    · cases h
      exact ⟨p.1, List.mem_singleton_self _, rfl⟩
    · obtain ⟨⟨asked', after'⟩, hr, he⟩ := Option.map_eq_some_iff.mp h
      cases he
      obtain ⟨a, ha, hafter⟩ := ih hr
      exact ⟨a, List.mem_cons_of_mem _ ha, hafter⟩

theorem pollPeers_nil {pid deadline : Nat} {after : List String} {polls : List (Attempt × Nat)}
    {asked : List Attempt} (h : pollPeers pid [] deadline polls = some (asked, after)) :
    ∃ p, polls.head? = some p ∧ asked = [p.1] := by
  cases polls with
  | nil => cases h
  | cons p polls =>
    rw [pollPeers, if_pos (Or.inl (List.nil_subset _))] at h
    cases h
    exact ⟨p, rfl, rfl⟩

theorem polls_end {deadline : Nat} {polls : List (Bool × Nat)} (h : ∃ p ∈ polls, deadline ≤ p.2) :
    (waitForExit deadline polls).isSome ∧ (waitForSocket deadline polls).isSome := by
  induction polls with
  | nil => exact absurd h (by simp)
  | cons p polls ih =>
    obtain ⟨seen, now⟩ := p
    by_cases hd : deadline ≤ now
    · cases seen <;> simp [waitForExit, waitForSocket, hd]
    · have hrest : ∃ p ∈ polls, deadline ≤ p.2 := by
        obtain ⟨p, hp, hle⟩ := h
        obtain rfl | hp := List.mem_cons.mp hp
        · exact absurd hle hd
        · exact ⟨p, hp, hle⟩
      cases seen <;> simp [waitForExit, waitForSocket, hd, ih hrest]

theorem pollPeers_ends (pid : Nat) (before : List String) {deadline : Nat}
    {polls : List (Attempt × Nat)} (h : ∃ p ∈ polls, deadline ≤ p.2) :
    (pollPeers pid before deadline polls).isSome := by
  induction polls with
  | nil => exact absurd h (by simp)
  | cons p polls ih =>
    rw [pollPeers]
    split
    · rfl
    · rename_i hno
      rw [Option.isSome_map]
      refine ih ?_
      obtain ⟨q, hq, hle⟩ := h
      obtain rfl | hq := List.mem_cons.mp hq
      · exact absurd (Or.inr hle) hno
      · exact ⟨q, hq, hle⟩

theorem sinceLaunch_eq {done rest : List Event} {pid : Nat}
    {result : Except String (ReloadVerdict × Nat)} (h : ∀ e ∈ done, e.isLaunch = false) :
    (Run.mk (done ++ .launched pid :: rest) result).sinceLaunch = rest := by
  rw [Run.sinceLaunch, List.dropWhile_append_of_pos (fun e he => by rw [h e he]; rfl)]
  rfl

theorem bounce_cases {pid : Nat} (h : bounce cfg env pid v = some run) :
    (∃ e, sendSigterm pid (env.kill pid) = .error e ∧ run = ⟨[.snapshot env.before], .error e⟩) ∨
    sendSigterm pid (env.kill pid) = .ok () ∧ ∃ done : List Event,
      (∀ e ∈ done, e.isLaunch = false) ∧ (∀ q, .sigterm q ∈ done ↔ q = pid) ∧
      ((∃ e, launchDaemon cfg env = .error e ∧ run = ⟨done, .error e⟩) ∨
        ∃ newPid asked after v', launchDaemon cfg env = .ok newPid ∧
          pollPeers env.pid v.peersBefore (env.launchedAt + cfg.reconnectTimeoutMs) env.peerPolls =
            some (asked, after) ∧
          v'.status = statusOf (peersMissing v.peersBefore after) ∧
          run = ⟨done ++ .launched newPid :: asked.map .snapshot,
            .ok (v', exitCodeOf v'.status)⟩) := by
  rw [bounce] at h
  split at h
  · rename_i e he
    cases h
    exact Or.inl ⟨e, he, rfl⟩
  · rename_i hok
    simp only [Option.bind_eq_bind, Option.bind_eq_some_iff] at h
    obtain ⟨drained, _, h⟩ := h
    generalize hdone : [Event.snapshot env.before, .sigterm pid] ++
      (if drained then [] else [.warned ("agorabus reload: old daemon (pid " ++ toString pid ++
        ") did not exit within " ++ toString cfg.drainTimeoutMs ++ "ms; proceeding anyway")]) =
      done at h
    have hno : ∀ e ∈ done, e.isLaunch = false := by
      subst hdone
      cases drained <;> simp [Event.isLaunch]
    have hsent : ∀ q, .sigterm q ∈ done ↔ q = pid := by
      subst hdone
      cases drained <;> simp
    refine Or.inr ⟨hok, done, hno, hsent, ?_⟩
    split at h
    · rename_i e he
      cases h
      exact Or.inl ⟨e, he, rfl⟩
    · rename_i newPid hp
      obtain ⟨_, _, h⟩ := Option.bind_eq_some_iff.mp h
      obtain ⟨⟨asked, after⟩, hpoll, h⟩ := Option.bind_eq_some_iff.mp h
      cases h
      exact Or.inr ⟨newPid, asked, after, _, hp, hpoll, rfl, rfl⟩

theorem bounce_launched {oldPid : Nat} {v' : ReloadVerdict}
    (h : bounce cfg env oldPid v = some run) (hl : ∃ pid, .launched pid ∈ run.events)
    (hr : run.result = .ok (v', 0)) : ∃ asked after,
      pollPeers env.pid v.peersBefore (env.launchedAt + cfg.reconnectTimeoutMs) env.peerPolls =
        some (asked, after) ∧
      run.sinceLaunch = asked.map .snapshot ∧
      v'.status = statusOf (peersMissing v.peersBefore after) := by
  obtain ⟨e, _, rfl⟩ | ⟨_, done, hdone, _, ⟨e, _, rfl⟩ |
    ⟨newPid, asked, after, v'', _, hpoll, hstatus, rfl⟩⟩ := bounce_cases h
  · cases hr
  · cases hr
  · obtain ⟨rfl, _⟩ := Prod.mk.inj (Except.ok.inj hr)
    exact ⟨asked, after, hpoll, sinceLaunch_eq hdone, hstatus⟩

theorem metadata_of_rebuilt (h : rebuild cfg env = .ok ()) :
    ∃ texts, buildMetadata cfg env = .ok texts := by
  rw [rebuild] at h
  rw [buildMetadata]
  cases hbuild : cfg.build with
  | false => exact ⟨_, rfl⟩
  | true =>
    rw [hbuild, if_pos rfl] at h
    rw [if_pos rfl]
    cases hp : resolveCloudbuildPath env cfg.cloudbuildPath with
    | error e => rw [hp] at h; cases h
    | ok path =>
      rw [hp] at h
      cases hd : resolveInstallDest env cfg.installedPath with
      | error e => rw [hd] at h; cases h
      | ok dest => exact ⟨_, rfl⟩

theorem runReload_dry (h : runReload cfg env = some run) (hdry : cfg.dryRun = true) :
    ∀ e ∈ run.events, e = .snapshot env.before := by
  rw [runReload] at h
  split at h
  · cases h
    simp
  · dsimp only at h
    split at h
    · cases h
      simp
    split at h
    · cases h
      simp
    split at h
    · cases h
      simp
    cases h
    simp

structure Bounces (cfg : ReloadConfig) (env : Environment) (pid : Nat) : Prop where
  daemon : (env.doctor cfg.installedPath).daemonPid = some pid
  stale : ¬ (cfg.requireFresh = true ∧ (env.doctor cfg.installedPath).verdict = .current)
  rebuilt : rebuild cfg env = .ok ()

theorem runReload_cases (h : runReload cfg env = some run) (hdry : cfg.dryRun = false) :
    ((∀ e ∈ run.events, e = .snapshot env.before) ∧ ∀ pid, ¬ Bounces cfg env pid) ∨
    ((env.doctor cfg.installedPath).daemonPid = none ∧
      ∃ pid, run.events = [.snapshot env.before, .launched pid]) ∨
    ∃ pid v, Bounces cfg env pid ∧ v.peersBefore = snapshotOrEmpty env.pid env.before ∧
      bounce cfg env pid v = some run := by
  rw [runReload] at h
  split at h
  · rename_i e he
    cases h
    refine Or.inl ⟨by simp, fun pid hb => ?_⟩
    obtain ⟨texts, ht⟩ := metadata_of_rebuilt hb.rebuilt
    rw [he] at ht
    cases ht
  · dsimp only at h
    split at h
    · rename_i hnone
      cases h
      exact Or.inl ⟨by simp, fun pid hb => by simp [hb.daemon] at hnone⟩
    split at h
    · rename_i hcurrent
      simp only [Bool.and_eq_true, decide_eq_true_eq] at hcurrent
      cases h
      exact Or.inl ⟨by simp, fun pid hb => hb.stale ⟨hcurrent.1.1.2, hcurrent.2⟩⟩
    split at h
    · rename_i hcurrent
      simp only [Bool.and_eq_true, decide_eq_true_eq] at hcurrent
      cases h
      exact Or.inl ⟨by simp, fun pid hb => hb.stale ⟨hcurrent.1.1.2, hcurrent.2⟩⟩
    rename_i hbuilt hplain
    rw [if_neg (by rw [hdry]; exact Bool.false_ne_true)] at h
    split at h
    · rename_i e he
      cases h
      exact Or.inl ⟨by simp, fun pid hb => by rw [hb.rebuilt] at he; cases he⟩
    · rename_i hrebuilt
      split at h
      · rename_i hnone
        split at h
        · cases h
          exact Or.inl ⟨by simp, fun pid hb => by rw [hb.daemon] at hnone; cases hnone⟩
        · rename_i newPid _
          cases h
          exact Or.inr (Or.inl ⟨hnone, newPid, rfl⟩)
      · rename_i pid hpid
        refine Or.inr (Or.inr ⟨pid, _, ⟨hpid, ?_, hrebuilt⟩, rfl, h⟩)
        rintro ⟨hfresh, hcurrent⟩
        cases hb : cfg.build with
        | true => exact hbuilt (by simp [hb, hfresh, hpid, hcurrent])
        | false => exact hplain (by simp [hb, hfresh, hpid, hcurrent])

theorem runReload_launched (h : runReload cfg env = some run) (hdry : cfg.dryRun = false)
    (hl : ∃ pid, .launched pid ∈ run.events) (hr : run.result = .ok (v, 0)) :
    ((env.doctor cfg.installedPath).daemonPid = none ∧ run.sinceLaunch = []) ∨
    ((env.doctor cfg.installedPath).daemonPid.isSome ∧ ∃ asked after,
      pollPeers env.pid (snapshotOrEmpty env.pid env.before)
        (env.launchedAt + cfg.reconnectTimeoutMs) env.peerPolls = some (asked, after) ∧
      run.sinceLaunch = asked.map .snapshot ∧
      v.status = statusOf (peersMissing (snapshotOrEmpty env.pid env.before) after)) := by
  obtain ⟨hquiet, _⟩ | ⟨hnone, newPid, hevents⟩ | ⟨pid, v', hb, hbefore, h⟩ :=
    runReload_cases h hdry
  · obtain ⟨pid, hl⟩ := hl
    cases hquiet _ hl
  · refine Or.inl ⟨hnone, ?_⟩
    rw [Run.sinceLaunch, hevents]
    rfl
  · refine Or.inr ⟨by rw [hb.daemon]; rfl, ?_⟩
    rw [← hbefore]
    exact bounce_launched h hl hr

/-- A reload returns, whatever it meets, if the clock passes its deadlines. -/
theorem runReload_returns (cfg : ReloadConfig) (env : Environment)
    (hexit : ∃ p ∈ env.exitPolls, env.killedAt + cfg.drainTimeoutMs ≤ p.2)
    (hsocket : ∃ p ∈ env.socketPolls, env.launchedAt + cfg.reconnectTimeoutMs ≤ p.2)
    (hpeers : ∃ p ∈ env.peerPolls, env.launchedAt + cfg.reconnectTimeoutMs ≤ p.2) :
    (runReload cfg env).isSome := by
  have hbounce (oldPid : Nat) (v : ReloadVerdict) : (bounce cfg env oldPid v).isSome := by
    obtain ⟨drained, hdrained⟩ := Option.isSome_iff_exists.mp (polls_end hexit).1
    obtain ⟨_, hthere⟩ := Option.isSome_iff_exists.mp (polls_end hsocket).2
    obtain ⟨r, hr⟩ := Option.isSome_iff_exists.mp
      (pollPeers_ends env.pid v.peersBefore hpeers)
    rw [bounce]
    split
    · rfl
    · rw [hdrained, Option.bind_eq_bind, Option.bind_some]
      dsimp only
      split
      · rfl
      · rw [hthere, hr]
        rfl
  rw [runReload]
  split
  · rfl
  · dsimp only
    split
    · rfl
    split
    · rfl
    split
    · rfl
    split
    · rfl
    split
    · rfl
    split
    · split <;> rfl
    · exact hbounce _ _

/-- After the launch a daemon has answered the query, with every session of the old one. -/
def Live (env : Environment) (run : Run) : Prop :=
  ∃ a ids, .snapshot a ∈ run.sinceLaunch ∧ a.answer = some ids ∧ ∀ s ∈ env.sessions, s ∈ ids

/-- There is a daemon to bounce, and either it has shown sessions when it was asked, or the first
query after the launch is answered with every session. -/
def Confirms (cfg : ReloadConfig) (env : Environment) : Prop :=
  (env.doctor cfg.installedPath).daemonPid.isSome ∧
    ((env.before.answer.isSome ∧ env.sessions ≠ []) ∨
      ∃ p ids, env.peerPolls.head? = some p ∧ p.1.answer = some ids ∧ ∀ s ∈ env.sessions, s ∈ ids)

theorem mem_before {s : String} : s ∈ snapshotOrEmpty env.pid env.before ↔
    env.before.answer.isSome ∧ s ∈ env.sessions := by
  rw [mem_snapshotOrEmpty]
  constructor
  · rintro ⟨ids, hids, hs⟩
    exact ⟨by rw [hids]; rfl, (env.listed ids hids s).mpr hs⟩
  · rintro ⟨ha, hs⟩
    obtain ⟨ids, hids⟩ := Option.isSome_iff_exists.mp ha
    exact ⟨ids, hids, (env.listed ids hids s).mp hs⟩

/-- A reload that has launched a daemon and returns `Reloaded` with exit code 0 has left a live bus
if and only if there was a daemon to bounce and its sessions, or for want of them the new daemon,
were there to be seen. -/
theorem reloaded_live_iff (cfg : ReloadConfig) (env : Environment) (run : Run) (v : ReloadVerdict)
    (h : runReload cfg env = some run) (hdry : cfg.dryRun = false)
    (hl : ∃ pid, .launched pid ∈ run.events) (hr : run.result = .ok (v, 0))
    (hs : v.status = .reloaded) : Live env run ↔ Confirms cfg env := by
  obtain ⟨hpid, hnone⟩ | ⟨hpid, asked, after, hpoll, hsince, hstatus⟩ :=
    runReload_launched h hdry hl hr
  · constructor
    · rintro ⟨a, ids, ha, _⟩
      rw [hnone] at ha
      cases ha
    · rintro ⟨hsome, _⟩
      rw [hpid] at hsome
      cases hsome
  · have hsub : snapshotOrEmpty env.pid env.before ⊆ after := by
      rw [hs, statusOf] at hstatus
      split at hstatus
      · rename_i hempty
        exact peersMissing_eq_nil.mp (List.isEmpty_iff.mp hempty)
      · cases hstatus
    have hasked {a : Attempt} : .snapshot a ∈ run.sinceLaunch ↔ a ∈ asked := by
      rw [hsince, List.mem_map_of_injective (fun a b hab => by cases hab; rfl)]
    by_cases hb : env.before.answer.isSome ∧ env.sessions ≠ []
    · refine iff_of_true ?_ ⟨hpid, Or.inl hb⟩
      obtain ⟨ha, hne⟩ := hb
      obtain ⟨a, hmem, rfl⟩ := pollPeers_last hpoll
      have hshown : ∀ s ∈ env.sessions, ∃ ids, a.answer = some ids ∧ s ∈ ids ∧ s ≠ probe env.pid :=
        fun s hs => mem_snapshotOrEmpty.mp (hsub (mem_before.mpr ⟨ha, hs⟩))
      obtain ⟨s, hs⟩ := List.exists_mem_of_ne_nil _ hne
      obtain ⟨ids, hids, _⟩ := hshown s hs
      refine ⟨a, ids, hasked.mpr hmem, hids, fun s hs => ?_⟩
      obtain ⟨ids', hids', hmem', _⟩ := hshown s hs
      obtain rfl : ids = ids' := Option.some.inj (hids.symm.trans hids')
      exact hmem'
    · have hbefore : snapshotOrEmpty env.pid env.before = [] := by
        refine List.eq_nil_iff_forall_not_mem.mpr (fun s hs => ?_)
        obtain ⟨ha, hs⟩ := mem_before.mp hs
        exact hb ⟨ha, List.ne_nil_of_mem hs⟩
      rw [hbefore] at hpoll
      obtain ⟨p, hp, rfl⟩ := pollPeers_nil hpoll
      simp only [Live, hasked, List.mem_singleton, Confirms, hpid, hb, false_or, true_and, hp,
        Option.some.injEq]
      constructor
      · rintro ⟨a, ids, rfl, hids, hall⟩
        exact ⟨p, ids, rfl, hids, hall⟩
      · rintro ⟨_, ids, rfl, hids, hall⟩
        exact ⟨p.1, ids, rfl, hids, hall⟩

def config : ReloadConfig :=
  ⟨Utf8.encode "/run/agorabus/sock", true, false, false, 2000, 8000, none, false, none⟩

def refused : Attempt := ⟨.ok false, .ok (), .ok []⟩

def answered (ids : List String) : Attempt := ⟨.ok true, .ok (), .ok ids⟩

def environmentOf (sessions : List String) (h : probe 7 ∉ sessions)
    (socketPolls : List (Bool × Nat)) (peerPolls : List (Attempt × Nat)) : Environment where
  pid := 7
  startedAt := 0
  finishedAt := 8200
  cloudbuildVar := none
  home := none
  currentExe := some "/usr/bin/agorabus"
  pathDirs := none
  isFile := fun _ => false
  doctor := fun _ => ⟨some 41, .staleDeletedExe⟩
  doctorAfter := fun _ => ⟨some 42, .current⟩
  cloudbuildAndInstall := fun _ _ => .ok ()
  sessions := sessions
  before := answered (probe 7 :: sessions)
  kill := fun _ => .ok none
  killedAt := 50
  exitPolls := [(false, 50)]
  spawn := fun _ => .ok 42
  launchedAt := 60
  socketPolls := socketPolls
  peerPolls := peerPolls
  listed := by
    intro ids hids s
    cases hids
    rw [List.mem_cons]
    constructor
    · exact fun hs => ⟨Or.inr hs, fun he => h (he ▸ hs)⟩
    · exact fun ⟨hs, hne⟩ => hs.resolve_left hne

def recoveredEnvironment : Environment :=
  environmentOf ["s1"] (by decide +kernel) [(false, 60), (true, 110)]
    [(answered [probe 7], 120), (answered [probe 7, "s1"], 220)]

theorem reloaded_live_recovered : ∃ run v, runReload config recoveredEnvironment = some run ∧
    run.result = .ok (v, 0) ∧ v.peersRecovered = ["s1"] ∧
    (Live recoveredEnvironment run ↔ Confirms config recoveredEnvironment) :=
  ⟨_, _, rfl, rfl, rfl, reloaded_live_iff config recoveredEnvironment _ _ rfl rfl
    ⟨42, List.mem_append_right _ List.mem_cons_self⟩ rfl rfl⟩

def deadEnvironment : Environment :=
  environmentOf [] List.not_mem_nil [(false, 60), (false, 8060)] [(refused, 8060)]

theorem dead_bus_reloaded : ∃ run v, runReload config deadEnvironment = some run ∧
    config.dryRun = false ∧ .launched 42 ∈ run.events ∧ run.result = .ok (v, 0) ∧
    v.status = .reloaded ∧ ¬ Live deadEnvironment run := by
  refine ⟨_, _, rfl, rfl, List.mem_append_right _ List.mem_cons_self, rfl, rfl, ?_⟩
  rintro ⟨a, ids, ha, hids, _⟩
  obtain rfl : a = refused := by
    have ha : Event.snapshot a ∈ [Event.snapshot refused] := ha
    rw [List.mem_singleton] at ha
    injection ha
  cases hids

end Agorabus.Reload
