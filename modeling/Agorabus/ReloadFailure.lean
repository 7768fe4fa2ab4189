import Agorabus.Install

namespace Agorabus.Reload

def buildCall (cfg : ReloadConfig) (env : Environment) : Option (String × String) :=
  let report := env.doctor cfg.installedPath
  if cfg.build ∧ cfg.dryRun = false ∧ (report.daemonPid.isSome ∨ cfg.startIfAbsent) ∧
      ¬ (cfg.requireFresh ∧ report.daemonPid.isSome ∧ report.verdict = .current) then
    match resolveCloudbuildPath env cfg.cloudbuildPath,
      resolveInstallDest env cfg.installedPath with
    | .ok cloudbuild, .ok dest => some (cloudbuild, dest)
    | _, _ => none
  else none

/-- The reload gets as far as a signal to the daemon. -/
structure Signals (cfg : ReloadConfig) (env : Environment) (pid : Nat) : Prop where
  daemon : (env.doctor cfg.installedPath).daemonPid = some pid
  stale : ¬ (cfg.requireFresh = true ∧ (env.doctor cfg.installedPath).verdict = .current)
  wet : cfg.dryRun = false
  rebuilt : rebuild cfg env = .ok ()
  killed : sendSigterm pid (env.kill pid) = .ok ()

/-- There is a binary and a socket path to launch it with, and the process can be spawned. -/
def Launchable (cfg : ReloadConfig) (env : Environment) : Prop :=
  ∃ binary socket pid, discoverBinary env = .ok binary ∧
    Utf8.decode? cfg.socketPath = some socket ∧ env.spawn (launchArgs binary socket) = .ok pid

variable {cfg : ReloadConfig} {env : Environment} {run : Run} {v : ReloadVerdict}

theorem launchable_iff : Launchable cfg env ↔ ∃ pid, launchDaemon cfg env = .ok pid := by
  rw [Launchable, launchDaemon]
  cases hb : discoverBinary env with
  | error e => simp [bind, Except.bind]
  | ok binary =>
    cases hs : Utf8.decode? cfg.socketPath with
    | none => simp [bind, Except.bind]
    | some socket =>
      simp only [bind, Except.bind, Except.ok.injEq, Option.some.injEq, exists_eq_left',
        exists_and_left]
      cases env.spawn (launchArgs binary socket) <;> simp

structure Bounced (cfg : ReloadConfig) (env : Environment) (pid : Nat) (run : Run) : Prop where
  sent : ∀ q, .sigterm q ∈ run.events ↔ q = pid
  failed : ∀ e, launchDaemon cfg env = .error e → run.result = .error e
  launched : ∀ p, launchDaemon cfg env = .ok p →
    ∃ v code, run.result = .ok (v, code) ∧ v.status ≠ .failed

theorem bounced_of_bounce {pid : Nat} (h : bounce cfg env pid v = some run) :
    (∃ e, sendSigterm pid (env.kill pid) = .error e ∧ ∀ q, .sigterm q ∉ run.events) ∨
    sendSigterm pid (env.kill pid) = .ok () ∧ Bounced cfg env pid run := by
  obtain ⟨e, he, rfl⟩ | ⟨hok, done, _, hsent, ⟨e, he, rfl⟩ |
    ⟨newPid, asked, after, v', hp, _, hstatus, rfl⟩⟩ := bounce_cases h
  · exact Or.inl ⟨e, he, by simp⟩
  · refine Or.inr ⟨hok, hsent, fun e' he' => ?_, fun p hp => ?_⟩
    · rw [he] at he'
      cases he'
      rfl
    · rw [he] at hp
      cases hp
  · refine Or.inr ⟨hok, fun q => ?_, fun e he => ?_, fun p _ => ⟨v', _, rfl, ?_⟩⟩
    · rw [List.mem_append, hsent]
      simp
    · rw [hp] at he
      cases he
    · rw [hstatus, statusOf]
      split <;> exact ReloadStatus.noConfusion

theorem runReload_signals (h : runReload cfg env = some run) :
    ((∀ q, .sigterm q ∉ run.events) ∧ ∀ pid, ¬ Signals cfg env pid) ∨
      ∃ pid, Signals cfg env pid ∧ Bounced cfg env pid run := by
  cases hdry : cfg.dryRun with
  | true =>
    refine Or.inl ⟨fun q hq => ?_, fun pid hs => ?_⟩
    · cases runReload_dry h hdry _ hq
    · rw [hs.wet] at hdry
      cases hdry
  | false =>
    obtain ⟨hquiet, hno⟩ | ⟨hnone, newPid, hevents⟩ | ⟨pid, v, hb, _, h⟩ := runReload_cases h hdry
    · refine Or.inl ⟨fun q hq => ?_, fun pid hs => hno pid ⟨hs.daemon, hs.stale, hs.rebuilt⟩⟩
      cases hquiet _ hq
    · refine Or.inl ⟨fun q hq => by simp [hevents] at hq, fun pid hs => ?_⟩
      rw [hs.daemon] at hnone
      cases hnone
    · obtain ⟨e, he, hquiet⟩ | ⟨hok, hbounced⟩ := bounced_of_bounce h
      · refine Or.inl ⟨hquiet, fun q hs => ?_⟩
        have hkilled := hs.killed
        obtain rfl : pid = q := Option.some.inj (hb.daemon.symm.trans hs.daemon)
        rw [he] at hkilled
        cases hkilled
      · exact Or.inr ⟨pid, ⟨hb.daemon, hb.stale, hdry, hb.rebuilt, hok⟩, hbounced⟩

structure Builds (cfg : ReloadConfig) (env : Environment) (cloudbuild dest : String) : Prop where
  build : cfg.build = true
  wet : cfg.dryRun = false
  wanted : (env.doctor cfg.installedPath).daemonPid.isSome ∨ cfg.startIfAbsent = true
  stale : ¬ (cfg.requireFresh = true ∧ (env.doctor cfg.installedPath).daemonPid.isSome ∧
    (env.doctor cfg.installedPath).verdict = .current)
  cloudbuild : resolveCloudbuildPath env cfg.cloudbuildPath = .ok cloudbuild
  dest : resolveInstallDest env cfg.installedPath = .ok dest

variable {cloudbuild dest e : String}

theorem builds_of_buildCall (h : buildCall cfg env = some (cloudbuild, dest)) :
    Builds cfg env cloudbuild dest := by
  rw [buildCall] at h
  split at h
  · rename_i hcond
    obtain ⟨hbuild, hwet, hwanted, hstale⟩ := hcond
    split at h
    · rename_i hp hd
      cases h
      exact ⟨hbuild, hwet, hwanted, hstale, hp, hd⟩
    · cases h
  · cases h

theorem Builds.rebuild (h : Builds cfg env cloudbuild dest) :
    Reload.rebuild cfg env = env.cloudbuildAndInstall cloudbuild dest := by
  rw [Reload.rebuild, if_pos h.build, h.cloudbuild, h.dest]
  rfl

theorem Builds.failed (hb : Builds cfg env cloudbuild dest) (h : runReload cfg env = some run)
    (he : env.cloudbuildAndInstall cloudbuild dest = .error e) : run.result = .error e := by
  have hmeta : ∃ texts, buildMetadata cfg env = .ok texts := by
    rw [buildMetadata, if_pos hb.build, hb.cloudbuild, hb.dest]
    exact ⟨_, rfl⟩
  obtain ⟨texts, hmeta⟩ := hmeta
  have hrebuild := hb.rebuild.trans he
  rw [runReload, hmeta] at h
  dsimp only at h
  rw [if_neg, if_neg, if_neg, if_neg, hrebuild] at h
  · cases h
    rfl
  · rw [hb.wet]
    exact Bool.false_ne_true
  · simp [hb.build]
  · simp only [Bool.and_eq_true, decide_eq_true_eq]
    exact fun hcurrent => hb.stale ⟨hcurrent.1.1.2, hcurrent.1.2, hcurrent.2⟩
  · simp only [Bool.and_eq_true, Bool.not_eq_true', Option.isNone_iff_eq_none]
    rintro ⟨⟨hnone, habsent⟩, _⟩
    obtain hsome | hstart := hb.wanted
    · rw [hnone] at hsome
      cases hsome
    · rw [hstart] at habsent
      cases habsent

/-- The files when the reload is over. -/
def filesAfter (cfg : ReloadConfig) (m : Machine) (env : Environment) : Files :=
  match buildCall cfg (m.environment env) with
  | none => m.files
  | some (cloudbuild, dest) => (runCloudbuildAndInstall m env.pid env.home cloudbuild dest).2

def Run.Fails (run : Run) : Prop :=
  (∃ e, run.result = .error e) ∨ ∃ v code, run.result = .ok (v, code) ∧ v.status = .failed

/-- The binary is the old one, or the complete new one. -/
def Intact (m : Machine) (home : Option String) (files : Files) (dest : String) : Prop :=
  files (entry dest) = m.files (entry dest) ∨
    ∃ artifact, locateCloudbuildArtifact home m.built = .ok artifact ∧
      files (entry dest) = (m.built (entry artifact)).map Node.executable

/-- If the reload fails, nobody has been signalled, and the installed binary is intact. -/
def Harmless (cfg : ReloadConfig) (m : Machine) (env : Environment) (run : Run) : Prop :=
  run.Fails → (∀ pid, .sigterm pid ∉ run.events) ∧
    ∀ dest, resolveInstallDest env cfg.installedPath = .ok dest →
      Intact m env.home (filesAfter cfg m env) dest

/-- Where the copy has the name of the destination itself, an install that fails leaves the old
binary there, or the complete new one. -/
def SafelyNamed (cfg : ReloadConfig) (m : Machine) (env : Environment) : Prop :=
  ∀ cloudbuild dest artifact dir left,
    buildCall cfg (m.environment env) = some (cloudbuild, dest) →
    (buildArtifact m env.home cloudbuild dest).1 = .ok (artifact, dir) →
    entry (installTmp env.pid dir) = entry dest → m.leaves artifact = some left →
    left = m.files (entry dest) ∨ left = (m.built (entry artifact)).map Node.executable

variable {m : Machine}

theorem run_of_located {artifact dir : String}
    (h : (buildArtifact m env.home cloudbuild dest).1 = .ok (artifact, dir)) :
    runCloudbuildAndInstall m env.pid env.home cloudbuild dest =
      installArtifact m artifact (installTmp env.pid dir) dest := by
  rw [runCloudbuildAndInstall]
  cases hb : buildArtifact m env.home cloudbuild dest with
  | mk result files =>
    rw [hb] at h
    dsimp only at h
    rw [h]

theorem intact_of_safelyNamed (hsafe : SafelyNamed cfg m env)
    (hscript : m.built (entry dest) = m.files (entry dest))
    (hc : buildCall cfg (m.environment env) = some (cloudbuild, dest)) :
    Intact m env.home (runCloudbuildAndInstall m env.pid env.home cloudbuild dest).2 dest := by
  cases hb : (buildArtifact m env.home cloudbuild dest).1 with
  | error e =>
    have hfiles : (runCloudbuildAndInstall m env.pid env.home cloudbuild dest).2 =
        (buildArtifact m env.home cloudbuild dest).2 := by
      rw [runCloudbuildAndInstall]
      split
      · rename_i he
        rw [he]
      · rename_i he
        rw [he] at hb
        cases hb
    rw [hfiles]
    obtain h | h := buildArtifact_files m env.home cloudbuild dest
    · exact Or.inl (by rw [h])
    · exact Or.inl (by rw [h, hscript])
  | ok found =>
    obtain ⟨artifact, dir⟩ := found
    have hlocated := buildArtifact_located hb
    rw [run_of_located hb]
    obtain ⟨_, _, hdone⟩ | ⟨left, e, hleft, hbroken⟩ :=
      installArtifact_cases m artifact (installTmp env.pid dir) dest
    · exact Or.inr ⟨artifact, hlocated, hdone⟩
    · rw [hbroken]
      by_cases hname : entry (installTmp env.pid dir) = entry dest
      · rw [hname, Intact]
        dsimp only
        rw [Function.update_self]
        obtain hold | hnew := hsafe cloudbuild dest artifact dir left hc hb hname hleft
        · exact Or.inl hold
        · exact Or.inr ⟨artifact, hlocated, hnew⟩
      · refine Or.inl ?_
        dsimp only
        rw [Function.update_of_ne (Ne.symm hname), hscript]

/-- A reload that fails leaves the bus running and a whole binary, if and only if the launch that
follows a signal can be made, and the temporary name of the install is safe. -/
theorem failed_reload_harmless_iff (cfg : ReloadConfig) (m : Machine) (env : Environment)
    (run : Run) (hr : runReload cfg (m.environment env) = some run)
    (hscript : ∀ dest, resolveInstallDest env cfg.installedPath = .ok dest →
      m.built (entry dest) = m.files (entry dest)) :
    Harmless cfg m env run ↔
      (∀ pid, Signals cfg (m.environment env) pid → Launchable cfg env) ∧
        SafelyNamed cfg m env := by
  have hlaunch : Launchable cfg env ↔ ∃ pid, launchDaemon cfg (m.environment env) = .ok pid :=
    launchable_iff
  constructor
  · intro hharmless
    refine ⟨fun pid hsignals => ?_, fun cloudbuild dest artifact dir left hc hb hname hleft => ?_⟩
    · obtain ⟨_, hno⟩ | ⟨q, _, hbounced⟩ := runReload_signals hr
      · exact absurd hsignals (hno pid)
      · rw [hlaunch]
        cases hl : launchDaemon cfg (m.environment env) with
        | ok p => exact ⟨p, rfl⟩
        | error e =>
          have hquiet := (hharmless (Or.inl ⟨e, hbounced.failed e hl⟩)).1 q
          exact absurd ((hbounced.sent q).mpr rfl) hquiet
    · have hbuilds := builds_of_buildCall hc
      obtain ⟨hnone, _⟩ | ⟨left', e, hleft', hbroken⟩ :=
        installArtifact_cases m artifact (installTmp env.pid dir) dest
      · rw [hleft] at hnone
        cases hnone
      · obtain rfl : left = left' := Option.some.inj (hleft.symm.trans hleft')
        have hrun := (run_of_located hb).trans hbroken
        have hfails := hbuilds.failed hr (congrArg Prod.fst hrun)
        have hafter : filesAfter cfg m env (entry dest) = left := by
          rw [filesAfter, hc]
          dsimp only
          rw [hrun, hname]
          exact Function.update_self ..
        obtain hold | ⟨artifact', hlocated, hnew⟩ :=
          (hharmless (Or.inl ⟨e, hfails⟩)).2 dest hbuilds.dest
        · exact Or.inl (hafter.symm.trans hold)
        · obtain rfl : artifact = artifact' :=
            Except.ok.inj ((buildArtifact_located hb).symm.trans hlocated)
          exact Or.inr (hafter.symm.trans hnew)
  · rintro ⟨hsignals, hsafe⟩ hfails
    refine ⟨?_, fun dest hd => ?_⟩
    · obtain ⟨hquiet, _⟩ | ⟨pid, hs, hbounced⟩ := runReload_signals hr
      · exact hquiet
      · obtain ⟨p, hp⟩ := hlaunch.mp (hsignals pid hs)
        obtain ⟨v, code, hresult, hstatus⟩ := hbounced.launched p hp
        obtain ⟨e, he⟩ | ⟨v', code', hv, hfailed⟩ := hfails
        · rw [hresult] at he
          cases he
        · rw [hresult] at hv
          cases hv
          exact absurd hfailed hstatus
    · rw [filesAfter]
      cases hc : buildCall cfg (m.environment env) with
      | none => exact Or.inl rfl
      | some call =>
        obtain ⟨cloudbuild, dest'⟩ := call
        obtain rfl : dest = dest' :=
          Except.ok.inj (hd.symm.trans (builds_of_buildCall hc).dest)
        exact intact_of_safelyNamed hsafe (hscript dest hd) hc

def oldBinary : Node := ⟨[1, 2], 0o755⟩

def stuckMachine : Machine where
  files := fun k => if k = entry "/usr/bin/agorabus" then some oldBinary
    else if k = entry "/opt/cloudbuild.sh" then some ⟨[3], 0o755⟩ else none
  spawnBuild := .ok (some 0)
  built := fun k => if k = entry "/usr/bin/agorabus" then some oldBinary
    else if k = entry "/root/wintermute/agorabus/target/release/agorabus" then some ⟨[4, 5], 0o644⟩
    else none
  copy := .ok ()
  stat := .ok ()
  chmod := .ok ()
  rename := .error "Device or resource busy"
  removed := false

def buildConfig : ReloadConfig :=
  { config with build := true, cloudbuildPath := some "/opt/cloudbuild.sh" }

def buildEnvironment : Environment := { recoveredEnvironment with home := some "/root" }

theorem failed_reload_harmless_stuck :
    ∃ run, runReload buildConfig (stuckMachine.environment buildEnvironment) = some run ∧
      run.Fails ∧ Harmless buildConfig stuckMachine buildEnvironment run := by
  have hfails : (runReload buildConfig (stuckMachine.environment buildEnvironment)).map
      (fun run => run.result.toOption.isNone) = some true := by decide +kernel
  obtain ⟨run, hr, hnone⟩ := Option.map_eq_some_iff.mp hfails
  have hcall : buildCall buildConfig (stuckMachine.environment buildEnvironment) =
      some ("/opt/cloudbuild.sh", "/usr/bin/agorabus") := by decide +kernel
  have hfound : (buildArtifact stuckMachine buildEnvironment.home "/opt/cloudbuild.sh"
      "/usr/bin/agorabus").1.toOption =
      some ("/root/wintermute/agorabus/target/release/agorabus", "/usr/bin") := by decide +kernel
  have hscript : ∀ dest, resolveInstallDest buildEnvironment buildConfig.installedPath = .ok dest →
      stuckMachine.built (entry dest) = stuckMachine.files (entry dest) := by
    intro dest hd
    cases hd
    decide +kernel
  refine ⟨run, hr, ?_, (failed_reload_harmless_iff _ _ _ run hr hscript).mpr ⟨fun _ _ => ?_, ?_⟩⟩
  · cases he : run.result with
    | error e => exact Or.inl ⟨e, he⟩
    | ok v =>
      rw [he] at hnone
      cases hnone
  · exact ⟨"/usr/bin/agorabus", "/run/agorabus/sock", 42, rfl, rfl, rfl⟩
  · intro cloudbuild dest artifact dir left hc hb hname _
    rw [hcall] at hc
    cases hc
    rw [hb] at hfound
    cases hfound
    exact absurd hname (by decide +kernel)

/-- A socket path that is not valid UTF-8 is noticed when the daemon has been told to go. -/
theorem bad_socket_path_harmful :
    ¬ ∀ (cfg : ReloadConfig) (m : Machine) (env : Environment) (run : Run),
      runReload cfg (m.environment env) = some run →
      (∀ dest, resolveInstallDest env cfg.installedPath = .ok dest →
        m.built (entry dest) = m.files (entry dest)) → Harmless cfg m env run := by
  intro h
  let cfg : ReloadConfig := { config with socketPath := [0x2F, 0xFF] }
  let m : Machine := { stuckMachine with built := stuckMachine.files }
  have hr : runReload cfg (m.environment recoveredEnvironment) = some
      ⟨[.snapshot recoveredEnvironment.before, .sigterm 41],
        .error "socket path is not valid UTF-8"⟩ := by rfl
  have hharmless := h cfg m recoveredEnvironment _ hr (fun _ _ => rfl)
  exact (hharmless (Or.inl ⟨_, rfl⟩)).1 41 (List.mem_cons_of_mem _ (List.mem_singleton_self _))

end Agorabus.Reload
