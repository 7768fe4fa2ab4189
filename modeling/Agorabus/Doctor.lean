import Agorabus.ReloadFailure

namespace Agorabus.Doctor

open Reload

/-- A process: its command line, where it can be read, and the socket that it serves, if it is a
daemon of the bus. -/
structure Process where
  pid : Nat
  cmdline : Option (List UInt8)
  serves : Option (List UInt8)

/-- The processes in any order, and what can be found out about their images. -/
structure Proc where
  processes : List Process
  exe : Nat → Option String
  exeInode : Nat → Option Nat
  ondiskInode : Option String → Option Nat
  nodup : (processes.map Process.pid).Nodup

def isAgorabusDaemon (p : Process) : Bool :=
  match p.cmdline.map (fun raw => raw.splitOn 0) with
  | some (first :: second :: _) =>
      "agorabus".toList.isSuffixOf (Utf8.lossy first).toList &&
        decide (Utf8.lossy second = "daemon")
  | _ => false

def findDaemonPid (processes : List Process) : Option Nat :=
  (((processes.filter isAgorabusDaemon).map Process.pid).insertionSort (· ≤ ·)).head?

def runDoctor (p : Proc) (installedPath : Option String) : DoctorReport :=
  match findDaemonPid p.processes with
  | none => ⟨none, .unknown⟩
  | some pid =>
    let verdict : Staleness :=
      if (p.exe pid).any (fun s => " (deleted)".toList.isSuffixOf s.toList) then .staleDeletedExe
      else match p.exeInode pid, p.ondiskInode installedPath with
        | some ei, some oi => if ei ≠ oi then .staleInodeDrift else .current
        | _, _ => .unknown
    ⟨some pid, verdict⟩

def Proc.environment (p : Proc) (env : Environment) : Environment :=
  { env with doctor := runDoctor p }

theorem head?_insertionSort {l : List Nat} {a : Nat} :
    (l.insertionSort (· ≤ ·)).head? = some a ↔ a ∈ l ∧ ∀ b ∈ l, a ≤ b := by
  have hperm := List.perm_insertionSort (· ≤ ·) l
  have hsorted := List.pairwise_insertionSort (· ≤ ·) l
  cases hs : l.insertionSort (· ≤ ·) with
  | nil =>
    rw [hs] at hperm
    rw [hperm.nil_eq.symm]
    simp
  | cons x xs =>
    rw [hs] at hperm hsorted
    have hleast : ∀ b ∈ l, x ≤ b := by
      intro b hb
      obtain rfl | hb := List.mem_cons.mp (hperm.mem_iff.mpr hb)
      · exact Nat.le_refl b
      · exact (List.pairwise_cons.mp hsorted).1 b hb
    have hx : x ∈ l := hperm.mem_iff.mp List.mem_cons_self
    rw [List.head?_cons, Option.some.injEq]
    constructor
    · rintro rfl
      exact ⟨hx, hleast⟩
    · rintro ⟨ha, hall⟩
      exact Nat.le_antisymm (hleast a ha) (hall x hx)

structure Target (processes : List Process) (q : Process) : Prop where
  mem : q ∈ processes
  accepted : isAgorabusDaemon q = true
  least : ∀ r ∈ processes, isAgorabusDaemon r = true → q.pid ≤ r.pid

variable {processes : List Process} {p : Proc} {cfg : ReloadConfig} {env : Environment}

theorem findDaemonPid_eq_some {pid : Nat} :
    findDaemonPid processes = some pid ↔ ∃ q, Target processes q ∧ q.pid = pid := by
  rw [findDaemonPid, head?_insertionSort]
  simp only [List.mem_map, List.mem_filter, forall_exists_index, and_imp]
  constructor
  · rintro ⟨⟨q, ⟨hq, hacc⟩, rfl⟩, hleast⟩
    exact ⟨q, ⟨hq, hacc, fun r hr hacc' => hleast r.pid r hr hacc' rfl⟩, rfl⟩
  · rintro ⟨q, hq, rfl⟩
    exact ⟨⟨q, ⟨hq.mem, hq.accepted⟩, rfl⟩, fun b r hr hacc hb => hb ▸ hq.least r hr hacc⟩

theorem runDoctor_daemonPid (p : Proc) (installedPath : Option String) :
    (runDoctor p installedPath).daemonPid = findDaemonPid p.processes := by
  rw [runDoctor]
  cases findDaemonPid p.processes <;> rfl

def Serves (p : Proc) (pid : Nat) (socket : List UInt8) : Prop :=
  ∃ q ∈ p.processes, q.pid = pid ∧ q.serves = some socket

theorem serves_of_mem {q : Process} (hq : q ∈ p.processes) {socket : List UInt8} :
    Serves p q.pid socket ↔ q.serves = some socket := by
  constructor
  · rintro ⟨r, hr, hpid, hserves⟩
    obtain rfl : r = q := List.inj_on_of_nodup_map p.nodup hr hq hpid
    exact hserves
  · intro h
    exact ⟨q, hq, rfl, h⟩

/-- The reload signals none but daemons of its own socket if and only if, where it comes to the
signal, the process that is taken for the daemon is one of them. -/
theorem signals_own_daemon_iff (cfg : ReloadConfig) (p : Proc) (env : Environment) (run : Run)
    (hr : runReload cfg (p.environment env) = some run) :
    (∀ pid, .sigterm pid ∈ run.events → Serves p pid cfg.socketPath) ↔
      ∀ q, Target p.processes q → Signals cfg (p.environment env) q.pid →
        q.serves = some cfg.socketPath := by
  have htarget {pid : Nat} (hs : Signals cfg (p.environment env) pid) :
      ∃ q, Target p.processes q ∧ q.pid = pid :=
    findDaemonPid_eq_some.mp ((runDoctor_daemonPid p _).symm.trans hs.daemon)
  constructor
  · intro h q hq hs
    obtain ⟨_, hno⟩ | ⟨pid, hs', hbounced⟩ := runReload_signals hr
    · exact absurd hs (hno q.pid)
    · have hpid : q.pid = pid := Option.some.inj (hs.daemon.symm.trans hs'.daemon)
      exact (serves_of_mem hq.mem).mp (h q.pid ((hbounced.sent q.pid).mpr hpid))
  · intro h pid hsent
    obtain ⟨hquiet, _⟩ | ⟨pid', hs, hbounced⟩ := runReload_signals hr
    · exact absurd hsent (hquiet pid)
    · obtain rfl := (hbounced.sent pid).mp hsent
      obtain ⟨q, hq, rfl⟩ := htarget hs
      exact (serves_of_mem hq.mem).mpr (h q hq hs)

def cmdlineOf (args : List String) : List UInt8 := [0].intercalate (args.map Utf8.encode)

def daemonProcess (pid : Nat) (socket : String) : Process :=
  ⟨pid, some (cmdlineOf ["/usr/bin/agorabus", "daemon", "--socket", socket]),
    some (Utf8.encode socket)⟩

def twoDaemons (own other : Nat) (h : own ≠ other) : Proc where
  processes := [daemonProcess own "/run/agorabus/sock", daemonProcess other "/tmp/test.sock"]
  exe := fun _ => some "/usr/bin/agorabus (deleted)"
  exeInode := fun _ => some 1
  ondiskInode := fun _ => some 2
  nodup := by simpa [daemonProcess] using h

theorem twoDaemons_accepted : ∀ socket ∈ ["/run/agorabus/sock", "/tmp/test.sock"], ∀ pid,
    isAgorabusDaemon (daemonProcess pid socket) = true := by
  intro socket hs pid
  simp only [List.mem_cons, List.not_mem_nil, or_false] at hs
  obtain rfl | rfl := hs
  · rfl
  · rfl

theorem signals_own_daemon_first : ∃ run,
    runReload config ((twoDaemons 41 52 (by decide)).environment recoveredEnvironment) =
        some run ∧
      .sigterm 41 ∈ run.events ∧
      ∀ pid, .sigterm pid ∈ run.events →
        Serves (twoDaemons 41 52 (by decide)) pid config.socketPath := by
  refine ⟨_, rfl, List.mem_cons_of_mem _ List.mem_cons_self,
    (signals_own_daemon_iff config _ recoveredEnvironment _ rfl).mpr fun q hq _ => ?_⟩
  have hmem : q ∈ [daemonProcess 41 "/run/agorabus/sock", daemonProcess 52 "/tmp/test.sock"] :=
    hq.mem
  obtain rfl | hq' := List.mem_cons.mp hmem
  · rfl
  · obtain rfl := List.mem_singleton.mp hq'
    have hleast := hq.least (daemonProcess 41 "/run/agorabus/sock") List.mem_cons_self
      (twoDaemons_accepted _ List.mem_cons_self 41)
    exact absurd hleast (by decide)

/-- The daemon of another socket has the smaller pid, and is told to go. -/
theorem other_daemon_signalled :
    ¬ ∀ (cfg : ReloadConfig) (p : Proc) (env : Environment) (run : Run),
      runReload cfg (p.environment env) = some run →
      ∀ pid, .sigterm pid ∈ run.events → Serves p pid cfg.socketPath := by
  intro h
  obtain ⟨q, hq, hpid, hserves⟩ := h config (twoDaemons 41 12 (by decide)) recoveredEnvironment _
    rfl 12 (List.mem_cons_of_mem _ List.mem_cons_self)
  have hmem : q ∈ [daemonProcess 41 "/run/agorabus/sock", daemonProcess 12 "/tmp/test.sock"] := hq
  obtain rfl | hq' := List.mem_cons.mp hmem
  · cases hpid
  · obtain rfl := List.mem_singleton.mp hq'
    exact absurd hserves (by decide +kernel)

section Launched

/-- The process has been started by `launchDaemon`, and its command line can be read, with or
without a zero byte at its end. -/
structure Launched (q : Process) (binary socket : String) : Prop where
  cmdline : q.cmdline = some (cmdlineOf (launchArgs binary socket)) ∨
    q.cmdline = some (cmdlineOf (launchArgs binary socket) ++ [0])
  binary : 0 ∉ Utf8.encode binary

def Recognised (processes : List Process) (q : Process) : Prop :=
  isAgorabusDaemon q = true ∧ (findDaemonPid processes).isSome

variable {q : Process} {binary socket : String}

theorem Launched.second (h : Launched q binary socket) : ∃ rest,
    q.cmdline.map (fun raw => raw.splitOn 0) =
      some (Utf8.encode binary :: Utf8.encode "--socket" :: rest) := by
  have hsplit (tail : List UInt8) : (cmdlineOf (launchArgs binary socket) ++ tail).splitOn 0 =
      Utf8.encode binary :: Utf8.encode "--socket" ::
        (Utf8.encode socket ++ 0 :: Utf8.encode "daemon" ++ tail).splitOn 0 := by
    have hargs : cmdlineOf (launchArgs binary socket) ++ tail = Utf8.encode binary ++ 0 ::
        (Utf8.encode "--socket" ++ 0 ::
          (Utf8.encode socket ++ 0 :: Utf8.encode "daemon" ++ tail)) := by
      simp [cmdlineOf, launchArgs, List.intercalate]
    rw [hargs, List.splitOn_append_cons_self_of_not_mem h.binary,
      List.splitOn_append_cons_self_of_not_mem (by decide)]
  obtain hq | hq := h.cmdline
  · have hnil := hsplit []
    rw [List.append_nil] at hnil
    exact ⟨_, by rw [hq, Option.map_some, hnil]⟩
  · exact ⟨_, by rw [hq, Option.map_some, hsplit]⟩

theorem Launched.not_accepted (h : Launched q binary socket) : isAgorabusDaemon q = false := by
  obtain ⟨rest, hsplit⟩ := h.second
  rw [isAgorabusDaemon, hsplit]
  have hsecond : Utf8.lossy (Utf8.encode "--socket") ≠ "daemon" := by decide
  simp [hsecond]

theorem findDaemonPid_without (hq : q ∈ p.processes) (hacc : isAgorabusDaemon q = false) :
    findDaemonPid (p.processes.filter (fun r => decide (r.pid ≠ q.pid))) =
      findDaemonPid p.processes := by
  rw [findDaemonPid, findDaemonPid, List.filter_filter]
  have hsame : p.processes.filter
      (fun r => isAgorabusDaemon r && decide (r.pid ≠ q.pid)) =
        p.processes.filter isAgorabusDaemon := by
    apply List.filter_congr
    intro r hr
    by_cases hpid : r.pid = q.pid
    · obtain rfl : r = q := List.inj_on_of_nodup_map p.nodup hr hq hpid
      simp [hacc]
    · simp [hpid]
  rw [hsame]

theorem findDaemonPid_eq_none (h : ∀ r ∈ processes, isAgorabusDaemon r = false) :
    findDaemonPid processes = none := by
  have hnone : processes.filter isAgorabusDaemon = [] := by
    apply List.filter_eq_nil_iff.mpr
    intro r hr hacc
    exact absurd ((h r hr).symm.trans hacc) (by decide)
  rw [findDaemonPid, hnone]
  rfl

/-- Whatever it is called with, `launchDaemon` starts a process that the detector does not take for
a daemon: the doctor and the next reload see what they would see without it. -/
theorem launched_never_recognised (p : Proc) (q : Process) (binary socket : String)
    (hq : q ∈ p.processes) (h : Launched q binary socket) :
    ¬ Recognised p.processes q ∧
      findDaemonPid p.processes =
        findDaemonPid (p.processes.filter (fun r => decide (r.pid ≠ q.pid))) ∧
      ((∀ r ∈ p.processes, isAgorabusDaemon r = true → r = q) →
        ∀ installedPath, runDoctor p installedPath = ⟨none, .unknown⟩) := by
  have hacc := h.not_accepted
  refine ⟨?_, (findDaemonPid_without hq hacc).symm, ?_⟩
  · rintro ⟨hrec, _⟩
    exact absurd (hacc.symm.trans hrec) (by decide)
  · intro honly installedPath
    have hnone : findDaemonPid p.processes = none := by
      apply findDaemonPid_eq_none
      intro r hr
      by_contra hr'
      obtain rfl := honly r hr (Bool.eq_true_of_not_eq_false hr')
      exact hr' hacc
    rw [runDoctor, hnone]

def launchedProcess : Process :=
  ⟨41, some (cmdlineOf (launchArgs "/usr/bin/agorabus" "/run/agorabus/sock") ++ [0]),
    some (Utf8.encode "/run/agorabus/sock")⟩

theorem launchedProcess_launched :
    Launched launchedProcess "/usr/bin/agorabus" "/run/agorabus/sock" :=
  ⟨Or.inr rfl, by decide⟩

def launchedAlone : Proc where
  processes := [launchedProcess]
  exe := fun _ => some "/usr/bin/agorabus"
  exeInode := fun _ => some 1
  ondiskInode := fun _ => some 1
  nodup := List.nodup_singleton 41

theorem launched_never_recognised_alone :
    ¬ Recognised launchedAlone.processes launchedProcess ∧
      runDoctor launchedAlone (some "/usr/bin/agorabus") = ⟨none, .unknown⟩ := by
  obtain ⟨hnot, -, halone⟩ := launched_never_recognised launchedAlone launchedProcess
    "/usr/bin/agorabus" "/run/agorabus/sock" List.mem_cons_self launchedProcess_launched
  exact ⟨hnot, halone (fun r hr _ => List.mem_singleton.mp hr) _⟩

theorem launched_not_recognised :
    ¬ ∀ (p : Proc) (q : Process) (binary socket : String),
      "agorabus".toList.isSuffixOf binary.toList = true → q ∈ p.processes →
      Launched q binary socket → Recognised p.processes q := by
  intro h
  obtain ⟨hacc, _⟩ := h launchedAlone launchedProcess "/usr/bin/agorabus" "/run/agorabus/sock"
    (by decide) List.mem_cons_self launchedProcess_launched
  exact absurd (launchedProcess_launched.not_accepted.symm.trans hacc) (by decide)

end Launched

end Agorabus.Doctor
