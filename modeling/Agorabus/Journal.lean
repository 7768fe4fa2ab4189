import Agorabus.Library.TempFile
import Agorabus.Steps
import Mathlib.Data.Fintype.Basic

namespace Agorabus.Journal

open Agorabus Daemon StepSystem TempFile

/-- The places of a daemon process that save the journal. They share the name of
the temporary file, which is derived from the process id. -/
inductive Writer where
  | persistTask
  | finalFlush
  deriving DecidableEq

instance : Fintype Writer := ⟨{.persistTask, .finalFlush}, fun w => by cases w <;> decide⟩

/-- What a missing or unparseable state file stands for is the empty state. -/
def load {B : Type} (decode : List B → Option DurableState) (disk : Disk B) : DurableState :=
  (disk.content.bind decode).getD .default

structure Process (B : Type) where
  daemon : Daemon
  files : Store Writer B
  taken : List DurableState

/-- A save writes the maps of its snapshot in some order. -/
inductive Move where
  | daemon (a : Action)
  | save (w : Writer) (order : Nat)

def snapshot (s : Daemon) : Writer → Option DurableState
  | .persistTask => match s.persist with
    | .saving d => some d
    | _ => none
  | .finalFlush => match s.main with
    | .flushing d => some d
    | _ => none

def Writer.returns (w : Writer) (ok : Bool) : Action :=
  match w with
  | .persistTask => .persistSave ok
  | .finalFlush => .finalSave ok

def takes (s : Daemon) : Action → List DurableState
  | .persistSnapshot | .finalSnapshot => [s.bus.toDurable]
  | _ => []

/-- Steps of the process other than those of its saves. -/
def Other : Action → Bool
  | .persistSave _ | .finalSave _ | .boot _ => false
  | _ => true

namespace Process

variable {B : Type}

def start (decode : List B → Option DurableState) (disk : Disk B) (log : List BroadcastMsg)
    (now : Nat) : Process B :=
  ⟨.start (load decode disk) log now, ⟨disk, fun _ => .idle, false⟩, []⟩

def step (cfg : Config) (fromStr : String → Option ClientMessage)
    (encode : Nat → DurableState → List B) (p : Process B) : Move → Option (Process B)
  | .daemon a =>
      if Other a then
        (Daemon.step cfg fromStr p.daemon a).map (fun t =>
          { p with daemon := t, taken := p.taken ++ takes p.daemon a })
      else none
  | .save w order =>
      (snapshot p.daemon w).bind (fun d =>
        match p.files.save w (encode order d) with
        | (files, .going) => some { p with files := files }
        | (files, .failed) => (Daemon.step cfg fromStr p.daemon (w.returns false)).map (fun t =>
            { p with daemon := t, files := files })
        | (files, .done) => (Daemon.step cfg fromStr p.daemon (w.returns true)).map (fun t =>
            { p with daemon := t, files := files }))

end Process

/-- No save opens or renames the temporary file while the other one has opened it and
not written yet. -/
def Undisturbed {B : Type} (p : Process B) : Move → Prop
  | .daemon _ => True
  | .save w _ => TempFile.Undisturbed p.files w

instance {B : Type} (p : Process B) : ∀ m, Decidable (Undisturbed p m)
  | .daemon _ => isTrue trivial
  | .save w _ => inferInstanceAs (Decidable (TempFile.Undisturbed p.files w))

variable {cfg : Config} {fromStr : String → Option ClientMessage} {B : Type}
  {encode : Nat → DurableState → List B} {p q : Process B}

theorem snapshot_congr {s t : Daemon} (hp : t.persist = s.persist) (hm : t.main = s.main)
    (w : Writer) : snapshot t w = snapshot s w := by
  cases w <;> simp only [snapshot, hp, hm]

theorem other_step {s t : Daemon} {a : Action} (h : Daemon.step cfg fromStr s a = some t)
    (ho : Other a) : t.file = s.file ∧ ∀ w, snapshot t w = snapshot s w ∨
      snapshot s w = none ∧ ∀ d, snapshot t w = some d → d ∈ takes s a := by
  cases hc : a.conn with
  | some c =>
    obtain ⟨hp, hm, hf, _⟩ := conn_frame h hc
    exact ⟨hf, fun w => Or.inl (snapshot_congr hp hm w)⟩
  | none =>
    cases a with
    | persistSnapshot =>
      obtain ⟨hp, rfl⟩ := step_persistSnapshot.mp h
      refine ⟨rfl, fun w => ?_⟩
      cases w with
      | persistTask => exact Or.inr ⟨by simp [snapshot, hp], fun d hd => by cases hd; simp [takes]⟩
      | finalFlush => exact Or.inl rfl
    | finalSnapshot =>
      obtain ⟨hm, _, _, rfl⟩ := step_finalSnapshot.mp h
      refine ⟨rfl, fun w => ?_⟩
      cases w with
      | persistTask => exact Or.inl rfl
      | finalFlush => exact Or.inr ⟨by simp [snapshot, hm], fun d hd => by cases hd; simp [takes]⟩
    | persistRecv =>
      obtain ⟨hp, _, rfl⟩ := step_persistRecv.mp h
      exact ⟨rfl, fun w => Or.inl (by cases w <;> simp [snapshot, hp])⟩
    | persistWake =>
      obtain ⟨hp, rfl⟩ := step_persistWake.mp h
      exact ⟨rfl, fun w => Or.inl (by cases w <;> simp [snapshot, hp])⟩
    | persistTryRecv =>
      obtain ⟨hp, rfl⟩ := step_persistTryRecv.mp h
      split
      · exact ⟨rfl, fun w => Or.inl rfl⟩
      · exact ⟨rfl, fun w => Or.inl (by cases w <;> simp [snapshot, hp])⟩
    | persistExit =>
      obtain ⟨_, hp, _, rfl⟩ := step_persistExit.mp h
      exact ⟨rfl, fun w => Or.inl (by cases w <;> simp [snapshot, hp])⟩
    | shutdown =>
      obtain ⟨hm, rfl⟩ := step_shutdown.mp h
      exact ⟨rfl, fun w => Or.inl (by cases w <;> simp [snapshot, hm])⟩
    | graceOver =>
      obtain ⟨hm, rfl⟩ := step_graceOver.mp h
      exact ⟨rfl, fun w => Or.inl (by cases w <;> simp [snapshot, hm])⟩
    | finish =>
      obtain ⟨hm, _, rfl⟩ := step_finish.mp h
      exact ⟨rfl, fun w => Or.inl (by cases w <;> simp [snapshot, hm])⟩
    | tick now =>
      obtain ⟨_, rfl⟩ := step_tick.mp h
      exact ⟨rfl, fun w => Or.inl rfl⟩
    | connect =>
      obtain ⟨_, rfl⟩ := step_connect.mp h
      exact ⟨rfl, fun w => Or.inl rfl⟩
    | uplinkEvent st =>
      obtain ⟨_, rfl⟩ := step_uplinkEvent.mp h
      exact ⟨rfl, fun w => Or.inl rfl⟩
    | uplinkInbound topic data origin =>
      obtain ⟨_, rfl⟩ := step_uplinkInbound.mp h
      exact ⟨rfl, fun w => Or.inl rfl⟩
    | presenceTick =>
      obtain ⟨_, rfl⟩ := step_presenceTick.mp h
      exact ⟨rfl, fun w => Or.inl rfl⟩
    | presenceSend now =>
      obtain ⟨_, _, _, _, rfl⟩ := step_presenceSend.mp h
      exact ⟨rfl, fun w => Or.inl rfl⟩
    | persistSave ok => cases ho
    | finalSave ok => cases ho
    | boot now => cases ho
    | _ => cases hc

theorem returns_step {s t : Daemon} {w : Writer} {ok : Bool}
    (h : Daemon.step cfg fromStr s (w.returns ok) = some t) :
    ∃ d, snapshot s w = some d ∧ t.file = (if ok then d else s.file) ∧
      ∀ v, snapshot t v = if v = w then none else snapshot s v := by
  cases w with
  | persistTask =>
    obtain ⟨d, hp, rfl⟩ := step_persistSave.mp h
    exact ⟨d, by simp [snapshot, hp], rfl, fun v => by cases v <;> rfl⟩
  | finalFlush =>
    obtain ⟨d, hm, rfl⟩ := step_finalSave.mp h
    exact ⟨d, by simp [snapshot, hm], rfl, fun v => by cases v <;> rfl⟩

theorem step_daemon {a : Action} :
    p.step cfg fromStr encode (.daemon a) = some q ↔ Other a ∧
      ∃ t, Daemon.step cfg fromStr p.daemon a = some t ∧
        { p with daemon := t, taken := p.taken ++ takes p.daemon a } = q := by
  simp [Process.step]

theorem step_save {w : Writer} {order : Nat}
    (h : p.step cfg fromStr encode (.save w order) = some q) :
    ∃ d, snapshot p.daemon w = some d ∧ q.files = (p.files.save w (encode order d)).1 ∧
      q.taken = p.taken ∧ ((p.files.save w (encode order d)).2 = .going ∧ q.daemon = p.daemon ∨
        (p.files.save w (encode order d)).2 ≠ .going ∧ Daemon.step cfg fromStr p.daemon
          (w.returns (decide ((p.files.save w (encode order d)).2 = .done))) = some q.daemon) := by
  obtain ⟨d, hd, h⟩ := Option.bind_eq_some_iff.mp h
  refine ⟨d, hd, ?_⟩
  split at h
  · rename_i files hf
    cases h
    exact ⟨by rw [hf], rfl, Or.inl ⟨by rw [hf], rfl⟩⟩
  · rename_i files hf
    obtain ⟨t, ht, rfl⟩ := Option.map_eq_some_iff.mp h
    exact ⟨by rw [hf], rfl, Or.inr (by rw [hf]; exact ⟨nofun, ht⟩)⟩
  · rename_i files hf
    obtain ⟨t, ht, rfl⟩ := Option.map_eq_some_iff.mp h
    exact ⟨by rw [hf], rfl, Or.inr (by rw [hf]; exact ⟨nofun, ht⟩)⟩

def Taken (p : Process B) : Prop := ∀ w d, snapshot p.daemon w = some d → d ∈ p.taken

theorem taken_step {m : Move} (hp : Taken p) (h : p.step cfg fromStr encode m = some q) :
    Taken q := by
  intro v d hv
  cases m with
  | daemon a =>
    obtain ⟨ho, t, ht, rfl⟩ := step_daemon.mp h
    obtain he | ⟨_, hnew⟩ := (other_step ht ho).2 v
    · exact List.mem_append_left _ (hp v d (he.symm.trans hv))
    · exact List.mem_append_right _ (hnew d hv)
  | save w order =>
    obtain ⟨_, _, _, htaken, ⟨_, hq⟩ | ⟨_, hret⟩⟩ := step_save h
    · rw [hq] at hv
      rw [htaken]
      exact hp v d hv
    · obtain ⟨_, _, _, hother⟩ := returns_step hret
      rw [hother] at hv
      rw [htaken]
      split at hv
      · cases hv
      · exact hp v d hv

/-- The bytes are the serialization of a snapshot the daemon has taken. -/
def Complete (encode : Nat → DurableState → List B) (taken : List DurableState)
    (bytes : List B) : Prop :=
  ∃ d ∈ taken, ∃ order, bytes = encode order d

theorem sound_step {m : Move} (ht : Taken p) (hu : Undisturbed p m)
    (hs : Sound (Complete encode p.taken) p.files) (h : p.step cfg fromStr encode m = some q) :
    Sound (Complete encode q.taken) q.files := by
  cases m with
  | daemon a =>
    obtain ⟨_, t, _, rfl⟩ := step_daemon.mp h
    refine hs.mono ?_
    rintro bytes ⟨d, hd, he⟩
    exact ⟨d, List.mem_append_left _ hd, he⟩
  | save w order =>
    obtain ⟨d, hd, hfiles, htaken, _⟩ := step_save h
    rw [hfiles, htaken]
    exact sound_save hs hu ⟨d, ht w d hd, order, rfl⟩

theorem taken_start (decode : List B → Option DurableState) (disk : Disk B)
    (log : List BroadcastMsg) (now : Nat) : Taken (.start decode disk log now) :=
  fun w d h => by cases w <;> cases h

theorem sound_start (decode : List B → Option DurableState) (disk : Disk B)
    (log : List BroadcastMsg) (now : Nat) :
    Sound (Complete encode []) (Process.start decode disk log now).files where
  opened := nofun
  single := nofun
  tmp := fun _ _ => Or.inr (Or.inl (fun _ => rfl))
  target := nofun

/-- As long as no save disturbs the other one, the state file holds a whole snapshot
from the first completed save on, and a load returns it. -/
theorem state_file_complete (cfg : Config) (fromStr : String → Option ClientMessage) {B : Type}
    (encode : Nat → DurableState → List B) (decode : List B → Option DurableState)
    (disk : Disk B) (log : List BroadcastMsg) (now : Nat) (ms : List Move) (p : Process B)
    (hcodec : ∀ d ∈ p.taken, ∀ order, decode (encode order d) = some d)
    (hu : Along (Process.step cfg fromStr encode) Undisturbed (.start decode disk log now) ms)
    (hr : run (Process.step cfg fromStr encode) (.start decode disk log now) ms = some p)
    (hs : p.files.saved = true) :
    ∃ d ∈ p.taken, ∃ order, p.files.disk.content = some (encode order d) ∧
      load decode p.files.disk = d := by
  have hp : Taken p ∧ Sound (Complete encode p.taken) p.files :=
    run_along_invariant (I := fun p => Taken p ∧ Sound (Complete encode p.taken) p.files)
      (fun _ _ _ hp hu h => ⟨taken_step hp.1 h, sound_step hp.1 hu hp.2 h⟩) hu hr
      ⟨taken_start decode disk log now, sound_start decode disk log now⟩
  obtain ⟨bytes, hb, d, hd, order, rfl⟩ := hp.2.target hs
  refine ⟨d, hd, order, hb, ?_⟩
  rw [load, hb, Option.bind_some, hcodec d hd]
  rfl

def Alone (p : Process B) : Move → Prop
  | .daemon _ => True
  | .save w _ => ∀ v, v ≠ w → p.files.phase v = .idle

/-- The bytes are the serialization of the snapshot the writer works on. -/
def Wants (encode : Nat → DurableState → List B) (s : Daemon) (w : Writer) (bytes : List B) :
    Prop :=
  ∃ d, snapshot s w = some d ∧ ∃ order, bytes = encode order d

theorem ready_congr {s t : Daemon} {w : Writer} {ph : TempFile.Phase} {disk : Disk B}
    (h : Ready (Wants encode s w) disk ph)
    (hw : ∀ d, snapshot s w = some d → snapshot t w = some d) :
    Ready (Wants encode t w) disk ph := by
  cases ph with
  | idle => trivial
  | opened fd => exact h
  | written | modeSet =>
    obtain ⟨i, bytes, hi, hb, d, hd, he⟩ := h
    exact ⟨i, bytes, hi, hb, d, hw d hd, he⟩

structure Mirrors (encode : Nat → DurableState → List B)
    (decode : List B → Option DurableState) (p : Process B) : Prop where
  steady : Steady (Wants encode p.daemon) p.files
  file : load decode p.files.disk = p.daemon.file

theorem mirrors_daemon {decode : List B → Option DurableState} {a : Action}
    (hp : Mirrors encode decode p) (h : p.step cfg fromStr encode (.daemon a) = some q) :
    Mirrors encode decode q := by
  obtain ⟨ho, t, ht, rfl⟩ := step_daemon.mp h
  obtain ⟨hf, hsnap⟩ := other_step ht ho
  refine ⟨fun w => ready_congr (hp.steady w) fun d hd => ?_, hp.file.trans hf.symm⟩
  obtain he | ⟨hn, _⟩ := hsnap w
  · exact he.trans hd
  · rw [hn] at hd
    cases hd

theorem mirrors_save {decode : List B → Option DurableState} {w : Writer} {order : Nat}
    (hp : Mirrors encode decode p) (ha : Alone p (.save w order))
    (hcodec : ∀ d, snapshot p.daemon w = some d → ∀ order, decode (encode order d) = some d)
    (h : p.step cfg fromStr encode (.save w order) = some q) : Mirrors encode decode q := by
  obtain ⟨d, hd, hfiles, _, hq⟩ := step_save h
  have hsave := steady_save hp.steady ha
    (show Wants encode p.daemon w (encode order d) from ⟨d, hd, order, rfl⟩)
  rw [← hfiles] at hsave
  obtain ⟨hgoing, hsteady, hcontent⟩ | ⟨hdone, hidle, b, hb, e, he, order', rfl⟩ := hsave
  · obtain ⟨_, hq⟩ | ⟨hn, _⟩ := hq
    · refine ⟨fun v => ?_, ?_⟩
      · rw [hq]
        exact hsteady v
      · rw [load, hcontent, hq]
        exact hp.file
    · exact absurd hgoing hn
  · obtain ⟨hg, _⟩ | ⟨_, hret⟩ := hq
    · rw [hdone] at hg
      cases hg
    · rw [hdone] at hret
      obtain ⟨d', hd', hfile, _⟩ := returns_step hret
      obtain rfl : e = d' := Option.some.inj (he.symm.trans hd')
      refine ⟨fun v => ?_, ?_⟩
      · rw [hidle v]
        trivial
      · rw [load, hb, Option.bind_some, hcodec e he, hfile]
        rfl

/-- Saves that do not overlap are atomic: the state file is what the daemon takes it for. -/
theorem load_eq_file (decode : List B → Option DurableState) (disk : Disk B)
    (log : List BroadcastMsg) (now : Nat) {ms : List Move}
    (hcodec : ∀ d ∈ p.taken, ∀ order, decode (encode order d) = some d)
    (ha : Along (Process.step cfg fromStr encode) Alone (.start decode disk log now) ms)
    (hr : run (Process.step cfg fromStr encode) (.start decode disk log now) ms = some p) :
    load decode p.files.disk = p.daemon.file := by
  have hp : Taken p ∧ ((∀ d ∈ p.taken, ∀ order, decode (encode order d) = some d) →
      Mirrors encode decode p) := by
    refine run_along_invariant
      (I := fun p => Taken p ∧ ((∀ d ∈ p.taken, ∀ order, decode (encode order d) = some d) →
        Mirrors encode decode p)) ?_ ha hr ⟨taken_start decode disk log now, fun _ => ?_⟩
    · intro p m q hp ha h
      refine ⟨taken_step hp.1 h, fun hc => ?_⟩
      cases m with
      | daemon a =>
        obtain ⟨_, _, _, rfl⟩ := step_daemon.mp h
        exact mirrors_daemon (hp.2 fun d hd => hc d (List.mem_append_left _ hd)) h
      | save w order =>
        obtain ⟨_, _, _, htaken, _⟩ := step_save h
        rw [htaken] at hc
        exact mirrors_save (hp.2 hc) ha (fun d hd => hc d (hp.1 w d hd)) h
    · exact ⟨fun _ => trivial, rfl⟩
  exact (hp.2 hcodec).file

def encodeFrom (known : List (DurableState × String)) (_ : Nat) (d : DurableState) : List Char :=
  (known.find? (fun e => e.1 = d)).elim [] (fun e => e.2.toList)

def decodeState (known : List (DurableState × String)) (bytes : List Char) :
    Option DurableState :=
  (known.find? (fun e => e.2.toList = bytes)).map Prod.fst

def held : DurableState × String :=
  (⟨AList.singleton "/x" ⟨"/x", "s1", 100, 2, ""⟩, ∅⟩,
    "\x7b\"claims\":\x7b\"/x\":\x7b\"path\":\"/x\",\"session_id\":\"s1\"," ++
      "\"ttl_unix_secs\":100,\"acquired_unix_secs\":2,\"reason\":\"\"\x7d\x7d," ++
      "\"intents\":\x7b\x7d\x7d")

def bothSnapshots : List Move :=
  [.connect, .line 0 (announceLine "s1") 1, .proceed 0 1 true, .line 0 acquireLine 2,
    .proceed 0 2 true, .proceed 0 2 true, .proceed 0 2 true, .persistRecv, .shutdown, .drain 0,
    .proceed 0 3 true, .graceOver, .persistWake, .persistTryRecv, .persistSnapshot,
    .finalSnapshot].map .daemon

def acquireRun (saves : List Writer) : Option (Process Char) :=
  run (Process.step ⟨60, 1024, 3000, false, "carbon"⟩ (decodeFrom
      [(announceLine "s1", .announce "s1" 7 "/" "" none),
        (acquireLine, .claimAcquire "/x" 100 "" false)]) (encodeFrom [held]))
    (.start (decodeState [held]) ⟨none, none, [], nofun, nofun, nofun⟩ [] 0)
    (bothSnapshots ++ saves.map (Move.save · 0))

theorem decode_held (order : Nat) :
    decodeState [held] (encodeFrom [held] order held.1) = some held.1 := by
  simp [decodeState, encodeFrom]

theorem state_file_complete_acquire :
    ∃ p, acquireRun (List.replicate 4 .persistTask ++ List.replicate 4 .finalFlush) = some p ∧
      load (decodeState [held]) p.files.disk = held.1 := by
  have hrun : (acquireRun (List.replicate 4 .persistTask ++ List.replicate 4 .finalFlush)).map
      (fun p => (p.files.saved, p.taken)) = some (true, [held.1, held.1]) := by decide +kernel
  obtain ⟨p, hp, he⟩ := Option.map_eq_some_iff.mp hrun
  simp only [Prod.mk.injEq] at he
  obtain ⟨hsaved, htaken⟩ := he
  have hcodec : ∀ d ∈ p.taken, ∀ order,
      decodeState [held] (encodeFrom [held] order d) = some d := by
    rw [htaken]
    simp [decode_held]
  have hu : Along (Process.step ⟨60, 1024, 3000, false, "carbon"⟩ (decodeFrom
      [(announceLine "s1", .announce "s1" 7 "/" "" none),
        (acquireLine, .claimAcquire "/x" 100 "" false)]) (encodeFrom [held])) Undisturbed
      (.start (decodeState [held]) ⟨none, none, [], nofun, nofun, nofun⟩ [] 0)
      (bothSnapshots ++ (List.replicate 4 Writer.persistTask ++
        List.replicate 4 Writer.finalFlush).map (Move.save · 0)) := by decide +kernel
  obtain ⟨d, hd, _, _, hload⟩ := state_file_complete _ _ _ _ _ _ _ _ p hcodec hu hp hsaved
  refine ⟨p, hp, hload.trans ?_⟩
  rw [htaken] at hd
  simpa using hd

/-- The final flush truncates the temporary file right before the persist task renames it. -/
theorem truncated_journal :
    ¬ ∀ (cfg : Config) (fromStr : String → Option ClientMessage)
      (encode : Nat → DurableState → List Char) (decode : List Char → Option DurableState)
      (disk : Disk Char) (log : List BroadcastMsg) (now : Nat) (ms : List Move) (p : Process Char),
      (∀ d ∈ p.taken, ∀ order, decode (encode order d) = some d) →
      run (Process.step cfg fromStr encode) (.start decode disk log now) ms = some p →
      p.files.saved = true →
      ∃ d ∈ p.taken, ∃ order, p.files.disk.content = some (encode order d) ∧
        load decode p.files.disk = d := by
  intro h
  have hrun : (acquireRun [.persistTask, .persistTask, .persistTask, .finalFlush,
      .persistTask]).map (fun p => (p.files.saved, p.files.disk.content, p.taken)) =
        some (true, some [], [held.1, held.1]) := by decide +kernel
  obtain ⟨p, hp, he⟩ := Option.map_eq_some_iff.mp hrun
  simp only [Prod.mk.injEq] at he
  obtain ⟨hsaved, hcontent, htaken⟩ := he
  have hcodec : ∀ d ∈ p.taken, ∀ order,
      decodeState [held] (encodeFrom [held] order d) = some d := by
    rw [htaken]
    simp [decode_held]
  obtain ⟨d, hd, order, hfull, _⟩ := h _ _ _ _ _ _ _ _ p hcodec hp hsaved
  rw [htaken] at hd
  obtain rfl : d = held.1 := by simpa using hd
  rw [hcontent] at hfull
  change some [] = some (encodeFrom [held] 0 held.1) at hfull
  revert hfull
  decide +kernel

end Agorabus.Journal
