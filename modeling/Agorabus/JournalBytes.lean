import Agorabus.Journal
import Agorabus.WireDaemon

namespace Agorabus.Journal

open Agorabus Daemon StepSystem TempFile

def textBytes (text : String) : List UInt8 := text.toByteArray.data.toList

/-- Bytes that are not UTF-8 are no text of a state. -/
def decodeBytes (bytes : List UInt8) : Option DurableState :=
  (String.fromUTF8? ⟨bytes.toArray⟩).bind DurableState.fromStr

/-- The bytes hold the state, with its maps in some order. -/
def Serializes (d : DurableState) (bytes : List UInt8) : Prop :=
  ∃ claims intents, Table.Enumerates d.claims claims ∧ Table.Enumerates d.intents intents ∧
    bytes = textBytes (DurableState.toJson claims intents).text

def SameEntries (d e : DurableState) : Prop :=
  (∀ path, d.claims.lookup path = e.claims.lookup path) ∧
    ∀ sid, d.intents.lookup sid = e.intents.lookup sid

theorem fromUTF8?_textBytes (text : String) :
    String.fromUTF8? ⟨(textBytes text).toArray⟩ = some text := by
  rw [textBytes, Array.toArray_toList]
  exact dif_pos text.isValidUTF8

theorem decodeBytes_serializes {d : DurableState} {bytes : List UInt8} (h : Serializes d bytes)
    (hfits : Table.All ClaimRecord.Fits d.claims) :
    ∃ loaded, decodeBytes bytes = some loaded ∧ SameEntries loaded d := by
  obtain ⟨claims, intents, hc, hi, rfl⟩ := h
  obtain ⟨loaded, hload, hclaims, hintents⟩ := DurableState.fromStr_text hc hi hfits
  refine ⟨loaded, ?_, hclaims, hintents⟩
  rw [decodeBytes, fromUTF8?_textBytes, Option.bind_some, hload]

theorem load_fits (disk : Disk UInt8) :
    Table.All ClaimRecord.Fits (load decodeBytes disk).claims := by
  rw [load]
  cases h : disk.content.bind decodeBytes with
  | none => exact Table.all_empty
  | some state =>
    obtain ⟨bytes, _, hs⟩ := Option.bind_eq_some_iff.mp h
    obtain ⟨text, _, hs⟩ := Option.bind_eq_some_iff.mp hs
    exact DurableState.fits_fromStr hs

/-- What a step takes in from outside is of the declared types. -/
def Move.InRange : Move → Prop
  | .daemon a => a.InRange
  | .save .. => True

section Run

variable {cfg : Config} {encode : Nat → DurableState → List UInt8} {p q : Process UInt8}

structure Writable (p : Process UInt8) : Prop where
  daemon : p.daemon.Fits
  taken : ∀ d ∈ p.taken, Table.All ClaimRecord.Fits d.claims

theorem writable_start (disk : Disk UInt8) (now : Nat) :
    Writable (.start decodeBytes disk [] now) :=
  ⟨fits_start now (load_fits disk) (List.forall_mem_nil _), List.forall_mem_nil _⟩

theorem writable_step {m : Move} (hcfg : cfg.drainResumeHintMs < 2 ^ 64) (hm : m.InRange)
    (hp : Writable p) (h : p.step cfg ClientMessage.fromStr encode m = some q) : Writable q := by
  cases m with
  | daemon a =>
    obtain ⟨_, t, ht, rfl⟩ := step_daemon.mp h
    refine ⟨hp.daemon.step hcfg hm a.typed_fromStr ht, List.forall_mem_append.mpr ⟨hp.taken, ?_⟩⟩
    intro d hd
    cases a with
    | persistSnapshot | finalSnapshot =>
      obtain rfl := List.mem_singleton.mp hd
      exact hp.daemon.bus.claims
    | _ => cases hd
  | save w order =>
    obtain ⟨_, _, _, htaken, ⟨_, hq⟩ | ⟨_, hret⟩⟩ := step_save h
    · exact ⟨hq ▸ hp.daemon, htaken ▸ hp.taken⟩
    · refine ⟨hp.daemon.step hcfg ?_ (Action.typed_fromStr _) hret, htaken ▸ hp.taken⟩
      cases w <;> trivial

/-- Whatever the clients send and in whatever order each save writes the maps: once a save has been
completed, the bytes of the state file are those of a snapshot of the bus, and a process that
starts on them has the intents of that snapshot and those of its claims that have not expired. -/
theorem snapshot_survives_restart (cfg : Config) (hcfg : cfg.drainResumeHintMs < 2 ^ 64)
    (encode : Nat → DurableState → List UInt8)
    (hencode : ∀ order d, Serializes d (encode order d))
    (disk : Disk UInt8) (now : Nat) (ms : List Move) (hms : ∀ m ∈ ms, m.InRange)
    (p : Process UInt8)
    (hu : Along (Process.step cfg ClientMessage.fromStr encode) Undisturbed
      (.start decodeBytes disk [] now) ms)
    (hr : run (Process.step cfg ClientMessage.fromStr encode) (.start decodeBytes disk [] now) ms =
      some p)
    (hs : p.files.saved = true) :
    ∃ d ∈ p.taken, (∃ order, p.files.disk.content = some (encode order d)) ∧
      ∀ log now' bus, bus = (Process.start decodeBytes p.files.disk log now').daemon.bus →
        (∀ path, bus.claims.lookup path =
          (d.claims.lookup path).filter (fun claim => decide (now' < claim.ttlUnixSecs))) ∧
        ∀ sid, bus.intents.lookup sid = d.intents.lookup sid := by
  have hp : Writable p ∧ Taken p ∧ Sound (Complete encode p.taken) p.files := by
    refine run_along_invariant
      (I := fun p => Writable p ∧ Taken p ∧ Sound (Complete encode p.taken) p.files)
      (P := fun p m => m.InRange ∧ Undisturbed p m) ?_
      ((along_and (P := fun _ m => m.InRange)).mpr ⟨along_of_forall _ hms, hu⟩) hr
      ⟨writable_start disk now, taken_start decodeBytes disk [] now,
        sound_start decodeBytes disk [] now⟩
    rintro p m q ⟨hw, ht, hsound⟩ ⟨hm, hu⟩ h
    exact ⟨writable_step hcfg hm hw h, taken_step ht h, sound_step ht hu hsound h⟩
  obtain ⟨hw, _, hsound⟩ := hp
  obtain ⟨bytes, hb, d, hd, order, rfl⟩ := hsound.target hs
  obtain ⟨loaded, hload, hclaims, hintents⟩ :=
    decodeBytes_serializes (hencode order d) (hw.taken d hd)
  have hfile : load decodeBytes p.files.disk = loaded := by
    rw [load, hb, Option.bind_some, hload]
    rfl
  refine ⟨d, hd, ⟨order, hb⟩, fun log now' bus hbus => ?_⟩
  rw [Process.start, hfile] at hbus
  subst hbus
  refine ⟨fun path => ?_, hintents⟩
  rw [← hclaims path]
  exact Table.lookup_retain _ _ path

end Run

def encodeBytes (order : Nat) (d : DurableState) : List UInt8 :=
  if order = 0 then textBytes (DurableState.toJson d.claims.pairs d.intents.pairs).text
  else textBytes (DurableState.toJson d.claims.pairs.reverse d.intents.pairs.reverse).text

theorem enumerates_reverse {α : Type} {m : Table String α} {es : List (String × α)}
    (h : Table.Enumerates m es) : Table.Enumerates m es.reverse where
  nodup := by
    rw [List.map_reverse]
    exact List.nodup_reverse.mpr h.nodup
  mem := fun k v => by rw [List.mem_reverse, h.mem k v]

theorem serializes_encodeBytes (order : Nat) (d : DurableState) :
    Serializes d (encodeBytes order d) := by
  have hclaims := Table.enumerates_pairs d.claims
  have hintents := Table.enumerates_pairs d.intents
  unfold encodeBytes
  split
  · exact ⟨_, _, hclaims, hintents, rfl⟩
  · exact ⟨_, _, enumerates_reverse hclaims, enumerates_reverse hintents, rfl⟩

def noFile : Disk UInt8 where
  tmp := none
  target := none
  inodes := []
  tmp_lt := fun i h => by cases h
  target_lt := fun i h => by cases h
  distinct := fun i h => by cases h

def bothSaves : List Move :=
  bothSnapshots ++ (List.replicate 4 (Move.save .persistTask 0) ++
    List.replicate 4 (Move.save .finalFlush 1))

theorem snapshot_survives_restart_acquire : ∃ p d,
    run (Process.step ⟨60, 1024, 3000, false, "carbon"⟩ ClientMessage.fromStr encodeBytes)
      (.start decodeBytes noFile [] 0) bothSaves = some p ∧
    d ∈ p.taken ∧ (∃ order, p.files.disk.content = some (encodeBytes order d)) ∧
    (Process.start decodeBytes p.files.disk [] 50).daemon.bus.claims.lookup "/x" =
      (d.claims.lookup "/x").filter (fun claim => decide (50 < claim.ttlUnixSecs)) := by
  have heval : (run (Process.step ⟨60, 1024, 3000, false, "carbon"⟩ ClientMessage.fromStr
      encodeBytes) (.start decodeBytes noFile [] 0) bothSaves).map (fun p => p.files.saved) =
        some true ∧
      Along (Process.step ⟨60, 1024, 3000, false, "carbon"⟩ ClientMessage.fromStr encodeBytes)
        Undisturbed (.start decodeBytes noFile [] 0) bothSaves := by
    decide +kernel
  obtain ⟨heval, hu⟩ := heval
  obtain ⟨p, hp, hsaved⟩ := Option.map_eq_some_iff.mp heval
  have hrange : ∀ m ∈ bothSaves, m.InRange := by
    simp [bothSaves, bothSnapshots, Move.InRange, Action.InRange]
  obtain ⟨d, hd, hcontent, hrestart⟩ := snapshot_survives_restart _ (by decide) encodeBytes
    serializes_encodeBytes _ 0 bothSaves hrange p hu hp hsaved
  exact ⟨p, d, hp, hd, hcontent, (hrestart [] 50 _ rfl).1 "/x"⟩

end Agorabus.Journal
