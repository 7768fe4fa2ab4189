import Agorabus.Expired

namespace Agorabus

namespace Daemon

/-- Apart from their connections the daemons differ in expired claims only, in the table, in the
journal and on the way from one to the other. -/
structure Alike (s s' : Daemon) : Prop where
  clock : s.clock = s'.clock
  bus : BusState.Alike s.clock s.bus s'.bus
  log : s.log = s'.log
  uplinkStatus : s.uplinkStatus = s'.uplinkStatus
  presence : s.presence = s'.presence
  signals : s.signals = s'.signals
  persist : PersistPc.Alike s.clock s.persist s'.persist
  main : MainPc.Alike s.clock s.main s'.main
  file : DurableState.Alike s.clock s.file s'.file

theorem Alike.tick {s s' : Daemon} {now : Nat} (h : Alike s s') (hl : s.clock ≤ now) :
    Alike { s with clock := now } { s' with clock := now } where
  clock := rfl
  bus := h.bus.mono hl
  log := h.log
  uplinkStatus := h.uplinkStatus
  presence := h.presence
  signals := h.signals
  persist := h.persist.mono hl
  main := h.main.mono hl
  file := BusState.Alike.mono h.file hl

variable {cfg : Config} {fromStr : String → Option ClientMessage} {s s' t : Daemon} {a : Action}

def WrittenAfter (w w' : List OutLine) (k k' : Conn) : Prop :=
  ∃ rest, k = k'.rewritten (w ++ rest) ∧ k'.written = w' ++ rest

theorem WrittenAfter.refl (k : Conn) : WrittenAfter [] [] k k := ⟨k.written, rfl, rfl⟩

theorem WrittenAfter.eq {k k' : Conn} (h : WrittenAfter [] [] k k') : k = k' := by
  obtain ⟨rest, rfl, hw⟩ := h
  rw [List.nil_append] at hw ⊢
  rw [← hw]
  rfl

theorem alike_takeLine (cfg : Config) (fromStr : String → Option ClientMessage)
    (hs : Alike s s') {w w' : List OutLine} {now : Nat} {k k' : Conn}
    (hk : WrittenAfter w w' k k') (hn : s.clock ≤ now) (c : Nat) (text : String) :
    ∃ k₁ k₁', (s.takeLine cfg fromStr c k text now).conns = s.conns.set c k₁ ∧
      (s'.takeLine cfg fromStr c k' text now).conns = s'.conns.set c k₁' ∧
      WrittenAfter w w' k₁ k₁' ∧
      Alike (s.takeLine cfg fromStr c k text now) (s'.takeLine cfg fromStr c k' text now) := by
  obtain ⟨rest, rfl, hw⟩ := hk
  have hr := handleLine_alike cfg fromStr k' c s.uplinkStatus s.log.length (hs.bus.mono hn) text
  have hw' := (handleLine_conn cfg fromStr k' c s'.bus s.uplinkStatus s.log.length now text).2.1
  have ht := hs.tick hn
  simp only [takeLine, handleLine_rewritten, ← hs.log, ← hs.uplinkStatus]
  refine ⟨_, _, rfl, rfl, ⟨rest, by rw [hr.conn], hw'.trans hw⟩, ?_⟩
  exact ⟨rfl, hr.bus, congrArg (s.log ++ ·) hr.sent, rfl, hs.presence, hs.signals, ht.persist,
    ht.main, ht.file⟩

theorem WrittenAfter.append {w w' : List OutLine} {k k' : Conn} (h : WrittenAfter w w' k k')
    (l : OutLine) : WrittenAfter w w' { k with written := k.written ++ [l] }
      { k' with written := k'.written ++ [l] } := by
  obtain ⟨rest, rfl, hw⟩ := h
  refine ⟨rest ++ [l], ?_, ?_⟩
  · rw [← List.append_assoc]
    rfl
  · rw [← List.append_assoc, ← hw]

theorem WrittenAfter.withPending {w w' : List OutLine} {k k' : Conn} (h : WrittenAfter w w' k k')
    (st : Status) (es : List Effect) : WrittenAfter w w' { k with status := st, pending := es }
      { k' with status := st, pending := es } := by
  obtain ⟨rest, rfl, hw⟩ := h
  exact ⟨rest, rfl, hw⟩

theorem WrittenAfter.performed {w w' : List OutLine} {k k' : Conn} (h : WrittenAfter w w' k k')
    (ok : Bool) (e : Effect) :
    WrittenAfter w w' (Conn.performed k ok e) (Conn.performed k' ok e) := by
  have hp : k.pending = k'.pending := by
    obtain ⟨rest, rfl, _⟩ := h
    rfl
  cases e with
  | write l =>
    cases ok with
    | true => exact h.append l
    | false => exact h.withPending .returned []
  | writeNotice n =>
    cases ok with
    | true => exact h.append (.notice n)
    | false => exact h
  | bail => exact h.withPending .returned []
  | cleanup =>
    have hc := h.withPending .returned k.pending
    rw [show ({ k' with status := .returned, pending := k.pending } : Conn) =
      { k' with status := .returned } by rw [hp]] at hc
    exact hc
  | _ => exact h

theorem alike_perform (hs : Alike s s') {w w' : List OutLine} {k k' : Conn}
    (hk : WrittenAfter w w' k k') (c : Nat) (ok : Bool) (e : Effect) :
    Alike (s.perform c k s.clock ok e) (s'.perform c k' s.clock ok e) := by
  have hsid : k.sessionId = k'.sessionId := by
    obtain ⟨rest, rfl, _⟩ := hk
    rfl
  have hb : BusState.Alike s.clock (s.perform c k s.clock ok e).bus
      (s'.perform c k' s.clock ok e).bus := by
    rw [perform_bus, perform_bus, hsid]
    exact hs.bus.commit _
  cases e with
  | signal =>
    refine ⟨hs.clock, hb, hs.log, hs.uplinkStatus, hs.presence, ?_, hs.persist, hs.main, hs.file⟩
    simp only [perform, setConn, hs.signals]
  | broadcast m =>
    exact ⟨hs.clock, hb, congrArg (· ++ [m]) hs.log, hs.uplinkStatus, hs.presence, hs.signals,
      hs.persist, hs.main, hs.file⟩
  | write l => cases ok <;> exact ⟨hs.clock, hb, hs.log, hs.uplinkStatus, hs.presence, hs.signals,
      hs.persist, hs.main, hs.file⟩
  | _ => exact ⟨hs.clock, hb, hs.log, hs.uplinkStatus, hs.presence, hs.signals, hs.persist, hs.main,
      hs.file⟩

theorem WrittenAfter.idle {w w' : List OutLine} {k k' : Conn} (h : WrittenAfter w w' k k') :
    k.idle = k'.idle := by
  obtain ⟨rest, rfl, _⟩ := h
  rfl

theorem Alike.setConn (hs : Alike s s') (c : Nat) (k k' : Conn) :
    Alike (s.setConn c k) (s'.setConn c k') :=
  ⟨hs.clock, hs.bus, hs.log, hs.uplinkStatus, hs.presence, hs.signals, hs.persist, hs.main,
    hs.file⟩

theorem takeEvent_alike (hs : Alike s s') {w w' : List OutLine} {k k' : Conn} {c rx : Nat}
    (hk : WrittenAfter w w' k k') (h : s.takeEvent cfg c k rx = some t) :
    ∃ k₁ k₁', t = s.setConn c k₁ ∧ s'.takeEvent cfg c k' rx = some (s'.setConn c k₁') ∧
      WrittenAfter w w' k₁ k₁' := by
  obtain ⟨rest, rfl, hw⟩ := hk
  unfold takeEvent at h ⊢
  rw [← hs.log]
  split at h
  · rename_i hlag
    cases h
    exact ⟨_, _, rfl, if_pos hlag, rest, rfl, hw⟩
  · rename_i hup
    obtain ⟨m, hm, rfl⟩ := Option.map_eq_some_iff.mp h
    refine ⟨_, { k' with
      bcastRx := some (rx + 1)
      pending := if topicMatches k'.subscribedPrefixes m.topic
        then [.write (.event m.toEvent)] else [] }, rfl, ?_, rest, rfl, hw⟩
    rw [if_neg hup, hm]
    rfl

theorem alike_conn_step (hs : Alike s s') {w w' : List OutLine} {c : Nat} {k k' : Conn}
    (ha : a.conn = some c) (hk : s.conns[c]? = some k) (hk' : s'.conns[c]? = some k')
    (hw : WrittenAfter w w' k k') (h : step cfg fromStr s a = some t) :
    ∃ t' k₁ k₁', step cfg fromStr s' a = some t' ∧ Alike t t' ∧ t.conns = s.conns.set c k₁ ∧
      t'.conns = s'.conns.set c k₁' ∧ WrittenAfter w w' k₁ k₁' := by
  have hidle := hw.idle
  cases a with
  | line d text now =>
    cases ha
    obtain ⟨k₀, hk₀, ⟨hi, hn⟩, rfl⟩ := step_line.mp h
    obtain rfl : k = k₀ := Option.some.inj (hk.symm.trans hk₀)
    obtain ⟨k₁, k₁', hc, hc', hw₁, ht⟩ := alike_takeLine cfg fromStr hs hw hn c text
    exact ⟨_, k₁, k₁', step_line.mpr ⟨k', hk', ⟨hidle ▸ hi, hs.clock ▸ hn⟩, rfl⟩, ht, hc, hc',
      hw₁⟩
  | hangup d =>
    cases ha
    obtain ⟨k₀, hk₀, hi, rfl⟩ := step_hangup.mp h
    obtain rfl : k = k₀ := Option.some.inj (hk.symm.trans hk₀)
    refine ⟨_, _, _, step_hangup.mpr ⟨k', hk', hidle ▸ hi, rfl⟩, hs.setConn .., rfl, rfl, ?_⟩
    obtain ⟨rest, rfl, hw⟩ := hw
    exact ⟨rest, rfl, hw⟩
  | event d =>
    cases ha
    obtain ⟨k₀, rx, hk₀, hrx, hi, he⟩ := step_event.mp h
    obtain rfl : k = k₀ := Option.some.inj (hk.symm.trans hk₀)
    have hrx' : k'.bcastRx = some rx := by
      obtain ⟨rest, rfl, _⟩ := hw
      exact hrx
    obtain ⟨k₁, k₁', rfl, he', hw₁⟩ := takeEvent_alike hs hw he
    exact ⟨_, k₁, k₁', step_event.mpr ⟨k', rx, hk', hrx', hidle ▸ hi, he'⟩, hs.setConn .., rfl, rfl,
      hw₁⟩
  | drain d =>
    cases ha
    obtain ⟨k₀, hk₀, hm, hi, rfl⟩ := step_drain.mp h
    obtain rfl : k = k₀ := Option.some.inj (hk.symm.trans hk₀)
    have hm' : s'.main = .draining ∨ s'.main = .aborting := by
      obtain hm | hm := hm
      · exact Or.inl ((hs.main.eq_of (by rw [hm]; nofun)).trans hm)
      · exact Or.inr ((hs.main.eq_of (by rw [hm]; nofun)).trans hm)
    refine ⟨_, _, _, step_drain.mpr ⟨k', hk', hm', hidle ▸ hi, rfl⟩, hs.setConn .., rfl, rfl, ?_⟩
    obtain ⟨rest, rfl, hw⟩ := hw
    exact ⟨rest, rfl, hw⟩
  | proceed d now ok =>
    cases ha
    obtain ⟨k₀, e, es, hk₀, hp, ⟨hr, hn⟩, rfl⟩ := step_proceed.mp h
    obtain rfl : k = k₀ := Option.some.inj (hk.symm.trans hk₀)
    have hp' : k'.pending = e :: es ∧ k'.status = .running := by
      obtain ⟨rest, rfl, _⟩ := hw
      exact ⟨hp, hr⟩
    have hes : WrittenAfter w w' { k with pending := es } { k' with pending := es } := by
      obtain ⟨rest, rfl, hw⟩ := hw
      exact ⟨rest, rfl, hw⟩
    exact ⟨_, _, _, step_proceed.mpr ⟨k', e, es, hk', hp'.1, ⟨hp'.2, hs.clock ▸ hn⟩, rfl⟩,
      alike_perform (hs.tick hn) hes c ok e, perform_performed .., perform_performed ..,
      hes.performed ok e⟩
  | abort d =>
    cases ha
    obtain ⟨k₀, hk₀, hm, ⟨hr, hat⟩, rfl⟩ := step_abort.mp h
    obtain rfl : k = k₀ := Option.some.inj (hk.symm.trans hk₀)
    have hm' : s'.main = .aborting := (hs.main.eq_of (by rw [hm]; nofun)).trans hm
    have hr' : k'.status = .running ∧ k'.atAwait := by
      obtain ⟨rest, rfl, _⟩ := hw
      exact ⟨hr, hat⟩
    exact ⟨_, _, _, step_abort.mpr ⟨k', hk', hm', hr', rfl⟩, hs.setConn .., rfl, rfl,
      hw.withPending .aborted []⟩
  | _ => cases ha

theorem alike_other_step (hs : Alike s s')
    (hst : (∀ k ∈ s.conns, k.status ≠ .running) → ∀ k ∈ s'.conns, k.status ≠ .running)
    (ha : a.conn = none) (h : step cfg fromStr s a = some t) :
    ∃ t', step cfg fromStr s' a = some t' ∧ Alike t t' ∧
      ((t.conns = s.conns ∧ t'.conns = s'.conns) ∨
        (t.conns = s.conns ++ [.fresh] ∧ t'.conns = s'.conns ++ [.fresh]) ∨
        (t.conns = [] ∧ t'.conns = [])) := by
  have hmain {p : MainPc} (hm : s.main = p) (hne : ∀ d, p ≠ .flushing d) : s'.main = p :=
    (hs.main.eq_of (hm ▸ hne)).trans hm
  have hpersist {p : PersistPc} (hp : s.persist = p) (hne : ∀ d, p ≠ .saving d) : s'.persist = p :=
    (hs.persist.eq_of (hp ▸ hne)).trans hp
  have hstay {u u' : Daemon} (hu : u.conns = s.conns) (hu' : u'.conns = s'.conns) :
      (u.conns = s.conns ∧ u'.conns = s'.conns) ∨
        (u.conns = s.conns ++ [.fresh] ∧ u'.conns = s'.conns ++ [.fresh]) ∨
        (u.conns = [] ∧ u'.conns = []) := Or.inl ⟨hu, hu'⟩
  have htick {now : Nat} (hn : s.clock ≤ now) := hs.tick hn
  obtain ⟨hclock, hbus, hlog, hup, hpres, hsig, hper, hmn, hfile⟩ := hs
  cases a with
  | tick now =>
    obtain ⟨hn, rfl⟩ := step_tick.mp h
    exact ⟨_, step_tick.mpr ⟨hclock ▸ hn, rfl⟩, htick hn, hstay rfl rfl⟩
  | connect =>
    obtain ⟨hm, rfl⟩ := step_connect.mp h
    have hm' : s'.main.isServing := by
      cases hmn' : s.main <;> rw [hmn'] at hm <;> cases hm
      rw [hmain hmn' nofun]
      rfl
    exact ⟨_, step_connect.mpr ⟨hm', rfl⟩,
      ⟨hclock, hbus, hlog, hup, hpres, hsig, hper, hmn, hfile⟩, Or.inr (Or.inl ⟨rfl, rfl⟩)⟩
  | uplinkEvent st =>
    obtain ⟨⟨hu, hm⟩, rfl⟩ := step_uplinkEvent.mp h
    exact ⟨_, step_uplinkEvent.mpr ⟨⟨hu, hmn.uplinkAlive ▸ hm⟩, rfl⟩,
      ⟨hclock, hbus, hlog, rfl, hpres, hsig, hper, hmn, hfile⟩, hstay rfl rfl⟩
  | uplinkInbound topic data origin =>
    obtain ⟨⟨hu, hm⟩, rfl⟩ := step_uplinkInbound.mp h
    exact ⟨_, step_uplinkInbound.mpr ⟨⟨hu, hmn.uplinkAlive ▸ hm⟩, rfl⟩,
      ⟨hclock, hbus, congrArg (· ++ _) hlog, hup, hpres, hsig, hper, hmn, hfile⟩, hstay rfl rfl⟩
  | presenceTick =>
    obtain ⟨⟨hu, hm, he⟩, rfl⟩ := step_presenceTick.mp h
    exact ⟨_, step_presenceTick.mpr ⟨⟨hu, hmn.uplinkAlive ▸ hm, hpres ▸ he⟩, rfl⟩,
      ⟨hclock, hbus, hlog, hup, congrArg Table.values hbus.tables.1, hsig, hper, hmn, hfile⟩,
      hstay rfl rfl⟩
  | presenceSend now =>
    obtain ⟨p, ps, hp, hn, rfl⟩ := step_presenceSend.mp h
    have ht := htick hn
    exact ⟨_, step_presenceSend.mpr ⟨p, ps, hpres ▸ hp, hclock ▸ hn, rfl⟩,
      ⟨rfl, ht.bus, congrArg (· ++ _) hlog, hup, rfl, hsig, ht.persist, ht.main, ht.file⟩,
      hstay rfl rfl⟩
  | persistRecv =>
    obtain ⟨hp, hpos, rfl⟩ := step_persistRecv.mp h
    exact ⟨_, step_persistRecv.mpr ⟨hpersist hp nofun, hsig ▸ hpos, rfl⟩,
      ⟨hclock, hbus, hlog, hup, hpres, congrArg (· - 1) hsig, .same _, hmn, hfile⟩, hstay rfl rfl⟩
  | persistWake =>
    obtain ⟨hp, rfl⟩ := step_persistWake.mp h
    exact ⟨_, step_persistWake.mpr ⟨hpersist hp nofun, rfl⟩,
      ⟨hclock, hbus, hlog, hup, hpres, hsig, .same _, hmn, hfile⟩, hstay rfl rfl⟩
  | persistTryRecv =>
    obtain ⟨hp, rfl⟩ := step_persistTryRecv.mp h
    refine ⟨_, step_persistTryRecv.mpr ⟨hpersist hp nofun, rfl⟩, ?_⟩
    rw [← hsig]
    split
    · exact ⟨⟨hclock, hbus, hlog, hup, hpres, rfl, hper, hmn, hfile⟩, hstay rfl rfl⟩
    · exact ⟨⟨hclock, hbus, hlog, hup, hpres, rfl, .same _, hmn, hfile⟩, hstay rfl rfl⟩
  | persistSnapshot =>
    obtain ⟨hp, rfl⟩ := step_persistSnapshot.mp h
    exact ⟨_, step_persistSnapshot.mpr ⟨hpersist hp nofun, rfl⟩,
      ⟨hclock, hbus, hlog, hup, hpres, hsig, .saving hbus.toDurable, hmn, hfile⟩, hstay rfl rfl⟩
  | persistSave ok =>
    obtain ⟨d, hp, rfl⟩ := step_persistSave.mp h
    obtain ⟨d', hp', hd⟩ := PersistPc.Alike.saving_left (hp ▸ hper)
    refine ⟨_, step_persistSave.mpr ⟨d', hp', rfl⟩, ?_, hstay rfl rfl⟩
    cases ok with
    | true => exact ⟨hclock, hbus, hlog, hup, hpres, hsig, .same _, hmn, hd⟩
    | false => exact ⟨hclock, hbus, hlog, hup, hpres, hsig, .same _, hmn, hfile⟩
  | persistExit =>
    obtain ⟨hm, hp, hz, rfl⟩ := step_persistExit.mp h
    exact ⟨_, step_persistExit.mpr ⟨hmain hm nofun, hpersist hp nofun, hsig ▸ hz, rfl⟩,
      ⟨hclock, hbus, hlog, hup, hpres, hsig, .same _, hmn, hfile⟩, hstay rfl rfl⟩
  | shutdown =>
    obtain ⟨hm, rfl⟩ := step_shutdown.mp h
    exact ⟨_, step_shutdown.mpr ⟨hmain hm nofun, rfl⟩,
      ⟨hclock, hbus, hlog, hup, hpres, hsig, hper, .same _, hfile⟩, hstay rfl rfl⟩
  | graceOver =>
    obtain ⟨hm, rfl⟩ := step_graceOver.mp h
    exact ⟨_, step_graceOver.mpr ⟨hmain hm nofun, rfl⟩,
      ⟨hclock, hbus, hlog, hup, hpres, hsig, hper, .same _, hfile⟩, hstay rfl rfl⟩
  | finalSnapshot =>
    obtain ⟨hm, hall, he, rfl⟩ := step_finalSnapshot.mp h
    exact ⟨_, step_finalSnapshot.mpr ⟨hmain hm nofun, hst hall, hpres ▸ he, rfl⟩,
      ⟨hclock, hbus, hlog, hup, hpres, hsig, hper, .flushing hbus.toDurable, hfile⟩, hstay rfl rfl⟩
  | finalSave ok =>
    obtain ⟨d, hm, rfl⟩ := step_finalSave.mp h
    obtain ⟨d', hm', hd⟩ := MainPc.Alike.flushing_left (hm ▸ hmn)
    refine ⟨_, step_finalSave.mpr ⟨d', hm', rfl⟩, ?_, hstay rfl rfl⟩
    cases ok with
    | true => exact ⟨hclock, hbus, hlog, hup, hpres, hsig, hper, .same _, hd⟩
    | false => exact ⟨hclock, hbus, hlog, hup, hpres, hsig, hper, .same _, hfile⟩
  | finish =>
    obtain ⟨hm, hp, rfl⟩ := step_finish.mp h
    exact ⟨_, step_finish.mpr ⟨hmain hm nofun, hpersist hp nofun, rfl⟩,
      ⟨hclock, hbus, hlog, hup, hpres, hsig, hper, .same _, hfile⟩, hstay rfl rfl⟩
  | boot now =>
    obtain ⟨hm, hn, rfl⟩ := step_boot.mp h
    have hf := BusState.Alike.mono hfile hn
    refine ⟨_, step_boot.mpr ⟨hmain hm nofun, hclock ▸ hn, rfl⟩, ?_, Or.inr (Or.inr ⟨rfl, rfl⟩)⟩
    refine ⟨rfl, ?_, hlog, rfl, rfl, rfl, .same _, .same _, hf⟩
    rw [BusState.Alike] at hf
    simp only [start, hf]
    exact rfl
  | _ => cases ha

structure ConnsAlike (R : Conn → Conn → Prop) (c : Nat) (xs ys : List Conn) : Prop where
  length : xs.length = ys.length
  others : ∀ d, d ≠ c → xs[d]? = ys[d]?
  here : xs[c]? = ys[c]? ∨ ∃ k k', xs[c]? = some k ∧ ys[c]? = some k' ∧ R k k'

variable {R : Conn → Conn → Prop} {c : Nat} {xs ys : List Conn}

theorem ConnsAlike.flip (h : ConnsAlike R c xs ys) : ConnsAlike (fun k k' => R k' k) c ys xs :=
  ⟨h.length.symm, fun d hd => (h.others d hd).symm,
    h.here.imp Eq.symm (fun ⟨k, k', hk, hk', hr⟩ => ⟨k', k, hk', hk, hr⟩)⟩

theorem ConnsAlike.set_other (h : ConnsAlike R c xs ys) {d : Nat} (hd : d ≠ c) (k : Conn) :
    ConnsAlike R c (xs.set d k) (ys.set d k) := by
  refine ⟨by simp [h.length], fun e he => ?_, ?_⟩
  · rw [List.getElem?_set, List.getElem?_set, h.others e he, h.length]
  · rw [List.getElem?_set_ne hd, List.getElem?_set_ne hd]
    exact h.here

theorem ConnsAlike.set_here (h : ConnsAlike R c xs ys) (hc : c < xs.length) {k k' : Conn}
    (hk : k = k' ∨ R k k') : ConnsAlike R c (xs.set c k) (ys.set c k') := by
  refine ⟨by simp [h.length], fun e he => ?_, ?_⟩
  · rw [List.getElem?_set_ne (Ne.symm he), List.getElem?_set_ne (Ne.symm he)]
    exact h.others e he
  · rw [List.getElem?_set_self hc, List.getElem?_set_self (h.length ▸ hc)]
    obtain rfl | hk := hk
    · exact Or.inl rfl
    · exact Or.inr ⟨k, k', rfl, rfl, hk⟩

theorem ConnsAlike.append (h : ConnsAlike R c xs ys) (k : Conn) :
    ConnsAlike R c (xs ++ [k]) (ys ++ [k]) := by
  have same {d : Nat} (hd : xs[d]? = ys[d]?) : (xs ++ [k])[d]? = (ys ++ [k])[d]? := by
    rw [List.getElem?_append, List.getElem?_append, hd, h.length]
  refine ⟨by simp [h.length], fun d hd => same (h.others d hd), ?_⟩
  obtain he | ⟨k₁, k₁', hk, hk', hr⟩ := h.here
  · exact Or.inl (same he)
  · refine Or.inr ⟨k₁, k₁', ?_, ?_, hr⟩
    · rw [List.getElem?_append_left (List.getElem?_eq_some_iff.mp hk).1]
      exact hk
    · rw [List.getElem?_append_left (List.getElem?_eq_some_iff.mp hk').1]
      exact hk'

theorem ConnsAlike.none_running (h : ConnsAlike R c xs ys)
    (hR : ∀ k k', R k k' → k.status = k'.status) (hx : ∀ k ∈ xs, k.status ≠ .running) :
    ∀ k ∈ ys, k.status ≠ .running := by
  intro k hk
  obtain ⟨d, hd⟩ := List.getElem?_of_mem hk
  have found {k' : Conn} (hk' : xs[d]? = some k') (he : k'.status = k.status) :
      k.status ≠ .running := he ▸ hx k' (List.mem_of_getElem? hk')
  by_cases hc : d = c
  · subst hc
    obtain he | ⟨k₁, k₁', hk₁, hk₁', hr⟩ := h.here
    · exact found (he.trans hd) rfl
    · obtain rfl : k₁' = k := Option.some.inj (hk₁'.symm.trans hd)
      exact found hk₁ (hR k₁ k₁' hr)
  · exact found ((h.others d hc).trans hd) rfl

structure Similar (R : Conn → Conn → Prop) (c : Nat) (s s' : Daemon) : Prop extends
    Alike s s' where
  conns : ConnsAlike R c s.conns s'.conns

theorem Alike.symm (h : Alike s s') : Alike s' s where
  clock := h.clock.symm
  bus := h.clock ▸ Eq.symm h.bus
  log := h.log.symm
  uplinkStatus := h.uplinkStatus.symm
  presence := h.presence.symm
  signals := h.signals.symm
  persist := h.clock ▸ h.persist.symm
  main := h.clock ▸ h.main.symm
  file := h.clock ▸ Eq.symm h.file

theorem Similar.flip (h : Similar R c s s') : Similar (fun k k' => R k' k) c s' s :=
  ⟨h.toAlike.symm, h.conns.flip⟩

/-- Similar daemons follow each other, as long as the connection on which they differ does
nothing or they differ only in what has been written on it. -/
theorem similar_step (hR : ∀ k k', R k k' → k.status = k'.status)
    (hw : a.conn = some c → ∃ w w', R = WrittenAfter w w') (hs : Similar R c s s')
    (h : step cfg fromStr s a = some t) :
    ∃ t', step cfg fromStr s' a = some t' ∧ Similar R c t t' := by
  cases ha : a.conn with
  | none =>
    obtain ⟨t', ht', halike, hconns⟩ :=
      alike_other_step hs.toAlike (hs.conns.none_running hR) ha h
    refine ⟨t', ht', halike, ?_⟩
    obtain ⟨hc, hc'⟩ | ⟨hc, hc'⟩ | ⟨hc, hc'⟩ := hconns
    · rw [hc, hc']
      exact hs.conns
    · rw [hc, hc']
      exact hs.conns.append _
    · rw [hc, hc']
      exact ⟨rfl, fun _ _ => rfl, Or.inl rfl⟩
  | some d =>
    obtain ⟨k, _, hk, _⟩ := step_conn_self h ha
    -- where the connections are the same they stay the same
    have same (hk' : s'.conns[d]? = some k) : ∃ t' k₁, step cfg fromStr s' a = some t' ∧
        Alike t t' ∧ t.conns = s.conns.set d k₁ ∧ t'.conns = s'.conns.set d k₁ := by
      obtain ⟨t', k₁, k₁', ht', halike, hc, hc', hw⟩ :=
        alike_conn_step hs.toAlike ha hk hk' (WrittenAfter.refl k) h
      rw [← hw.eq] at hc'
      exact ⟨t', k₁, ht', halike, hc, hc'⟩
    by_cases hd : d = c
    · subst hd
      have hlen := (List.getElem?_eq_some_iff.mp hk).1
      obtain he | ⟨k₀, k', hk₀, hk', hr⟩ := hs.conns.here
      · obtain ⟨t', k₁, ht', halike, hc, hc'⟩ := same (he.symm.trans hk)
        refine ⟨t', ht', halike, ?_⟩
        rw [hc, hc']
        exact hs.conns.set_here hlen (Or.inl rfl)
      · obtain rfl : k = k₀ := Option.some.inj (hk.symm.trans hk₀)
        obtain ⟨w, w', rfl⟩ := hw ha
        obtain ⟨t', k₁, k₁', ht', halike, hc, hc', hw⟩ :=
          alike_conn_step hs.toAlike ha hk hk' hr h
        refine ⟨t', ht', halike, ?_⟩
        rw [hc, hc']
        exact hs.conns.set_here hlen (Or.inr hw)
    · obtain ⟨t', k₁, ht', halike, hc, hc'⟩ := same ((hs.conns.others d hd).symm.trans hk)
      refine ⟨t', ht', halike, ?_⟩
      rw [hc, hc']
      exact hs.conns.set_other hd k₁

theorem similar_run {as : List Action} (hR : ∀ k k', R k k' → k.status = k'.status)
    (hw : ∀ a ∈ as, a.conn = some c → ∃ w w', R = WrittenAfter w w') (hs : Similar R c s s')
    (h : StepSystem.run (step cfg fromStr) s as = some t) :
    ∃ t', StepSystem.run (step cfg fromStr) s' as = some t' ∧ Similar R c t t' :=
  StepSystem.run_simulates (P := fun a : Action => a.conn = some c → ∃ w w', R = WrittenAfter w w')
    (fun _ _ _ _ hs hw h => similar_step hR hw hs h) hs hw h

end Daemon

end Agorabus
