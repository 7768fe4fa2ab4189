import Agorabus.ClaimTable
import Agorabus.Steps

namespace Agorabus.Durability

open Agorabus Daemon StepSystem

variable {cfg : Config} {fromStr : String → Option ClientMessage} {s t : Daemon} {a : Action}

/-- A snapshot the journal may hold for a bus: the same intents, and the same
claims as far as they have not expired. -/
def Agrees (now : Nat) (d : DurableState) (bus : BusState) : Prop :=
  (∀ sid, d.intents.lookup sid = bus.intents.lookup sid) ∧
    ∀ path, liveClaim d.claims now path = liveClaim bus.claims now path

theorem agrees_snapshot (now : Nat) (bus : BusState) : Agrees now bus.toDurable bus :=
  ⟨fun _ => rfl, fun _ => rfl⟩

theorem Agrees.later {now later : Nat} {d : DurableState} {bus : BusState}
    (h : Agrees now d bus) (hl : now ≤ later) : Agrees later d bus :=
  ⟨h.1, fun path => liveClaim_mono hl (h.2 path)⟩

theorem Agrees.apply {now : Nat} {d : DurableState} {bus : BusState} {tr : Transaction}
    (h : Agrees now d bus) (hc : tr.changesDurable bus now = false) :
    Agrees now d (tr.apply bus now) :=
  ⟨fun sid => (h.1 sid).trans ((apply_unchanged hc).1 sid).symm,
    fun path => (h.2 path).trans ((apply_unchanged hc).2 path).symm⟩

/-- A connection task between its lock section and its signal to the persist task. -/
def Signalling (s : Daemon) : Prop :=
  ∃ (c : Nat) (k : Conn) (es : List Effect),
    s.conns[c]? = some k ∧ k.status = .running ∧ k.pending = .signal :: es

/-- The persist task will take another snapshot. -/
def Owed (s : Daemon) : Prop :=
  0 < s.signals ∨ s.persist = .sleeping ∨ s.persist = .draining ∨ s.persist = .locking ∨
    Signalling s

theorem handleMessage_signal (cfg : Config) (k : Conn) (uplink : UplinkStatus) (sent : Nat)
    {sid : String} {bus : BusState} {now : Nat} {msg : ClientMessage} {tr : Transaction}
    (h : msg.transaction cfg sid = some tr) (hc : tr.changesDurable bus now = true) :
    ∃ es, (handleMessage cfg k sid bus uplink sent now msg).conn.pending = .signal :: es := by
  cases msg with
  | heartbeat tool skill prdSlug paths =>
    simp only [ClientMessage.transaction] at h
    split at h
    · cases h
    · rename_i hp
      cases h
      simp only [Transaction.changesDurable] at hc
      simp only [handleMessage, hp, hc]
      exact ⟨_, rfl⟩
  | claimAcquire path ttl reason force =>
    cases h
    simp only [Transaction.changesDurable] at hc
    simp only [handleMessage]
    split
    · rename_i he
      rw [he] at hc
      cases hc
    · exact ⟨_, rfl⟩
  | claimRelease path =>
    cases h
    simp only [Transaction.changesDurable] at hc
    simp only [handleMessage, hc]
    exact ⟨_, rfl⟩
  | update cwd intent => cases h; cases hc
  | peers => cases h; cases hc
  | claimList => cases h; cases hc
  | _ => cases h

theorem line_signalling {c now : Nat} {text : String} {tr : Transaction}
    (h : step cfg fromStr s (.line c text now) = some t)
    (htr : s.transaction cfg fromStr (.line c text now) = some tr)
    (hc : tr.changesDurable s.bus now = true) : Signalling t := by
  obtain ⟨k, hk, ⟨hi, _⟩, rfl⟩ := step_line.mp h
  have hr := (handleLine_conn cfg fromStr k c s.bus s.uplinkStatus s.log.length now text).1
  rw [Conn.idle_iff] at hi
  cases transaction_section htr with
  | first => cases hc
  | @message _ _ _ k₀ sid msg _ hk₀ hs hte hm hmt =>
    obtain rfl : k = k₀ := Option.some.inj (hk.symm.trans hk₀)
    obtain ⟨es, hes⟩ := handleMessage_signal cfg k s.uplinkStatus s.log.length hmt hc
    refine ⟨c, _, es, getElem?_set_conn hk _, hr.trans hi.1, ?_⟩
    simpa [handleLine, hte, hm, hs] using hes

theorem signal_sent {c : Nat} {k : Conn} {es : List Effect}
    (h : step cfg fromStr s a = some t) (hc : a.conn = some c) (hk : s.conns[c]? = some k)
    (hp : k.pending = .signal :: es) : 0 < t.signals := by
  obtain ⟨k₀, _, hk₀, _, hst⟩ := step_task h hc
  obtain rfl : k = k₀ := Option.some.inj (hk.symm.trans hk₀)
  have hbusy : k.idle = false := by simp [Conn.idle, hp]
  cases hst with
  | other ha => exact absurd hc ha
  | line hi | hangup hi | lag hi | event hi | drain hi => cases hbusy.symm.trans hi
  | proceed =>
    obtain ⟨k', e, es', hk', hp', _, rfl⟩ := step_proceed.mp h
    obtain rfl : k = k' := Option.some.inj (hk.symm.trans hk')
    rw [hp] at hp'
    cases hp'
    change 0 < if s.signals < persistCapacity then s.signals + 1 else s.signals
    have hcap : persistCapacity = 64 := rfl
    split <;> omega
  | abort hr hw => simp [Conn.atAwait, hp] at hw

theorem signalling_step (h : step cfg fromStr s a = some t) (hb : ∀ now, a ≠ .boot now)
    (hs : Signalling s) : Signalling t ∨ 0 < t.signals := by
  obtain ⟨c, k, es, hk, hrun, hp⟩ := hs
  by_cases hc : a.conn = some c
  · exact Or.inr (signal_sent h hc hk hp)
  · exact Or.inl ⟨c, k, es, conn_kept h hb hc hk, hrun, hp⟩

/-- What ties the journal to the bus: until the file agrees with the bus a
snapshot is still to come, whoever saves in between. -/
structure Journaled (s : Daemon) : Prop where
  joined : s.main.uplinkAlive = false →
    ∀ (c : Nat) (k : Conn), s.conns[c]? = some k → k.status ≠ .running
  saving : ∀ d, s.persist = .saving d → Agrees s.clock d s.bus ∨ Owed s
  flushing : ∀ d, s.main = .flushing d → Agrees s.clock d s.bus
  closing : s.main = .closing ∨ s.main = .stopped →
    Agrees s.clock s.file s.bus ∨ Owed s ∨
      ∃ d, s.persist = .saving d ∧ Agrees s.clock d s.bus
  done : s.persist = .done → (s.main = .closing ∨ s.main = .stopped) ∧ s.signals = 0
  stopped : s.main = .stopped → s.persist = .done

theorem journaled_start (file : DurableState) (log : List BroadcastMsg) (now : Nat) :
    Journaled (start file log now) where
  joined h := by cases h
  saving d h := by cases h
  flushing d h := by cases h
  closing h := by obtain h | h := h <;> cases h
  done h := by cases h
  stopped h := by cases h

theorem journaled_frame (hj : Journaled s) (h : step cfg fromStr s a = some t)
    (hp : t.persist = s.persist) (hm : t.main = s.main) (hf : t.file = s.file)
    (hg : ∀ d, Agrees s.clock d s.bus →
      Agrees t.clock d t.bus ∨ (Owed t ∧ s.main.uplinkAlive = true))
    (ho : Owed s → Owed t) (hsig : s.main.uplinkAlive = false → t.signals = s.signals) :
    Journaled t where
  joined := joined_step h hj.joined
  saving d h := by
    obtain ha | ha := hj.saving d (hp.symm.trans h)
    · exact (hg d ha).imp id And.left
    · exact Or.inr (ho ha)
  flushing d h := by
    have hs := hm.symm.trans h
    obtain ha | ⟨_, ha⟩ := hg d (hj.flushing d hs)
    · exact ha
    · rw [hs] at ha
      cases ha
  closing h := by
    rw [hm] at h
    rw [hf, hp]
    have dead : s.main.uplinkAlive ≠ true := by obtain h | h := h <;> rw [h] <;> nofun
    have keep {d : DurableState} (ha : Agrees s.clock d s.bus) : Agrees t.clock d t.bus :=
      (hg d ha).resolve_right (fun hu => dead hu.2)
    obtain ha | ha | ⟨d, hd, ha⟩ := hj.closing h
    · exact Or.inl (keep ha)
    · exact Or.inr (Or.inl (ho ha))
    · exact Or.inr (Or.inr ⟨d, hd, keep ha⟩)
  done h := by
    obtain ⟨hs, hz⟩ := hj.done (hp.symm.trans h)
    rw [hm]
    refine ⟨hs, (hsig ?_).trans hz⟩
    obtain hs | hs := hs <;> rw [hs] <;> rfl
  stopped h := hp.trans (hj.stopped (hm.symm.trans h))

theorem owed_step (h : step cfg fromStr s a = some t) (hb : ∀ now, a ≠ .boot now)
    (hp : t.persist = s.persist) (hs : t.signals = s.signals ∨ 0 < t.signals) (ho : Owed s) :
    Owed t := by
  rw [Owed, hp]
  obtain ho | ho | ho | ho | ho := ho
  · obtain hs | hs := hs
    · exact Or.inl (hs ▸ ho)
    · exact Or.inl hs
  · exact Or.inr (Or.inl ho)
  · exact Or.inr (Or.inr (Or.inl ho))
  · exact Or.inr (Or.inr (Or.inr (Or.inl ho)))
  · obtain hs | hs := signalling_step h hb ho
    · exact Or.inr (Or.inr (Or.inr (Or.inr hs)))
    · exact Or.inl hs

theorem agrees_or_signalling {c : Nat} (h : step cfg fromStr s a = some t)
    (hc : a.conn = some c) {d : DurableState} (hd : Agrees s.clock d s.bus) :
    Agrees t.clock d t.bus ∨ Signalling t := by
  have hd := hd.later (step_clock h)
  obtain ⟨now, rfl⟩ | hbus := step_bus h
  · cases hc
  rw [hbus]
  cases htr : s.transaction cfg fromStr a with
  | none => exact Or.inl hd
  | some tr =>
    cases hch : tr.changesDurable s.bus t.clock with
    | false => exact Or.inl (hd.apply hch)
    | true =>
      refine Or.inr ?_
      cases transaction_section htr with
      | @message _ now text _ _ _ _ _ _ _ _ _ =>
        have hclock : t.clock = now := by
          obtain ⟨k, _, _, rfl⟩ := step_line.mp h
          rfl
        exact line_signalling h htr (hclock ▸ hch)
      | _ => cases hch

theorem journaled_conn (hj : Journaled s) {c : Nat} (h : step cfg fromStr s a = some t)
    (hc : a.conn = some c) : Journaled t := by
  obtain ⟨hp, hm, hf, hs⟩ := conn_frame h hc
  have alive : s.main.uplinkAlive = true := by
    obtain ⟨k, _, hk, _, hrun, _⟩ := step_conn_self h hc
    by_contra hn
    exact hj.joined (by simpa using hn) c k hk hrun
  have hb : ∀ now, a ≠ .boot now := fun now he => by rw [he] at hc; cases hc
  refine journaled_frame hj h hp hm hf (fun _ hd => ?_) (owed_step h hb hp hs) (fun hn => ?_)
  · obtain ha | ha := agrees_or_signalling h hc hd
    · exact Or.inl ha
    · exact Or.inr ⟨Or.inr (Or.inr (Or.inr (Or.inr ha))), alive⟩
  · rw [alive] at hn
    cases hn

theorem journaled_quiet (hj : Journaled s) (h : step cfg fromStr s a = some t)
    (hb : ∀ now, a ≠ .boot now) (hbus : t.bus = s.bus) (hp : t.persist = s.persist)
    (hm : t.main = s.main) (hf : t.file = s.file) (hs : t.signals = s.signals) : Journaled t :=
  journaled_frame hj h hp hm hf (fun _ hd => Or.inl (hbus ▸ hd.later (step_clock h)))
    (owed_step h hb hp (Or.inl hs)) (fun _ => hs)

def SaveSucceeds (a : Action) : Prop := a ≠ .persistSave false ∧ a ≠ .finalSave false

theorem journaled_persist (hj : Journaled s) (h : step cfg fromStr s a = some t)
    (ha : a = .persistRecv ∨ a = .persistWake ∨ a = .persistTryRecv ∨ a = .persistSnapshot) :
    Journaled t := by
  obtain rfl | rfl | rfl | rfl := ha
  · obtain ⟨hp, _, rfl⟩ := step_persistRecv.mp h
    have awake : s.main ≠ .stopped := fun hm => by simp [hj.stopped hm] at hp
    exact ⟨hj.joined, nofun, hj.flushing, fun _ => Or.inr (Or.inl (Or.inr (Or.inl rfl))),
      nofun, fun hm => absurd hm awake⟩
  · obtain ⟨hp, rfl⟩ := step_persistWake.mp h
    have awake : s.main ≠ .stopped := fun hm => by simp [hj.stopped hm] at hp
    exact ⟨hj.joined, nofun, hj.flushing, fun _ => Or.inr (Or.inl (Or.inr (Or.inr (Or.inl rfl)))),
      nofun, fun hm => absurd hm awake⟩
  · obtain ⟨hp, ht⟩ := step_persistTryRecv.mp h
    have awake : s.main ≠ .stopped := fun hm => by simp [hj.stopped hm] at hp
    split at ht
    · subst ht
      refine ⟨hj.joined, fun d hd => ?_, hj.flushing,
        fun _ => Or.inr (Or.inl (Or.inr (Or.inr (Or.inl hp)))), fun hd => ?_,
        fun hm => absurd hm awake⟩
      · rw [hp] at hd
        cases hd
      · rw [hp] at hd
        cases hd
    · subst ht
      exact ⟨hj.joined, nofun, hj.flushing,
        fun _ => Or.inr (Or.inl (Or.inr (Or.inr (Or.inr (Or.inl rfl))))), nofun,
        fun hm => absurd hm awake⟩
  · obtain ⟨hp, rfl⟩ := step_persistSnapshot.mp h
    have awake : s.main ≠ .stopped := fun hm => by simp [hj.stopped hm] at hp
    refine ⟨hj.joined, fun d hd => ?_, hj.flushing, fun _ => ?_, nofun, fun hm => absurd hm awake⟩
    · cases hd
      exact Or.inl (agrees_snapshot _ _)
    · exact Or.inr (Or.inr ⟨_, rfl, agrees_snapshot _ _⟩)

/-- The snapshot the persist task saves may be older than the one of the final
flush; then a signal is still pending. -/
theorem journaled_persistSave (hj : Journaled s)
    (h : step cfg fromStr s (.persistSave true) = some t) : Journaled t := by
  obtain ⟨d, hp, rfl⟩ := step_persistSave.mp h
  have awake : s.main ≠ .stopped := fun hm => by simp [hj.stopped hm] at hp
  refine ⟨hj.joined, nofun, hj.flushing, fun _ => ?_, nofun, fun hm => absurd hm awake⟩
  obtain ha | ho := hj.saving d hp
  · exact Or.inl ha
  · refine Or.inr (Or.inl ?_)
    rw [Owed, hp] at ho
    obtain ho | ho | ho | ho | ho := ho
    · exact Or.inl ho
    · cases ho
    · cases ho
    · cases ho
    · exact Or.inr (Or.inr (Or.inr (Or.inr ho)))

theorem not_signalling (hj : Journaled s) (hm : s.main.uplinkAlive = false) :
    ¬ Signalling s := by
  rintro ⟨c, k, _, hk, hrun, _⟩
  exact hj.joined hm c k hk hrun

theorem journaled_persistExit (hj : Journaled s)
    (h : step cfg fromStr s .persistExit = some t) : Journaled t := by
  obtain ⟨hm, hp, hz, rfl⟩ := step_persistExit.mp h
  have settled : Agrees s.clock s.file s.bus := by
    obtain ha | ho | ⟨d, hd, _⟩ := hj.closing (Or.inl hm)
    · exact ha
    · rw [Owed, hp, hz] at ho
      obtain ho | ho | ho | ho | ho := ho
      · omega
      · cases ho
      · cases ho
      · cases ho
      · exact absurd ho (not_signalling hj (by rw [hm]; rfl))
    · rw [hp] at hd
      cases hd
  exact ⟨hj.joined, nofun, hj.flushing, fun _ => Or.inl settled, fun _ => ⟨Or.inl hm, hz⟩,
    fun _ => rfl⟩

theorem journaled_main (hj : Journaled s) (h : step cfg fromStr s a = some t)
    (ha : a = .shutdown ∨ a = .graceOver ∨ a = .finalSnapshot ∨ a = .finalSave true ∨
      a = .finish) : Journaled t := by
  have undone (hs : s.main ≠ .closing ∧ s.main ≠ .stopped) : s.persist ≠ .done := fun hd =>
    (hj.done hd).1.elim hs.1 hs.2
  obtain rfl | rfl | rfl | rfl | rfl := ha
  · obtain ⟨hm, rfl⟩ := step_shutdown.mp h
    exact ⟨nofun, hj.saving, nofun, nofun, fun hd => absurd hd (undone (by simp [hm])), nofun⟩
  · obtain ⟨hm, rfl⟩ := step_graceOver.mp h
    exact ⟨nofun, hj.saving, nofun, nofun, fun hd => absurd hd (undone (by simp [hm])), nofun⟩
  · obtain ⟨hm, hall, _, rfl⟩ := step_finalSnapshot.mp h
    refine ⟨fun _ c k hk => hall k (List.mem_of_getElem? hk), hj.saving, fun d hd => ?_, nofun,
      fun hd => absurd hd (undone (by simp [hm])), nofun⟩
    cases hd
    exact agrees_snapshot _ _
  · obtain ⟨d, hm, rfl⟩ := step_finalSave.mp h
    exact ⟨fun _ => hj.joined (by rw [hm]; rfl), hj.saving, nofun,
      fun _ => Or.inl (hj.flushing d hm), fun hd => absurd hd (undone (by simp [hm])), nofun⟩
  · obtain ⟨hm, hp, rfl⟩ := step_finish.mp h
    exact ⟨fun _ => hj.joined (by rw [hm]; rfl), hj.saving, nofun,
      fun _ => hj.closing (Or.inl hm), fun hd => ⟨Or.inr rfl, (hj.done hd).2⟩, fun _ => hp⟩

theorem journaled_step (hj : Journaled s) (hok : SaveSucceeds a)
    (h : step cfg fromStr s a = some t) : Journaled t := by
  cases a with
  | line c text now | hangup c | event c | drain c | proceed c now ok | abort c =>
    exact journaled_conn hj h rfl
  | connect =>
    obtain ⟨_, rfl⟩ := step_connect.mp h
    exact journaled_quiet hj h nofun rfl rfl rfl rfl rfl
  | tick now =>
    obtain ⟨_, rfl⟩ := step_tick.mp h
    exact journaled_quiet hj h nofun rfl rfl rfl rfl rfl
  | uplinkEvent st =>
    obtain ⟨_, rfl⟩ := step_uplinkEvent.mp h
    exact journaled_quiet hj h nofun rfl rfl rfl rfl rfl
  | uplinkInbound topic data origin =>
    obtain ⟨_, rfl⟩ := step_uplinkInbound.mp h
    exact journaled_quiet hj h nofun rfl rfl rfl rfl rfl
  | presenceTick =>
    obtain ⟨_, rfl⟩ := step_presenceTick.mp h
    exact journaled_quiet hj h nofun rfl rfl rfl rfl rfl
  | presenceSend now =>
    obtain ⟨_, _, _, _, rfl⟩ := step_presenceSend.mp h
    exact journaled_quiet hj h nofun rfl rfl rfl rfl rfl
  | persistRecv => exact journaled_persist hj h (Or.inl rfl)
  | persistWake => exact journaled_persist hj h (Or.inr (Or.inl rfl))
  | persistTryRecv => exact journaled_persist hj h (Or.inr (Or.inr (Or.inl rfl)))
  | persistSnapshot => exact journaled_persist hj h (Or.inr (Or.inr (Or.inr rfl)))
  | persistSave ok =>
    cases ok with
    | true => exact journaled_persistSave hj h
    | false => exact absurd rfl hok.1
  | persistExit => exact journaled_persistExit hj h
  | shutdown => exact journaled_main hj h (Or.inl rfl)
  | graceOver => exact journaled_main hj h (Or.inr (Or.inl rfl))
  | finalSnapshot => exact journaled_main hj h (Or.inr (Or.inr (Or.inl rfl)))
  | finalSave ok =>
    cases ok with
    | true => exact journaled_main hj h (Or.inr (Or.inr (Or.inr (Or.inl rfl))))
    | false => exact absurd rfl hok.2
  | finish => exact journaled_main hj h (Or.inr (Or.inr (Or.inr (Or.inr rfl))))
  | boot now =>
    obtain ⟨_, _, rfl⟩ := step_boot.mp h
    exact journaled_start s.file s.log now

theorem journaled_stopped (hj : Journaled s) (hm : s.main = .stopped) :
    Agrees s.clock s.file s.bus := by
  have hp := hj.stopped hm
  obtain ha | ho | ⟨d, hd, _⟩ := hj.closing (Or.inr hm)
  · exact ha
  · rw [Owed, hp, (hj.done hp).2] at ho
    obtain ho | ho | ho | ho | ho := ho
    · omega
    · cases ho
    · cases ho
    · cases ho
    · exact absurd ho (not_signalling hj (by rw [hm]; rfl))
  · rw [hp] at hd
    cases hd

theorem journaled_run {file : DurableState} {log : List BroadcastMsg} {now : Nat}
    {as : List Action} (hsave : ∀ a ∈ as, SaveSucceeds a)
    (hr : run (step cfg fromStr) (start file log now) as = some t) : Journaled t := by
  refine run_along_invariant (P := fun _ a => SaveSucceeds a) ?_ (along_of_forall _ hsave) hr
    (journaled_start file log now)
  intro s a t hj hok h
  exact journaled_step hj hok h

theorem claim_kept (hj : Journaled s) (h : step cfg fromStr s a = some t) {path : String}
    (hno : ∀ tr, s.transaction cfg fromStr a = some tr → tr.claimPath = some path →
      tr.changesDurable s.bus t.clock = false) :
    liveClaim t.bus.claims t.clock path = liveClaim s.bus.claims t.clock path := by
  obtain ⟨now, rfl⟩ | hbus := step_bus h
  · obtain ⟨hm, hn, rfl⟩ := step_boot.mp h
    have hf := ((journaled_stopped hj hm).later hn).2 path
    exact (liveClaim_prune (.fromDurable s.file) (Nat.le_refl now) path).trans hf
  · rw [hbus]
    cases htr : s.transaction cfg fromStr a with
    | none => rfl
    | some tr => exact liveClaim_apply_unchanged (hno tr htr)

theorem intent_kept (hj : Journaled s) (h : step cfg fromStr s a = some t) {sid : String}
    (hno : ∀ tr, s.transaction cfg fromStr a = some tr → tr.intentSid = some sid →
      tr.changesDurable s.bus t.clock = false) :
    t.bus.intents.lookup sid = s.bus.intents.lookup sid := by
  obtain ⟨now, rfl⟩ | hbus := step_bus h
  · obtain ⟨hm, hn, rfl⟩ := step_boot.mp h
    exact (journaled_stopped hj hm).1 sid
  · rw [hbus]
    cases htr : s.transaction cfg fromStr a with
    | none => rfl
    | some tr => exact intents_apply_unchanged (hno tr htr)

/-- The step has a lock section about the claim on the path, or the intent of the
session, and changes it. -/
def Supersedes (cfg : Config) (fromStr : String → Option ClientMessage) (old : Transaction)
    (s : Daemon) (a : Action) : Prop :=
  ∃ t tr, step cfg fromStr s a = some t ∧ s.transaction cfg fromStr a = some tr ∧
    tr.changesDurable s.bus t.clock = true ∧
    ((tr.claimPath = old.claimPath ∧ tr.claimPath.isSome) ∨
      (tr.intentSid = old.intentSid ∧ tr.intentSid.isSome))

theorem supersedes_line {old : Transaction} (h : Supersedes cfg fromStr old s a) :
    ∃ c text now, a = .line c text now := by
  obtain ⟨t, tr, _, htr, hc, _⟩ := h
  cases transaction_section htr with
  | first => cases hc
  | message => exact ⟨_, _, _, rfl⟩
  | touch => cases hc
  | cleanup => cases hc

def Shows (bus : BusState) (now : Nat) (d : DurableState) (later : Nat) : Transaction → Prop
  | .claimAcquire sid path ttl reason _ =>
      liveClaim d.claims later path =
        if later < ttl then some ⟨path, sid, ttl, now, reason⟩ else none
  | .claimRelease _ path => liveClaim d.claims later path = none
  | .heartbeat sid tool skill prdSlug paths =>
      ∃ r, bus.peers.lookup sid = some r ∧ d.intents.lookup sid =
        if (r.beat tool skill prdSlug paths now).stickyIntent.isEmpty then none
        else some (r.beat tool skill prdSlug paths now).stickyIntent
  | _ => True

theorem Shows.of_eq {bus : BusState} {now later : Nat} {d e : DurableState} {tr : Transaction}
    (h : Shows bus now d later tr)
    (hc : ∀ path, tr.claimPath = some path →
      liveClaim e.claims later path = liveClaim d.claims later path)
    (hi : ∀ sid, tr.intentSid = some sid → e.intents.lookup sid = d.intents.lookup sid) :
    Shows bus now e later tr := by
  cases tr with
  | claimAcquire sid path ttl reason force => exact (hc path rfl).trans h
  | claimRelease sid path => exact (hc path rfl).trans h
  | heartbeat sid tool skill prdSlug paths =>
    obtain ⟨r, hr, he⟩ := h
    exact ⟨r, hr, (hi sid rfl).trans he⟩
  | _ => trivial

theorem Shows.later {bus : BusState} {now before later : Nat} {d : DurableState}
    {tr : Transaction} (h : Shows bus now d before tr) (hl : before ≤ later) :
    Shows bus now d later tr := by
  cases tr with
  | claimAcquire sid path ttl reason force =>
    simp only [Shows] at h ⊢
    rw [liveClaim_later hl, h]
    by_cases ht : later < ttl
    · rw [if_pos (by omega), if_pos ht]
      simp [ht]
    · rw [if_neg ht]
      split <;> simp [Option.filter, ht]
  | claimRelease sid path =>
    simp only [Shows] at h ⊢
    rw [liveClaim_later hl, h]
    rfl
  | _ => exact h

theorem shows_apply {bus : BusState} {now : Nat} {tr : Transaction}
    (h : tr.changesDurable bus now = true) :
    Shows bus now (tr.apply bus now).toDurable now tr := by
  cases tr with
  | claimAcquire sid path ttl reason force =>
    rw [changesDurable_claimAcquire] at h
    exact (liveClaim_apply ..).trans (if_pos ⟨rfl, h⟩)
  | claimRelease sid path =>
    rw [changesDurable_claimRelease] at h
    exact (liveClaim_apply ..).trans (if_pos ⟨rfl, h⟩)
  | heartbeat sid tool skill prdSlug paths =>
    simp only [Transaction.changesDurable, BusState.heartbeat] at h
    split at h
    · cases h
    · rename_i r hr
      refine ⟨r, hr, ?_⟩
      split at h
      · rename_i hc
        simp only [BusState.toDurable, Transaction.apply, BusState.heartbeat, hr, hc, ↓reduceIte]
        split
        · exact AList.lookup_erase _ _
        · exact AList.lookup_insert _
      · cases h
  | _ => trivial

theorem shows_run {bus : BusState} {now : Nat} {tr : Transaction} {as : List Action}
    (hs : Journaled s ∧ Shows bus now s.bus.toDurable s.clock tr)
    (hsave : ∀ a ∈ as, SaveSucceeds a)
    (hno : Along (step cfg fromStr) (fun s a => ¬ Supersedes cfg fromStr tr s a) s as)
    (hr : run (step cfg fromStr) s as = some t) : Shows bus now t.bus.toDurable t.clock tr := by
  have hp : Along (step cfg fromStr)
      (fun s a => SaveSucceeds a ∧ ¬ Supersedes cfg fromStr tr s a) s as :=
    along_and.mpr ⟨along_of_forall s hsave, hno⟩
  refine (run_along_invariant (I := fun s => Journaled s ∧ Shows bus now s.bus.toDurable s.clock tr)
    ?_ hp hr hs).2
  intro s a t ⟨hj, hs⟩ ⟨hok, hn⟩ h
  refine ⟨journaled_step hj hok h, (hs.later (step_clock h)).of_eq (fun path hp => ?_)
    (fun sid hi => ?_)⟩
  · refine claim_kept hj h (fun tr' htr hp' => Bool.eq_false_iff.mpr (fun hc => hn ?_))
    exact ⟨t, tr', h, htr, hc, Or.inl ⟨hp'.trans hp.symm, by rw [hp']; rfl⟩⟩
  · refine intent_kept hj h (fun tr' htr hi' => Bool.eq_false_iff.mpr (fun hc => hn ?_))
    exact ⟨t, tr', h, htr, hc, Or.inr ⟨hi'.trans hi.symm, by rw [hi']; rfl⟩⟩

/-- When `runDaemon` returns, the journal holds the intents and the unexpired claims
of the bus, and with them the effect of every lock section not superseded since. -/
theorem journal_complete_on_return (cfg : Config) (fromStr : String → Option ClientMessage)
    (file : DurableState) (log : List BroadcastMsg) (now : Nat) (as : List Action) (t : Daemon)
    (hsave : ∀ a ∈ as, SaveSucceeds a)
    (hr : run (step cfg fromStr) (start file log now) as = some t) (hm : t.main = .stopped) :
    (∀ sid, t.file.intents.lookup sid = t.bus.intents.lookup sid) ∧
    (∀ path, liveClaim t.file.claims t.clock path = liveClaim t.bus.claims t.clock path) ∧
    ∀ bs a cs s u tr, as = bs ++ a :: cs →
      run (step cfg fromStr) (start file log now) bs = some s → step cfg fromStr s a = some u →
      s.transaction cfg fromStr a = some tr → tr.changesDurable s.bus u.clock = true →
      Along (step cfg fromStr) (fun s a => ¬ Supersedes cfg fromStr tr s a) u cs →
      Shows s.bus u.clock t.file t.clock tr := by
  have settled := journaled_stopped (journaled_run hsave hr) hm
  refine ⟨settled.1, settled.2, ?_⟩
  rintro bs a cs s u tr rfl hbs ha htr hc hno
  have hbus : u.bus = tr.apply s.bus u.clock := by
    obtain ⟨now, rfl⟩ | hbus := step_bus ha
    · simp [transaction] at htr
    · rw [hbus, htr]
      rfl
  have hcs : run (step cfg fromStr) u cs = some t := by
    obtain ⟨s', hs', hcs⟩ := (run_append_eq_some _).mp hr
    obtain rfl : s = s' := Option.some.inj (hbs.symm.trans hs')
    obtain ⟨u', hu', hcs⟩ := (run_cons_eq_some _).mp hcs
    obtain rfl : u = u' := Option.some.inj (ha.symm.trans hu')
    exact hcs
  have hj : Journaled u := by
    refine journaled_step (journaled_run (fun b hb => hsave b ?_) hbs) (hsave a ?_) ha
    · exact List.mem_append_left _ hb
    · exact List.mem_append_right _ List.mem_cons_self
  have shown : Shows s.bus u.clock u.bus.toDurable u.clock tr := by
    rw [hbus]
    exact shows_apply hc
  have hend := shows_run ⟨hj, shown⟩ (fun b hb => hsave b (by simp [hb])) hno hcs
  exact hend.of_eq (fun path _ => settled.2 path) (fun sid _ => settled.1 sid)

theorem journal_complete_after_acquire :
    ∃ t, run (step ⟨60, 1024, 3000, false, "carbon"⟩ (decodeFrom
        [(announceLine "s1", .announce "s1" 7 "/" "" none),
          (acquireLine, .claimAcquire "/x" 100 "" false)])) (start .default [] 0)
        [.connect, .line 0 (announceLine "s1") 1, .proceed 0 1 true, .line 0 acquireLine 2,
          .proceed 0 2 true, .proceed 0 2 true, .proceed 0 2 true, .persistRecv, .shutdown,
          .drain 0, .proceed 0 3 true, .graceOver, .finalSnapshot, .finalSave true, .persistWake,
          .persistTryRecv, .persistSnapshot, .persistSave true, .persistExit, .finish] = some t ∧
      liveClaim t.file.claims t.clock "/x" = some ⟨"/x", "s1", 100, 2, ""⟩ := by
  let fromStr := decodeFrom [(announceLine "s1", .announce "s1" 7 "/" "" none),
    (acquireLine, .claimAcquire "/x" 100 "" false)]
  let cfg : Config := ⟨60, 1024, 3000, false, "carbon"⟩
  let bs : List Action := [.connect, .line 0 (announceLine "s1") 1, .proceed 0 1 true]
  let cs : List Action := [.proceed 0 2 true, .proceed 0 2 true, .proceed 0 2 true, .persistRecv,
    .shutdown, .drain 0, .proceed 0 3 true, .graceOver, .finalSnapshot, .finalSave true,
    .persistWake, .persistTryRecv, .persistSnapshot, .persistSave true, .persistExit, .finish]
  have hrun : (run (step cfg fromStr) (start .default [] 0)
      (bs ++ .line 0 acquireLine 2 :: cs)).map (fun t =>
        ((step cfg fromStr t (.boot 3)).isSome, t.clock)) = some (true, 3) := by decide
  have hmid : (run (step cfg fromStr) (start .default [] 0) bs).bind (fun s =>
      (step cfg fromStr s (.line 0 acquireLine 2)).map (fun u =>
        (s.transaction cfg fromStr (.line 0 acquireLine 2), u.clock,
          s.bus.grants 2 "s1" "/x" false))) =
        some (some (.claimAcquire "s1" "/x" 100 "" false), 2, true) := by decide
  obtain ⟨t, ht, he⟩ := Option.map_eq_some_iff.mp hrun
  obtain ⟨s, hs, hmid⟩ := Option.bind_eq_some_iff.mp hmid
  obtain ⟨u, hu, hq⟩ := Option.map_eq_some_iff.mp hmid
  simp only [Prod.mk.injEq] at he hq
  have hm : t.main = .stopped := by
    obtain ⟨v, hv⟩ := Option.isSome_iff_exists.mp he.1
    exact (step_boot.mp hv).1
  have hsave : ∀ a ∈ bs ++ .line 0 acquireLine 2 :: cs, SaveSucceeds a := by
    simp [bs, cs, SaveSucceeds]
  have hno : Along (step cfg fromStr) (fun s a =>
      ¬ Supersedes cfg fromStr (.claimAcquire "s1" "/x" 100 "" false) s a) u cs := by
    refine Along.mono (P := fun _ a => ∀ c text now, a ≠ .line c text now) ?_
      (along_of_forall u (by simp [cs]))
    intro s a hne hsup
    obtain ⟨c, text, now, ha⟩ := supersedes_line hsup
    exact hne c text now ha
  have hend := (journal_complete_on_return cfg fromStr .default [] 0 _ t hsave ht hm).2.2 bs _ cs
    s u _ rfl hs hu hq.1 (by rw [hq.2.1, changesDurable_claimAcquire, hq.2.2]) hno
  refine ⟨t, ht, ?_⟩
  rw [Shows, hq.2.1, he.2] at hend
  rw [he.2]
  exact hend

end Agorabus.Durability
