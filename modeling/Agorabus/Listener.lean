import Agorabus.Client

namespace Agorabus

open Daemon StepSystem
open Subscriber (events notices events_append)

def Action.forwards : Action → Option Nat
  | .event c => some c
  | _ => none

def Daemon.Behind (s : Daemon) : Prop :=
  ∀ (c : Nat) (k : Conn) (rx : Nat), s.conns[c]? = some k → k.bcastRx = some rx → rx ≤ s.log.length

namespace Client

def rx (s : Daemon) (l : Client) : Option Nat := do
  let c ← l.conn
  let k ← s.conns[c]?
  k.bcastRx

def Subscribed (s : Daemon) (pre : String) (l : Client) : Prop :=
  ∃ c k rx, l.conn = some c ∧ s.conns[c]? = some k ∧ k.bcastRx = some rx ∧ rx ≤ s.log.length ∧
    pre ∈ k.subscribedPrefixes

def Coming (s : Daemon) (f : ServerEvent → Bool) (l : Client) : Prop :=
  (∃ rx ∈ l.rx s, ∃ m ∈ s.log.drop rx, f m.toEvent = true) ∨ ∃ e ∈ events (l.flight s), f e = true

def NoLag (cfg : Config) (s : Daemon) (b : Action) (l : Client) : Prop :=
  ∀ c ∈ b.forwards, l.conn = some c → ∀ rx ∈ l.rx s,
    s.log.length - rx ≤ cfg.broadcastCapacity.nextPowerOfTwo

instance (s : Daemon) (f : ServerEvent → Bool) (l : Client) : Decidable (l.Coming s f) :=
  inferInstanceAs (Decidable (_ ∨ _))

instance (cfg : Config) (s : Daemon) (b : Action) (l : Client) : Decidable (l.NoLag cfg s b) :=
  inferInstanceAs (Decidable (∀ _ ∈ _, _))

end Client

variable {cfg : Config} {fromStr : String → Option ClientMessage} {s t : Daemon} {b : Action}

namespace Daemon

theorem behind_start (file : DurableState) (log : List BroadcastMsg) (now : Nat) :
    Behind (start file log now) :=
  fun _ _ _ hk => nomatch hk

theorem behind_step (hb : Behind s) (h : s.step cfg fromStr b = some t) : Behind t := by
  intro c k' rx hk' hrx
  have hlog := (log_grows h).length_le
  obtain ⟨_, rfl⟩ | ⟨k, hk, hst⟩ := conn_before h hk'
  · cases hrx
  have kept (he : k'.bcastRx = k.bcastRx) : rx ≤ t.log.length :=
    (hb c k rx hk (he ▸ hrx)).trans hlog
  cases hst with
  | @line text now hi =>
    obtain he | ⟨_, he, _⟩ := (Subscriber.handleLine_stream cfg fromStr k c s.bus s.uplinkStatus
      s.log.length now (Conn.idle_iff.mp hi).2 text).2.2.2
    · exact kept he
    · rw [he] at hrx
      cases hrx
      exact hlog
  | lag hi hrx₀ hlag =>
    cases hrx
    omega
  | event hi hrx₀ hup hm =>
    cases hrx
    exact (List.getElem?_eq_some_iff.mp hm).1.trans_le hlog
  | proceed hp hr => exact kept (performed_bcastRx ..)
  | _ => exact kept rfl

end Daemon

namespace Client

variable {l : Client} {pre : String} {f : ServerEvent → Bool}

theorem rx_of {c : Nat} {k : Conn} (hc : l.conn = some c) (hk : s.conns[c]? = some k) :
    l.rx s = k.bcastRx := by
  simp [rx, hc, hk]

theorem listens {c : Nat} {k : Conn} (ho : l.outgoing = []) (hlag : l.NoLag cfg s b)
    (hfit : l.fits fromStr b = true) (h : s.step cfg fromStr b = some t) (hc : l.conn = some c)
    (hk : s.conns[c]? = some k) :
    (l.served s b).Gone t ∨ ((l.served s b).conn = some c ∧ ∃ k', t.conns[c]? = some k' ∧
      k'.subscribedPrefixes = k.subscribedPrefixes ∧ (k'.bcastRx = k.bcastRx ∨
        ∃ rx m, k.bcastRx = some rx ∧ s.log[rx]? = some m ∧ k'.bcastRx = some (rx + 1) ∧
          (topicMatches k.subscribedPrefixes m.topic = true →
            .event m.toEvent ∈ (l.served s b).flight t))) := by
  by_cases hboot : ∃ now, b = .boot now
  · obtain ⟨now, rfl⟩ := hboot
    exact Or.inl (Or.inl (by simp [served, hc]))
  have hboot : ∀ now, b ≠ .boot now := fun now he => hboot ⟨now, he⟩
  obtain ⟨k', hk', hst⟩ := step_conn h hboot hk
  have hc' : (l.served s b).conn = some c := served_connected hc hboot
  have leaves (hg : k'.status ≠ .running ∨ .cleanup ∈ k'.pending) : (l.served s b).Gone t :=
    (gone_of hc' hk').mpr hg
  have stays (hp : k'.subscribedPrefixes = k.subscribedPrefixes) (hr : k'.bcastRx = k.bcastRx) :
      (l.served s b).conn = some c ∧ ∃ k', t.conns[c]? = some k' ∧
      k'.subscribedPrefixes = k.subscribedPrefixes ∧ (k'.bcastRx = k.bcastRx ∨
        ∃ rx m, k.bcastRx = some rx ∧ s.log[rx]? = some m ∧ k'.bcastRx = some (rx + 1) ∧
          (topicMatches k.subscribedPrefixes m.topic = true →
            .event m.toEvent ∈ (l.served s b).flight t)) :=
    ⟨hc', k', hk', hp, Or.inl hr⟩
  cases hst with
  | other ha => exact Or.inr (stays rfl rfl)
  | line hi =>
    obtain ⟨m, ms, hm, _⟩ := fits_line hfit hc
    rw [ho] at hm
    cases hm
  | hangup hi => exact Or.inl (leaves (Or.inr (by simp)))
  | lag hi hrx hl =>
    have := hlag c rfl hc _ (by rw [rx_of hc hk, hrx]; rfl)
    omega
  | @event rx m hi hrx hup hm =>
    refine Or.inr ⟨hc', _, hk', rfl, Or.inr ⟨rx, m, hrx, hm, rfl, fun hmatch => ?_⟩⟩
    rw [flight_of hc' hk']
    refine List.mem_append_right _ ?_
    have hw : ({ k with
        bcastRx := some (rx + 1)
        pending := if topicMatches k.subscribedPrefixes m.topic
          then [.write (.event m.toEvent)] else [] } : Conn).wire = [.event m.toEvent] := by
      refine (if_pos (Conn.idle_iff.mp hi).1).trans ?_
      dsimp only
      rw [hmatch]
      rfl
    rw [hw]
    exact List.mem_singleton_self _
  | drain hi => exact Or.inl (leaves (Or.inr (by simp)))
  | proceed hp hr => exact Or.inr (stays (performed_subscribedPrefixes ..) (performed_bcastRx ..))
  | abort hr hw => exact Or.inl (leaves (Or.inl (fun h => by cases h)))

theorem subscribed_step (ho : l.outgoing = []) (hlag : l.NoLag cfg s b)
    (hfit : l.fits fromStr b = true) (h : s.step cfg fromStr b = some t)
    (hs : l.Subscribed s pre) : (l.served s b).Gone t ∨ (l.served s b).Subscribed t pre := by
  obtain ⟨c, k, rx, hc, hk, hrx, hle, hpre⟩ := hs
  have hlog := (log_grows h).length_le
  refine (listens ho hlag hfit h hc hk).imp_right ?_
  rintro ⟨hc', k', hk', hp, hr | ⟨rx', m, hrx', hm, hr, _⟩⟩
  · exact ⟨c, k', rx, hc', hk', hr.trans hrx, hle.trans hlog, hp ▸ hpre⟩
  · obtain ⟨hlt, _⟩ := List.getElem?_eq_some_iff.mp hm
    exact ⟨c, k', rx' + 1, hc', hk', hr, hlt.trans_le hlog, hp ▸ hpre⟩

theorem mem_events {e : ServerEvent} {ls : List OutLine} :
    e ∈ events ls ↔ .event e ∈ ls := by
  simp only [events, List.mem_filterMap]
  constructor
  · rintro ⟨x, hx, he⟩
    cases x with
    | event e' => cases he; exact hx
    | _ => cases he
  · exact fun h => ⟨_, h, rfl⟩

theorem coming_of_sends (ho : l.outgoing = []) (hlag : l.NoLag cfg s b)
    (hfit : l.fits fromStr b = true) (h : s.step cfg fromStr b = some t)
    (hs : l.Subscribed s pre) {m : BroadcastMsg} (hm : m ∈ s.sends cfg fromStr b)
    (hf : f m.toEvent = true) :
    (l.served s b).Gone t ∨ (l.served s b).Coming t f := by
  obtain ⟨c, k, rx, hc, hk, hrx, hle, _⟩ := hs
  refine (listens ho hlag hfit h hc hk).imp_right ?_
  have behind {rx' : Nat} (hle : rx' ≤ s.log.length) : m ∈ t.log.drop rx' := by
    rw [step_log h, List.drop_append_of_le_length hle]
    exact List.mem_append_right _ hm
  rintro ⟨hc', k', hk', _, hr | ⟨rx', m', hrx', hm', hr, _⟩⟩
  · exact Or.inl ⟨rx, by rw [rx_of hc' hk', hr, hrx]; rfl, m, behind hle, hf⟩
  · refine Or.inl ⟨rx' + 1, by rw [rx_of hc' hk', hr]; rfl, m, behind ?_, hf⟩
    exact (List.getElem?_eq_some_iff.mp hm').1

theorem coming_step (hn : ∀ (c : Nat) (k : Conn), s.conns[c]? = some k → NoticeLast k)
    (ho : l.outgoing = []) (hlag : l.NoLag cfg s b) (hfit : l.fits fromStr b = true)
    (h : s.step cfg fromStr b = some t) (hs : l.Subscribed s pre)
    (hpre : ∀ e, f e = true → pre.toList.isPrefixOf e.topic.toList = true)
    (hcome : l.Coming s f) : (l.served s b).Gone t ∨ (l.served s b).Coming t f := by
  obtain ⟨c, k, rx, hc, hk, hrx, hle, hmem⟩ := hs
  have hatt : ∀ d, l.conn = some d → ∃ k, s.conns[d]? = some k := by
    intro d hd
    obtain rfl : c = d := Option.some.inj (hc.symm.trans hd)
    exact ⟨k, hk⟩
  obtain ⟨rx₀, hrx₀, m, hm, hf⟩ | ⟨e, he, hf⟩ := hcome
  · refine (listens ho hlag hfit h hc hk).imp_right ?_
    rw [rx_of hc hk, hrx] at hrx₀
    obtain rfl : rx = rx₀ := Option.some.inj hrx₀
    have later {j : Nat} (hj : j ≤ s.log.length) (hm : m ∈ s.log.drop j) : m ∈ t.log.drop j := by
      rw [step_log h, List.drop_append_of_le_length hj]
      exact List.mem_append_left _ hm
    rintro ⟨hc', k', hk', _, hr | ⟨rx', m', hrx', hm', hr, hev⟩⟩
    · exact Or.inl ⟨rx, by rw [rx_of hc' hk', hr, hrx]; rfl, m, later hle hm, hf⟩
    · -- the receiver takes this message or one before it
      obtain rfl : rx = rx' := Option.some.inj (hrx.symm.trans hrx')
      obtain ⟨hlt, hget⟩ := List.getElem?_eq_some_iff.mp hm'
      rw [List.drop_eq_getElem_cons hlt, List.mem_cons, hget] at hm
      obtain rfl | hm := hm
      · refine Or.inr ⟨m.toEvent, mem_events.mpr (hev ?_), hf⟩
        simp only [topicMatches, Bool.or_eq_true, List.any_eq_true]
        exact Or.inr ⟨pre, hmem, Or.inr (hpre _ hf)⟩
      · exact Or.inl ⟨rx + 1, by rw [rx_of hc' hk', hr]; rfl, m, later hlt hm, hf⟩
  · cases carries hn hatt hfit h with
    | same ho' hfl hg => exact Or.inr (Or.inr ⟨e, by rw [hfl]; exact he, hf⟩)
    | took ha hlc hm hout hr hfl hg =>
      rw [ho] at hout
      cases hout
    | event ha hlc hev ho' hfl hg =>
      refine Or.inr (Or.inr ⟨e, ?_, hf⟩)
      rw [hfl, events_append]
      exact List.mem_append_left _ he
    | leaves ho' hg hfl => exact Or.inl hg

theorem subscribed_took {sid text : String} {c now : Nat} {k : Conn} {ms : List ClientMessage}
    (hb : Behind s) (hin : l.Introduced s sid) (hc : l.conn = some c) (hk : s.conns[c]? = some k)
    (hfit : l.fits fromStr (.line c text now) = true) (ho : l.outgoing = .subscribe pre :: ms)
    (h : s.step cfg fromStr (.line c text now) = some t) :
    (l.served s (.line c text now)).Subscribed t pre := by
  obtain ⟨m, ms', ho', ht, hm⟩ := fits_line hfit hc
  obtain rfl : ClientMessage.subscribe pre = m := (List.cons.inj (ho.symm.trans ho')).1
  have hsid : k.sessionId = some sid := by
    obtain hsid | ⟨_, pid, cwd, intent, node, ms'', ho''⟩ := hin c k hc hk
    · exact hsid
    · cases (List.cons.inj (ho.symm.trans ho'')).1
  obtain ⟨k₀, hk₀, _, rfl⟩ := step_line.mp h
  obtain rfl : k = k₀ := Option.some.inj (hk.symm.trans hk₀)
  refine ⟨c, _, k.bcastRx.getD s.log.length, ?_, getElem?_set_conn hk _, ?_, ?_, ?_⟩
  · simp [served, hc]
  · simp [handleLine, ht, hm, hsid, handleMessage, Agorabus.answer]
  · rw [step_log h, List.length_append]
    cases hrx : k.bcastRx with
    | none => exact Nat.le_add_right ..
    | some rx => exact (hb c k rx hk hrx).trans (Nat.le_add_right ..)
  · simp only [handleLine, ht, hm, hsid, handleMessage, Agorabus.answer, Bool.false_eq_true,
      ↓reduceIte]
    split
    · assumption
    · simp

structure ComesFrom (s : Daemon) (es : List ServerEvent) (l : Client) : Prop where
  channel : ∀ rx ∈ l.rx s, ∀ m ∈ s.log.drop rx, m.toEvent ∈ es
  lines : ∀ e ∈ events (l.flight s), e ∈ es

theorem ComesFrom.append {es : List ServerEvent} (h : l.ComesFrom s es) (es' : List ServerEvent) :
    l.ComesFrom s (es ++ es') :=
  ⟨fun rx hrx m hm => List.mem_append_left _ (h.channel rx hrx m hm),
    fun e he => List.mem_append_left _ (h.lines e he)⟩

theorem ComesFrom.read {es : List ServerEvent} {x : OutLine} {xs : List OutLine}
    (h : l.ComesFrom s es) (hx : l.incoming = x :: xs) :
    Client.ComesFrom s es { l with incoming := xs } := by
  refine ⟨h.channel, fun e he => h.lines e ?_⟩
  rw [flight_read hx]
  exact mem_events.mpr (List.mem_cons_of_mem _ (mem_events.mp he))

def hears (cfg : Config) (fromStr : String → Option ClientMessage) (s : Daemon) (b : Action)
    (l : Client) : List ServerEvent :=
  if (l.rx s).isSome then (s.sends cfg fromStr b).map BroadcastMsg.toEvent else []

theorem rx_served (hb : Behind s) (hatt : ∀ c, l.conn = some c → ∃ k, s.conns[c]? = some k)
    (h : s.step cfg fromStr b = some t) {rx' : Nat} (hrx' : (l.served s b).rx t = some rx') :
    (∃ rx, l.rx s = some rx ∧ rx ≤ rx' ∧ rx ≤ s.log.length) ∨
      (l.rx s = none ∧ rx' = s.log.length ∧ s.sends cfg fromStr b = []) := by
  cases hc : l.conn with
  | none => simp [rx, served, hc] at hrx'
  | some c =>
    obtain ⟨k, hk⟩ := hatt c hc
    by_cases hboot : ∃ now, b = .boot now
    · obtain ⟨now, rfl⟩ := hboot
      simp [rx, served, hc] at hrx'
    have hboot : ∀ now, b ≠ .boot now := fun now he => hboot ⟨now, he⟩
    obtain ⟨k', hk', hst⟩ := step_conn h hboot hk
    have hc' : (l.served s b).conn = some c := served_connected hc hboot
    rw [rx_of hc' hk'] at hrx'
    rw [rx_of hc hk]
    have kept (he : k'.bcastRx = k.bcastRx) :
        (∃ rx, k.bcastRx = some rx ∧ rx ≤ rx' ∧ rx ≤ s.log.length) ∨
          (k.bcastRx = none ∧ rx' = s.log.length ∧ s.sends cfg fromStr b = []) := by
      rw [he] at hrx'
      exact Or.inl ⟨rx', hrx', Nat.le_refl _, hb c k rx' hk hrx'⟩
    cases hst with
    | other ha => exact kept rfl
    | @line text now hi =>
      obtain he | ⟨hnone, he, _, _, hsent⟩ := (Subscriber.handleLine_stream cfg fromStr k c s.bus
        s.uplinkStatus s.log.length now (Conn.idle_iff.mp hi).2 text).2.2.2
      · exact kept he
      · rw [he] at hrx'
        cases hrx'
        exact Or.inr ⟨hnone, rfl, by simp only [sends, hk, hsent]⟩
    | @lag rx hi hrx hlag =>
      cases hrx'
      exact Or.inl ⟨rx, hrx, by omega, hb c k rx hk hrx⟩
    | @event rx m hi hrx hup hm =>
      cases hrx'
      exact Or.inl ⟨rx, hrx, Nat.le_succ rx, hb c k rx hk hrx⟩
    | proceed hp hr => exact kept (performed_bcastRx ..)
    | _ => exact kept rfl

theorem comesFrom_served (hb : Behind s)
    (hn : ∀ (c : Nat) (k : Conn), s.conns[c]? = some k → NoticeLast k)
    (hatt : ∀ c, l.conn = some c → ∃ k, s.conns[c]? = some k) (hfit : l.fits fromStr b = true)
    (h : s.step cfg fromStr b = some t) {es : List ServerEvent} (hl : l.ComesFrom s es) :
    (l.served s b).ComesFrom t (es ++ l.hears cfg fromStr s b) := by
  refine ⟨fun rx' hrx' m hm => ?_, fun e he => List.mem_append_left _ ?_⟩
  · obtain ⟨rx, hrx, hle, hlen⟩ | ⟨_, rfl, hsends⟩ := rx_served hb hatt h hrx'
    · have hm := (List.drop_subset_drop_left _ hle) hm
      rw [step_log h, List.drop_append_of_le_length hlen] at hm
      obtain hm | hm := List.mem_append.mp hm
      · exact List.mem_append_left _ (hl.channel rx hrx m hm)
      · refine List.mem_append_right _ ?_
        rw [hears, hrx]
        exact List.mem_map_of_mem hm
    · rw [step_log h, hsends, List.append_nil, List.drop_length] at hm
      cases hm
  · cases carries hn hatt hfit h with
    | same ho hf hg =>
      rw [hf] at he
      exact hl.lines e he
    | took ha hc hm ho hr hf hg =>
      rw [hf, events_append] at he
      exact hl.lines e ((List.mem_append.mp he).resolve_right nofun)
    | @event c e' ha hc hev ho hf hg =>
      rw [hf, events_append] at he
      obtain he | he := List.mem_append.mp he
      · exact hl.lines e he
      · -- the message that is forwarded was next on the channel
        obtain rfl : e = e' := List.mem_singleton.mp he
        simp only [nextEvent, Option.bind_eq_bind, Option.bind_eq_some_iff] at hev
        obtain ⟨k, hk, rx, hrx, m, hm, hev⟩ := hev
        obtain ⟨_, hev⟩ := Option.ite_none_right_eq_some.mp hev
        obtain ⟨hlt, rfl⟩ := List.getElem?_eq_some_iff.mp hm
        cases hev
        refine hl.channel rx ((rx_of hc hk).trans hrx) _ ?_
        rw [List.drop_eq_getElem_cons hlt]
        exact List.mem_cons_self
    | leaves ho hg hf =>
      obtain ⟨ns, _, hns, hf⟩ := hf
      exact hl.lines e (mem_events_of_initial hf hns he)

/-- The replies that the client has still to read, once the daemon has taken what it has sent. -/
def owed (s : Daemon) (l : Client) : Nat := l.outgoing.length + (replies (l.flight s)).length

theorem owed_carries {l' : Client} (h : Carries cfg fromStr s t b l l') : l'.owed t ≤ l.owed s := by
  cases h with
  | same ho hf hg => rw [owed, owed, ho, hf]
  | took ha hc hm ho hr hf hg =>
    rw [owed, owed, ho, hf, replies_append, List.length_append, List.length_cons]
    change _ + (_ + 1) ≤ _
    omega
  | event ha hc he ho hf hg =>
    rw [owed, owed, ho, hf, replies_append, List.length_append]
    exact Nat.le_refl _
  | leaves ho hg hf =>
    obtain ⟨ns, hns, _, hf⟩ := hf
    have hle : (replies (l'.flight t)).length ≤ (replies (l.flight s ++ ns)).length :=
      (hf.filterMap _).length_le
    rw [replies_append, hns, List.append_nil] at hle
    rw [owed, owed, ho]
    omega

theorem owed_send (m : ClientMessage) :
    Client.owed s { l with outgoing := l.outgoing ++ [m] } = l.owed s + 1 := by
  have hf : Client.flight s { l with outgoing := l.outgoing ++ [m] } = l.flight s := rfl
  rw [owed, owed, hf, List.length_append]
  change _ + 1 + _ = _
  omega

theorem owed_read {x : OutLine} {xs : List OutLine} (hx : l.incoming = x :: xs) :
    Client.owed s { l with incoming := xs } + (replies [x]).length = l.owed s := by
  have hr := replies_append [x] (Client.flight s { l with incoming := xs })
  rw [owed, owed, flight_read hx, ← List.singleton_append (l := Client.flight s _), hr,
    List.length_append]
  dsimp only
  omega

end Client

/-- How far the exchange with a client has come: nothing has been sent, nothing is owed to it, or
it has one request under way. -/
inductive Phase where
  | silent
  | idle
  | asked

def Phase.Of (s : Daemon) (sid : String) (l : Client) : Phase → Prop
  | .silent => l.Silent s ∧ l.owed s = 0
  | .idle => l.Introduced s sid ∧ l.owed s = 0
  | .asked => l.Introduced s sid ∧ l.owed s ≤ 1

def Net.Stands (n : Net) (sid : String) (i : Nat) (ph : Phase) : Prop :=
  ∃ l, n.clients[i]? = some l ∧ ph.Of n.daemon sid l

theorem Phase.outgoing {sid : String} {l : Client} (h : Phase.idle.Of s sid l) :
    l.outgoing = [] := by
  have ho : l.outgoing.length + (replies (l.flight s)).length = 0 := h.2
  exact List.eq_nil_of_length_eq_zero (by omega)

namespace Net

variable {n n' : Net} {a : NetAction} {sid : String} {i : Nat} {ph : Phase}

theorem stands_other (hw : n.Wired) (h : n.step cfg fromStr a = some n') (ha : a.client ≠ some i)
    (hs : n.Stands sid i ph) : n'.Stands sid i ph := by
  obtain ⟨l, hl, hph⟩ := hs
  have hatt := hw.attached l (List.mem_of_getElem? hl)
  obtain ⟨d, _, ht, hfit, hl'⟩ | ⟨_, hd, hl'⟩ := step_client h ha hl
  · have howed := Client.owed_carries (Client.carries hw.notices hatt hfit ht)
    refine ⟨_, hl', ?_⟩
    cases ph with
    | silent => exact ⟨Client.silent_served hph.1 hatt hfit ht, Nat.le_zero.mp (hph.2 ▸ howed)⟩
    | idle => exact ⟨Client.introduced_served hph.1 hatt hfit ht, Nat.le_zero.mp (hph.2 ▸ howed)⟩
    | asked => exact ⟨Client.introduced_served hph.1 hatt hfit ht, howed.trans hph.2⟩
  · exact ⟨l, hl', hd ▸ hph⟩

theorem stands_connect (h : n.step cfg fromStr .connect = some n') :
    n'.Stands sid n.clients.length .silent := by
  obtain ⟨t, ht, rfl⟩ := step_connect.mp h
  obtain ⟨_, rfl⟩ := Daemon.step_connect.mp ht
  refine ⟨_, List.getElem?_concat_length, fun c k hc hk => ?_, ?_⟩
  · cases hc
    obtain rfl : Conn.fresh = k := by simpa using hk
    exact ⟨rfl, rfl⟩
  · rw [Client.owed, Client.flight_of rfl List.getElem?_concat_length]
    rfl

theorem stands_introduce {pid : Nat} {cwd intent : String} {node : Option String}
    (h : n.step cfg fromStr (.send i (.announce sid pid cwd intent node)) = some n')
    (hs : n.Stands sid i .silent) : n'.Stands sid i .asked := by
  obtain ⟨l, hl, hi, ho⟩ := hs
  obtain ⟨l₁, hl₁, _, rfl⟩ := step_send.mp h
  obtain rfl : l = l₁ := Option.some.inj (hl.symm.trans hl₁)
  exact ⟨_, getElem?_setClient hl _, hi.introduce sid pid cwd intent node,
    Nat.le_of_eq ((Client.owed_send (s := n.daemon) (l := l) _).trans (by rw [ho]))⟩

theorem stands_ask {m : ClientMessage} (h : n.step cfg fromStr (.send i m) = some n')
    (hs : n.Stands sid i .idle) : n'.Stands sid i .asked := by
  obtain ⟨l, hl, hi, ho⟩ := hs
  obtain ⟨l₁, hl₁, _, rfl⟩ := step_send.mp h
  obtain rfl : l = l₁ := Option.some.inj (hl.symm.trans hl₁)
  exact ⟨_, getElem?_setClient hl _, hi.send m,
    Nat.le_of_eq ((Client.owed_send (s := n.daemon) (l := l) m).trans (by rw [ho]))⟩

theorem stands_reply {r : Reply} {b : Option NetAction} (h : n.step cfg fromStr (.read i) = some n')
    (hr : n.readReply i = some (b, some r)) (hs : n.Stands sid i .asked) :
    n'.Stands sid i .idle := by
  obtain ⟨l, hl, hi, ho⟩ := hs
  obtain ⟨l₁, x, xs, hl₁, hx, rfl⟩ := step_read.mp h
  obtain ⟨_, l₂, xs', hl₂, hx'⟩ := readReply_some hr
  obtain rfl : l = l₁ := Option.some.inj (hl.symm.trans hl₁)
  obtain rfl : l = l₂ := Option.some.inj (hl.symm.trans hl₂)
  have howed := Client.owed_read (s := n.daemon) hx
  rw [(List.cons.inj (hx.symm.trans hx')).1] at howed
  change _ + 1 = _ at howed
  exact ⟨_, getElem?_setClient hl _, hi, by dsimp only [setClient]; omega⟩

theorem stands_read (h : n.step cfg fromStr (.read i) = some n') (hs : n.Stands sid i .idle) :
    n'.Stands sid i .idle := by
  obtain ⟨l, hl, hi, ho⟩ := hs
  obtain ⟨l₁, x, xs, hl₁, hx, rfl⟩ := step_read.mp h
  obtain rfl : l = l₁ := Option.some.inj (hl.symm.trans hl₁)
  have howed := Client.owed_read (s := n.daemon) hx
  exact ⟨_, getElem?_setClient hl _, hi, by dsimp only [setClient]; omega⟩

end Net

end Agorabus
