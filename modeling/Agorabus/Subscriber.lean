import Agorabus.Steps

namespace Agorabus.Subscriber

open Agorabus Daemon StepSystem

variable {cfg : Config} {fromStr : String → Option ClientMessage} {s t : Daemon} {a : Action}

def events (ls : List OutLine) : List ServerEvent :=
  ls.filterMap (fun l => match l with
    | .event e => some e
    | _ => none)

def notices (ls : List OutLine) : List DrainNotice :=
  ls.filterMap (fun l => match l with
    | .notice n => some n
    | _ => none)

theorem events_append (ls ms : List OutLine) : events (ls ++ ms) = events ls ++ events ms :=
  List.filterMap_append

theorem notices_append (ls ms : List OutLine) : notices (ls ++ ms) = notices ls ++ notices ms :=
  List.filterMap_append

def Plain (es : List Effect) : Prop :=
  ∀ e ∈ es, (∀ ev, e ≠ .write (.event ev)) ∧ (∀ n, e ≠ .write (.notice n)) ∧
    ∀ n, e ≠ .writeNotice n

theorem topicMatches_iff {prefixes : List String} (hne : prefixes ≠ []) (topic : String) :
    topicMatches prefixes topic = true ↔ ∃ p ∈ prefixes, p.toList <+: topic.toList := by
  simp only [topicMatches, List.isEmpty_iff, hne, Bool.or_eq_true, false_or, List.any_eq_true,
    List.isPrefixOf_iff_prefix]
  constructor
  · rintro ⟨p, hp, he | he⟩
    · refine ⟨p, hp, ?_⟩
      rw [String.isEmpty_iff.mp he]
      exact List.nil_prefix
    · exact ⟨p, hp, he⟩
  · rintro ⟨p, hp, he⟩
    exact ⟨p, hp, Or.inr he⟩

section line

variable (cfg : Config) (fromStr : String → Option ClientMessage) (k : Conn) (c : Nat)
  (bus : BusState) (uplink : UplinkStatus) (sent now : Nat)

def Served.KeepsStream (r : Served) : Prop :=
  Plain r.conn.pending ∧ .cleanup ∉ r.conn.pending ∧
    k.subscribedPrefixes <+: r.conn.subscribedPrefixes ∧
    (r.conn.bcastRx = k.bcastRx ∨
      (k.bcastRx = none ∧ r.conn.bcastRx = some sent ∧ r.conn.subscribedPrefixes ≠ [] ∧
        r.conn.pending = [.write (.reply .okEmpty)] ∧ r.sent = []))

theorem handleMessage_stream (sid : String) (msg : ClientMessage) :
    Served.KeepsStream k sent (handleMessage cfg k sid bus uplink sent now msg) := by
  cases msg with
  | heartbeat tool skill prdSlug paths =>
    simp only [handleMessage]
    split
    · simp [Served.KeepsStream, answer, Plain]
    · split <;> simp [Served.KeepsStream, Plain]
  | claimAcquire path ttl reason force =>
    rw [handleMessage_claimAcquire]
    split <;> simp [Served.KeepsStream, answer, Plain]
  | claimRelease path =>
    simp only [handleMessage]
    split <;> simp [Served.KeepsStream, Plain]
  | subscribe pre =>
    simp only [handleMessage, answer]
    refine ⟨by simp [Plain], by simp, ?_, ?_⟩
    · split
      · exact List.prefix_refl _
      · exact List.prefix_append _ _
    · cases hk : k.bcastRx with
      | some rx => exact Or.inl rfl
      | none =>
        refine Or.inr ⟨rfl, rfl, ?_, rfl, rfl⟩
        split
        · rename_i hm
          exact List.ne_nil_of_mem hm
        · simp
  | _ => simp [Served.KeepsStream, handleMessage, answer, Plain]

theorem handleLine_stream (hk : k.pending = []) (line : String) :
    Served.KeepsStream k sent (handleLine cfg fromStr k c bus uplink sent now line) := by
  have same : Served.KeepsStream k sent ⟨k, bus, []⟩ := by
    simp [Served.KeepsStream, Plain, hk]
  unfold handleLine
  split
  · exact same
  · cases fromStr (trim line) with
    | none => simp [Served.KeepsStream, Plain]
    | some msg =>
      cases k.sessionId with
      | none => cases msg <;> simp [Served.KeepsStream, handleFirst, answer, Plain]
      | some sid => exact handleMessage_stream ..

end line

/-- The connection is about to write a line, or in the middle of it. -/
def MidWrite (s : Daemon) (c : Nat) : Prop :=
  ∃ k, s.conns[c]? = some k ∧
    ((∃ l es, k.pending = .write l :: es) ∨ ∃ n es, k.pending = .writeNotice n :: es)

/-- The step does not make the connection lag, fail to write or end in a write. -/
structure Calm (cfg : Config) (c : Nat) (s : Daemon) (a : Action) : Prop where
  keepsUp : a = .event c → ∀ k rx, s.conns[c]? = some k → k.bcastRx = some rx →
    s.log.length - rx ≤ cfg.broadcastCapacity.nextPowerOfTwo
  writes : ∀ now, a = .proceed c now false → ¬ MidWrite s c
  finishes : a = .abort c → ¬ MidWrite s c

/-- The message the connection takes from the channel in a step, with the prefixes it has
subscribed at that point. -/
def taken (cfg : Config) (c : Nat) (s : Daemon) : Action → List (BroadcastMsg × List String)
  | .event d =>
      if d = c then
        (do
          let k ← s.conns[c]?
          let rx ← k.bcastRx
          if cfg.broadcastCapacity.nextPowerOfTwo < s.log.length - rx then none
          else (s.log[rx]?).map (fun m => (m, k.subscribedPrefixes))).toList
      else []
  | _ => []

theorem taken_other {c : Nat} (h : a ≠ .event c) : taken cfg c s a = [] := by
  cases a with
  | event d => exact if_neg (fun he => h (congrArg Action.event he))
  | _ => rfl

def delivered (ts : List (BroadcastMsg × List String)) : List ServerEvent :=
  (ts.filter (fun x => decide (∃ p ∈ x.2, p.toList <+: x.1.topic.toList))).map
    (fun x => x.1.toEvent)

theorem delivered_append (ts us : List (BroadcastMsg × List String)) :
    delivered (ts ++ us) = delivered ts ++ delivered us := by
  rw [delivered, List.filter_append, List.map_append, delivered, delivered]

/-- Where a subscriber is after its first `Subscribe`, which left it with the lines `w`: it
has still to answer, it is at its select or in a line, its client is gone, it writes an event,
it has been told to drain, or it has written the notice. -/
inductive Phase (w : List OutLine) (evs : List ServerEvent) (k : Conn) : Prop
  | answering (hw : k.written = w) (hp : k.pending = [.write (.reply .okEmpty)])
      (hs : k.status = .running) (he : evs = [])
  | streaming (rest : List OutLine) (hw : k.written = w ++ .reply .okEmpty :: rest)
      (hn : notices rest = []) (hp : Plain k.pending) (hc : .cleanup ∉ k.pending)
      (hs : k.status = .running ∨ k.pending = []) (he : events rest = evs)
  | closing (rest : List OutLine) (hw : k.written = w ++ .reply .okEmpty :: rest)
      (hn : notices rest = []) (hp : k.pending = [.cleanup]) (he : events rest = evs)
  | sending (rest : List OutLine) (ev : ServerEvent)
      (hw : k.written = w ++ .reply .okEmpty :: rest) (hn : notices rest = [])
      (hp : k.pending = [.write (.event ev)]) (hs : k.status = .running)
      (he : events rest ++ [ev] = evs)
  | draining (rest : List OutLine) (n : DrainNotice)
      (hw : k.written = w ++ .reply .okEmpty :: rest) (hn : notices rest = [])
      (hp : k.pending = [.writeNotice n, .cleanup]) (hs : k.status = .running)
      (he : events rest = evs)
  | drained (rest : List OutLine) (n : DrainNotice)
      (hw : k.written = w ++ .reply .okEmpty :: rest ++ [.notice n]) (hn : notices rest = [])
      (hp : k.pending = [.cleanup] ∨ (k.status ≠ .running ∧ k.pending = []))
      (he : events rest = evs)

theorem Phase.of_idle {w : List OutLine} {evs : List ServerEvent} {k : Conn}
    (h : Phase w evs k) (hi : k.idle = true) :
    ∃ rest, k.written = w ++ .reply .okEmpty :: rest ∧ notices rest = [] ∧ events rest = evs := by
  rw [Conn.idle_iff] at hi
  cases h with
  | answering hw hp => simp [hp] at hi
  | streaming rest hw hn hp hc hs he => exact ⟨rest, hw, hn, he⟩
  | closing rest hw hn hp => simp [hp] at hi
  | sending rest ev hw hn hp => simp [hp] at hi
  | draining rest n hw hn hp => simp [hp] at hi
  | drained rest n hw hn hp he =>
    obtain hp | hp := hp
    · simp [hp] at hi
    · exact absurd hi.1 hp.1

theorem Phase.perform {w : List OutLine} {evs : List ServerEvent} {k : Conn} {e : Effect}
    {es : List Effect} (h : Phase w evs k) (hp : k.pending = e :: es) (now : Nat) {c : Nat}
    {ok : Bool}
    (hk : s.conns[c]? = some k) (hrun : k.status = .running)
    (hok : ok = false → ¬ MidWrite s c) :
    ∃ k', (({ s with clock := now } : Daemon).perform c { k with pending := es } now ok e).conns =
        s.conns.set c k' ∧ k'.subscribedPrefixes = k.subscribedPrefixes ∧
      k'.bcastRx = k.bcastRx ∧ Phase w evs k' := by
  refine ⟨_, perform_conns c now _ ok e, ?_⟩
  have written {l : OutLine} (he : e = .write l) : ok = true := by
    by_contra hn
    exact hok (by simpa using hn) ⟨k, hk, Or.inl ⟨l, es, by rw [hp, he]⟩⟩
  cases h with
  | answering hw hp' hs he =>
    rw [hp] at hp'
    cases hp'
    rw [written rfl]
    exact ⟨rfl, rfl, .streaming [] (by simp [hw]) rfl (by simp [Plain]) (by simp) (Or.inr rfl)
      he.symm⟩
  | streaming rest hw hn hp' hc hs he =>
    rw [hp] at hp' hc
    have hces : .cleanup ∉ es := fun hm => hc (List.mem_cons_of_mem _ hm)
    have hes : Plain es := fun e' he' => hp' e' (List.mem_cons_of_mem _ he')
    have hhead := hp' e List.mem_cons_self
    cases e with
    | write l =>
      rw [written rfl]
      refine ⟨rfl, rfl, .streaming (rest ++ [l]) ?_ ?_ hes hces (Or.inl hrun) ?_⟩
      · simp [hw]
      · cases l with
        | notice n => exact absurd rfl (hhead.2.1 n)
        | _ =>
          rw [notices_append, hn]
          rfl
      · cases l with
        | event ev => exact absurd rfl (hhead.1 ev)
        | _ =>
          rw [events_append, he]
          exact List.append_nil _
    | writeNotice n => exact absurd rfl (hhead.2.2 n)
    | bail =>
      exact ⟨rfl, rfl, .streaming rest hw hn (by simp [Plain]) (by simp) (Or.inr rfl) he⟩
    | cleanup => exact absurd List.mem_cons_self hc
    | _ => exact ⟨rfl, rfl, .streaming rest hw hn hes hces (Or.inl hrun) he⟩
  | closing rest hw hn hp' he =>
    rw [hp] at hp'
    cases hp'
    exact ⟨rfl, rfl, .streaming rest hw hn (by simp [Plain]) (by simp) (Or.inr rfl) he⟩
  | sending rest ev hw hn hp' hs he =>
    rw [hp] at hp'
    cases hp'
    rw [written rfl]
    refine ⟨rfl, rfl, .streaming (rest ++ [.event ev]) ?_ ?_ (by simp [Plain]) (by simp)
      (Or.inr rfl) ?_⟩
    · simp [hw]
    · rw [notices_append, hn]
      rfl
    · rw [events_append, he.symm]
      rfl
  | draining rest n hw hn hp' hs he =>
    rw [hp] at hp'
    cases hp'
    cases ok with
    | true => exact ⟨rfl, rfl, .drained rest n (by simp [hw]) hn (Or.inl rfl) he⟩
    | false => exact absurd ⟨k, hk, Or.inr ⟨n, _, hp⟩⟩ (hok rfl)
  | drained rest n hw hn hp' he =>
    obtain hp' | ⟨_, hp'⟩ := hp'
    · rw [hp] at hp'
      cases hp'
      exact ⟨rfl, rfl, .drained rest n hw hn (Or.inr ⟨nofun, rfl⟩) he⟩
    · rw [hp] at hp'
      cases hp'

theorem takeEvent_conn {c rx : Nat} {k : Conn} (h : s.takeEvent cfg c k rx = some t)
    (hup : s.log.length - rx ≤ cfg.broadcastCapacity.nextPowerOfTwo) :
    ∃ m, s.log[rx]? = some m ∧ t = s.setConn c { k with
      bcastRx := some (rx + 1)
      pending := if topicMatches k.subscribedPrefixes m.topic
        then [.write (.event m.toEvent)] else [] } := by
  rw [takeEvent, if_neg (by omega)] at h
  obtain ⟨m, hm, ht⟩ := Option.map_eq_some_iff.mp h
  exact ⟨m, hm, ht.symm⟩

theorem isPrefix_concat {α : Type} {l L : List α} {x : α} (h : l <+: L)
    (hx : L[l.length]? = some x) : l ++ [x] <+: L := by
  obtain ⟨rest, rfl⟩ := h
  rw [List.getElem?_append_right (Nat.le_refl _), Nat.sub_self] at hx
  cases rest with
  | nil => cases hx
  | cons y rest =>
    cases hx
    exact ⟨rest, by simp⟩

/-- The stream of a connection that had written `w` and subscribed `ps` at log position
`start` when its first `Subscribe` was processed, and has taken `ts` since. -/
structure Streams (w : List OutLine) (ps : List String) (start c : Nat) (s : Daemon)
    (ts : List (BroadcastMsg × List String)) (k : Conn) : Prop where
  conn : s.conns[c]? = some k
  position : k.bcastRx = some (start + ts.length)
  prefixes : ps <+: k.subscribedPrefixes
  sent : start ≤ s.log.length
  taken : ts.map Prod.fst <+: s.log.drop start
  phase : Phase w (delivered ts) k

theorem streams_line {w : List OutLine} {ps : List String} {start c now : Nat} {text : String}
    {ts : List (BroadcastMsg × List String)} {k : Conn} (hs : Streams w ps start c s ts k)
    (h : step cfg fromStr s (.line c text now) = some t) : ∃ k', Streams w ps start c t ts k' := by
  obtain ⟨k₀, hk₀, ⟨hi, _⟩, rfl⟩ := step_line.mp h
  obtain rfl : k = k₀ := Option.some.inj (hs.conn.symm.trans hk₀)
  obtain ⟨rest, hw, hn, he⟩ := hs.phase.of_idle hi
  rw [Conn.idle_iff] at hi
  obtain ⟨hplain, hclean, hpre, hrx⟩ := handleLine_stream cfg fromStr k c s.bus s.uplinkStatus
    s.log.length now hi.2 text
  have hrx := hrx.resolve_right (fun hr => by rw [hs.position] at hr; cases hr.1)
  obtain ⟨hst, hwr, _⟩ := handleLine_conn cfg fromStr k c s.bus s.uplinkStatus s.log.length now
    text
  refine ⟨_, getElem?_set_conn hk₀ _, hrx.trans hs.position, hs.prefixes.trans hpre, ?_, ?_,
    .streaming rest (hwr.trans hw) hn hplain hclean (Or.inl (hst.trans hi.1)) he⟩
  · exact hs.sent.trans (by simp [takeLine])
  · simp only [takeLine, List.drop_append_of_le_length hs.sent]
    exact hs.taken.trans (List.prefix_append _ _)

theorem streams_event {w : List OutLine} {ps : List String} {start c : Nat}
    {ts : List (BroadcastMsg × List String)} {k : Conn} (hs : Streams w ps start c s ts k)
    (hne : ps ≠ []) (hcalm : Calm cfg c s (.event c))
    (h : step cfg fromStr s (.event c) = some t) :
    ∃ k', Streams w ps start c t (ts ++ taken cfg c s (.event c)) k' := by
  obtain ⟨k₀, rx, hk₀, hrx, hi, he⟩ := step_event.mp h
  obtain rfl : k = k₀ := Option.some.inj (hs.conn.symm.trans hk₀)
  obtain rfl : start + ts.length = rx := Option.some.inj (hs.position.symm.trans hrx)
  have hup := hcalm.keepsUp rfl k _ hk₀ hrx
  obtain ⟨m, hm, rfl⟩ := takeEvent_conn he hup
  obtain ⟨rest, hw, hn, hev⟩ := hs.phase.of_idle hi
  have hrun : k.status = .running := by
    rw [Conn.idle_iff] at hi
    exact hi.1
  have htaken : taken cfg c s (.event c) = [(m, k.subscribedPrefixes)] := by
    simp only [taken, hk₀, hrx, hm, ↓reduceIte, Option.bind_eq_bind, Option.bind_some]
    rw [if_neg (by omega)]
    rfl
  have hpre : k.subscribedPrefixes ≠ [] := fun hnil => hne (by
    have := hs.prefixes
    rwa [hnil, List.prefix_nil] at this)
  rw [htaken]
  refine ⟨_, getElem?_set_conn hk₀ _, ?_, hs.prefixes, hs.sent, ?_, ?_⟩
  · simp [Nat.add_assoc]
  · rw [List.map_append]
    refine isPrefix_concat hs.taken ?_
    rw [List.length_map, List.getElem?_drop]
    exact hm
  · rw [delivered_append]
    by_cases hmatch : ∃ p ∈ k.subscribedPrefixes, p.toList <+: m.topic.toList
    · refine .sending rest m.toEvent hw hn ?_ hrun ?_
      · rw [if_pos ((topicMatches_iff hpre _).mpr hmatch)]
      rw [hev]
      simp only [delivered, List.filter_cons, hmatch, decide_true, ↓reduceIte, List.filter_nil,
        List.map_cons, List.map_nil]
    · have hidle : (if topicMatches k.subscribedPrefixes m.topic then
          [Effect.write (.event m.toEvent)] else []) = [] :=
        if_neg (fun hc => hmatch ((topicMatches_iff hpre _).mp hc))
      refine .streaming rest hw hn ?_ ?_ (Or.inr hidle) ?_
      · rw [hidle]
        simp [Plain]
      · rw [hidle]
        simp
      · rw [hev]
        simp only [delivered, List.filter_cons, hmatch, decide_false, Bool.false_eq_true,
          ↓reduceIte, List.filter_nil, List.map_nil, List.append_nil]

theorem Streams.frame {w : List OutLine} {ps : List String} {start c : Nat}
    {ts : List (BroadcastMsg × List String)} {k k' : Conn} (hs : Streams w ps start c s ts k)
    (hk : t.conns[c]? = some k') (hl : s.log <+: t.log) (hrx : k'.bcastRx = k.bcastRx)
    (hps : k'.subscribedPrefixes = k.subscribedPrefixes) (hph : Phase w (delivered ts) k') :
    Streams w ps start c t ts k' := by
  obtain ⟨more, hl⟩ := hl
  refine ⟨hk, hrx.trans hs.position, hps ▸ hs.prefixes, ?_, ?_, hph⟩
  · rw [← hl, List.length_append]
    exact hs.sent.trans (Nat.le_add_right _ _)
  · rw [← hl, List.drop_append_of_le_length hs.sent]
    exact hs.taken.trans (List.prefix_append _ _)

theorem streams_step {w : List OutLine} {ps : List String} {start c : Nat} (hne : ps ≠ [])
    {ts : List (BroadcastMsg × List String)} {k : Conn} (hs : Streams w ps start c s ts k)
    (hb : ∀ now, a ≠ .boot now) (hcalm : Calm cfg c s a)
    (h : step cfg fromStr s a = some t) :
    ∃ k', Streams w ps start c t (ts ++ taken cfg c s a) k' := by
  have hlog := log_grows h
  by_cases hc : a.conn = some c
  · cases a with
    | line d text now =>
      cases hc
      rw [taken_other (by simp), List.append_nil]
      exact streams_line hs h
    | hangup d =>
      cases hc
      obtain ⟨k₀, hk₀, hi, rfl⟩ := step_hangup.mp h
      obtain rfl : k = k₀ := Option.some.inj (hs.conn.symm.trans hk₀)
      obtain ⟨rest, hw, hn, he⟩ := hs.phase.of_idle hi
      rw [taken_other (by simp), List.append_nil]
      exact ⟨_, hs.frame (getElem?_set_conn hk₀ _) hlog rfl rfl (.closing rest hw hn rfl he)⟩
    | event d =>
      cases hc
      exact streams_event hs hne hcalm h
    | drain d =>
      cases hc
      obtain ⟨k₀, hk₀, _, hi, rfl⟩ := step_drain.mp h
      obtain rfl : k = k₀ := Option.some.inj (hs.conn.symm.trans hk₀)
      obtain ⟨rest, hw, hn, he⟩ := hs.phase.of_idle hi
      rw [taken_other (by simp), List.append_nil]
      refine ⟨_, hs.frame (getElem?_set_conn hk₀ _) hlog rfl rfl
        (.draining rest (.new cfg.drainResumeHintMs) hw hn ?_ ?_ he)⟩
      · rw [hs.position]
        rfl
      · rw [Conn.idle_iff] at hi
        exact hi.1
    | proceed d now ok =>
      cases hc
      obtain ⟨k₀, e, es, hk₀, hp, ⟨hrun, _⟩, rfl⟩ := step_proceed.mp h
      obtain rfl : k = k₀ := Option.some.inj (hs.conn.symm.trans hk₀)
      have hok : ok = false → ¬ MidWrite s c := fun hf => hcalm.writes now (by rw [hf])
      obtain ⟨k', hk', hps, hrx, hph⟩ := hs.phase.perform hp now hk₀ hrun hok
      rw [taken_other (by simp), List.append_nil]
      refine ⟨k', hs.frame ?_ hlog hrx hps hph⟩
      rw [hk']
      exact getElem?_set_conn hk₀ _
    | abort d =>
      cases hc
      obtain ⟨k₀, hk₀, _, ⟨_, hawait⟩, rfl⟩ := step_abort.mp h
      obtain rfl : k = k₀ := Option.some.inj (hs.conn.symm.trans hk₀)
      have hmid := hcalm.finishes rfl
      rw [taken_other (by simp), List.append_nil]
      refine ⟨_, hs.frame (getElem?_set_conn hk₀ _) hlog rfl rfl ?_⟩
      cases hs.phase with
      | answering hw hp => exact absurd ⟨k, hk₀, Or.inl ⟨_, _, hp⟩⟩ hmid
      | streaming rest hw hn hp hc hs he =>
        exact .streaming rest hw hn (by simp [Plain]) (by simp) (Or.inr rfl) he
      | closing rest hw hn hp he =>
        exact .streaming rest hw hn (by simp [Plain]) (by simp) (Or.inr rfl) he
      | sending rest ev hw hn hp => exact absurd ⟨k, hk₀, Or.inl ⟨_, _, hp⟩⟩ hmid
      | draining rest n hw hn hp => exact absurd ⟨k, hk₀, Or.inr ⟨_, _, hp⟩⟩ hmid
      | drained rest n hw hn hp he => exact .drained rest n hw hn (Or.inr ⟨nofun, rfl⟩) he
    | _ => cases hc
  · rw [taken_other (fun he => hc (by rw [he]; rfl)), List.append_nil]
    exact ⟨k, hs.frame (conn_kept h hb hc hs.conn) hlog rfl rfl hs.phase⟩

def Unsubscribed (c : Nat) (s : Daemon) : Prop :=
  ∀ k, s.conns[c]? = some k → k.bcastRx = none →
    events k.written = [] ∧ notices k.written = [] ∧ Plain k.pending

theorem unsubscribed_performed (ok : Bool) {k : Conn} {e : Effect} {es : List Effect}
    (hp : k.pending = e :: es)
    (hu : events k.written = [] ∧ notices k.written = [] ∧ Plain k.pending) :
    events (Conn.performed { k with pending := es } ok e).written = [] ∧
      notices (Conn.performed { k with pending := es } ok e).written = [] ∧
        Plain (Conn.performed { k with pending := es } ok e).pending := by
  obtain ⟨hev, hn, hplain⟩ := hu
  rw [hp] at hplain
  have hes : Plain es := fun e' he' => hplain e' (List.mem_cons_of_mem _ he')
  have hhead := hplain e List.mem_cons_self
  cases e with
  | write l =>
    cases ok with
    | false => exact ⟨hev, hn, by simp [Plain, Conn.performed]⟩
    | true =>
      refine ⟨?_, ?_, hes⟩
      · cases l with
        | event ev => exact absurd rfl (hhead.1 ev)
        | _ =>
          change events (k.written ++ _) = []
          rw [events_append, hev]
          rfl
      · cases l with
        | notice n => exact absurd rfl (hhead.2.1 n)
        | _ =>
          change notices (k.written ++ _) = []
          rw [notices_append, hn]
          rfl
  | writeNotice n => exact absurd rfl (hhead.2.2 n)
  | bail => exact ⟨hev, hn, by simp [Plain, Conn.performed]⟩
  | _ => exact ⟨hev, hn, hes⟩

theorem unsubscribed_step {c : Nat} (hu : Unsubscribed c s) (h : step cfg fromStr s a = some t) :
    Unsubscribed c t := by
  intro k' hk' hrx'
  obtain ⟨_, rfl⟩ | ⟨k, hk, hst⟩ := conn_before h hk'
  · exact ⟨rfl, rfl, by simp [Plain, Conn.fresh]⟩
  cases hst with
  | other ha => exact hu _ hk hrx'
  | @line text now hi =>
    obtain ⟨hplain, _, _, hrx⟩ := handleLine_stream cfg fromStr k c s.bus s.uplinkStatus
      s.log.length now (Conn.idle_iff.mp hi).2 text
    have hw := (handleLine_conn cfg fromStr k c s.bus s.uplinkStatus s.log.length now text).2.1
    obtain hrx | hrx := hrx
    · obtain ⟨hev, hn, _⟩ := hu k hk (hrx.symm.trans hrx')
      rw [hw]
      exact ⟨hev, hn, hplain⟩
    · rw [hrx.2.1] at hrx'
      cases hrx'
  | hangup hi =>
    obtain ⟨hev, hn, _⟩ := hu k hk hrx'
    exact ⟨hev, hn, by simp [Plain]⟩
  | lag hi hrx hlag => cases hrx'
  | event hi hrx hup hm => cases hrx'
  | drain hi =>
    dsimp only at hrx'
    obtain ⟨hev, hn, _⟩ := hu k hk hrx'
    exact ⟨hev, hn, by simp [Plain, hrx']⟩
  | proceed hp hr =>
    rw [performed_bcastRx] at hrx'
    exact unsubscribed_performed _ hp (hu k hk hrx')
  | abort hr hw =>
    obtain ⟨hev, hn, _⟩ := hu k hk hrx'
    exact ⟨hev, hn, by simp [Plain]⟩

theorem streams_subscribe {c : Nat} {k k' : Conn} (h : step cfg fromStr s a = some t)
    (hk : s.conns[c]? = some k) (hnone : k.bcastRx = none) (hk' : t.conns[c]? = some k')
    (hsome : k'.bcastRx.isSome) : k'.written = k.written ∧ k'.subscribedPrefixes ≠ [] ∧
      Streams k'.written k'.subscribedPrefixes t.log.length c t [] k' := by
  obtain ⟨hn, _⟩ | ⟨k₀, hk₀, hst⟩ := conn_before h hk'
  · rw [hk] at hn
    cases hn
  obtain rfl : k = k₀ := Option.some.inj (hk.symm.trans hk₀)
  have changed (he : k'.bcastRx = k.bcastRx) : False := by
    rw [he, hnone] at hsome
    cases hsome
  cases hst with
  | @line text now hi =>
    obtain ⟨_, _, _, hrx⟩ := handleLine_stream cfg fromStr k c s.bus s.uplinkStatus s.log.length
      now (Conn.idle_iff.mp hi).2 text
    obtain ⟨hst, hw, _⟩ := handleLine_conn cfg fromStr k c s.bus s.uplinkStatus s.log.length now
      text
    obtain hrx | ⟨_, hrx, hne, hp, hsent⟩ := hrx
    · exact (changed hrx).elim
    · have hlen : t.log.length = s.log.length := by
        rw [step_log h]
        simp [sends, hk, hsent]
      refine ⟨hw, hne, hk', ?_, List.prefix_refl _, Nat.le_refl _, List.nil_prefix, ?_⟩
      · rw [hlen]
        exact hrx
      · exact .answering rfl hp (hst.trans (Conn.idle_iff.mp hi).1) rfl
  | lag hi hrx hlag =>
    rw [hnone] at hrx
    cases hrx
  | event hi hrx hup hm =>
    rw [hnone] at hrx
    cases hrx
  | proceed hp hr => exact (changed (performed_bcastRx ..)).elim
  | _ => exact (changed rfl).elim

theorem streams_run {w : List OutLine} {ps : List String} {start c : Nat} (hne : ps ≠ [])
    {ts : List (BroadcastMsg × List String)} {k : Conn} (hs : Streams w ps start c s ts k)
    {as : List Action} (hb : ∀ a ∈ as, ∀ now, a ≠ .boot now)
    (hcalm : Along (step cfg fromStr) (Calm cfg c) s as)
    (hr : run (step cfg fromStr) s as = some t) :
    ∃ k', Streams w ps start c t (ts ++ trace (step cfg fromStr) (taken cfg c) s as) k' := by
  refine run_trace_invariant (I := fun s ts => ∃ k, Streams w ps start c s ts k)
    (P := fun s a => (∀ now, a ≠ .boot now) ∧ Calm cfg c s a) ?_
    (along_and.mpr ⟨along_of_forall s hb, hcalm⟩) hr ⟨k, hs⟩
  rintro s a t out ⟨k, hs⟩ ⟨hb, hcalm⟩ h
  exact streams_step hne hs hb hcalm h

def unwritten (es : List Effect) : List OutLine :=
  es.filterMap (fun e => match e with
    | .write l => some l
    | .writeNotice n => some (.notice n)
    | _ => none)

theorem unwritten_plain {es : List Effect} (h : Plain es) :
    events (unwritten es) = [] ∧ notices (unwritten es) = [] := by
  induction es with
  | nil => exact ⟨rfl, rfl⟩
  | cons e es ih =>
    have hrest := ih (fun e' he' => h e' (List.mem_cons_of_mem _ he'))
    have hhead := h e List.mem_cons_self
    cases e with
    | write l =>
      cases l with
      | reply r => exact hrest
      | event ev => exact absurd rfl (hhead.1 ev)
      | notice n => exact absurd rfl (hhead.2.1 n)
    | writeNotice n => exact absurd rfl (hhead.2.2 n)
    | _ => exact hrest

theorem Phase.lines {w : List OutLine} {evs : List ServerEvent} {k : Conn} (h : Phase w evs k) :
    (k.status ≠ .running → unwritten k.pending = []) ∧
    ∃ ls, k.written ++ unwritten k.pending = w ++ .reply .okEmpty :: ls ∧ events ls = evs ∧
      (notices ls = [] ∨ ∃ ms n, ls = ms ++ [.notice n] ∧ notices ms = []) := by
  cases h with
  | answering hw hp hs he =>
    exact ⟨fun hne => absurd hs hne, [], by rw [hw, hp]; rfl, he.symm, Or.inl rfl⟩
  | streaming rest hw hn hp hc hs he =>
    obtain ⟨hev, hno⟩ := unwritten_plain hp
    refine ⟨fun hne => ?_, rest ++ unwritten k.pending, by simp [hw], ?_, Or.inl ?_⟩
    · rw [hs.resolve_left hne]
      rfl
    · rw [events_append, hev, he, List.append_nil]
    · rw [notices_append, hno, hn, List.append_nil]
  | closing rest hw hn hp he =>
    have hun : unwritten k.pending = [] := by
      rw [hp]
      rfl
    exact ⟨fun _ => hun, rest, by rw [hw, hun, List.append_nil], he, Or.inl hn⟩
  | sending rest ev hw hn hp hs he =>
    refine ⟨fun hne => absurd hs hne, rest ++ [.event ev], by rw [hw, hp]; simp [unwritten], ?_,
      Or.inl ?_⟩
    · rw [events_append, ← he]
      rfl
    · rw [notices_append, hn]
      rfl
  | draining rest n hw hn hp hs he =>
    refine ⟨fun hne => absurd hs hne, rest ++ [.notice n], by rw [hw, hp]; simp [unwritten], ?_,
      Or.inr ⟨rest, n, rfl, hn⟩⟩
    rw [events_append, he]
    exact List.append_nil _
  | drained rest n hw hn hp he =>
    have hun : unwritten k.pending = [] := by
      obtain hp | ⟨_, hp⟩ := hp <;> rw [hp] <;> rfl
    refine ⟨fun _ => hun, rest ++ [.notice n], by rw [hw, hun]; simp, ?_,
      Or.inr ⟨rest, n, rfl, hn⟩⟩
    rw [events_append, he]
    exact List.append_nil _

/-- A connection gets no event and no notice before its first `Subscribe`. From then on it
gets, while it keeps up and its writes go through, the reply and then exactly the messages it
takes from the channel, one after the other from the position of that `Subscribe`, as far as
a prefix it has at that point matches, and at most one notice as its last line. -/
theorem subscriber_stream (cfg : Config) (fromStr : String → Option ClientMessage)
    (file : DurableState) (log : List BroadcastMsg) (now : Nat) (as : List Action) (s : Daemon)
    (c : Nat) (hr : run (step cfg fromStr) (start file log now) as = some s) :
    (∀ k, s.conns[c]? = some k → k.bcastRx = none →
      events k.written = [] ∧ notices k.written = []) ∧
    ∀ a u bs t k₀ k₁, step cfg fromStr s a = some u → s.conns[c]? = some k₀ →
      k₀.bcastRx = none → u.conns[c]? = some k₁ → k₁.bcastRx.isSome →
      (∀ b ∈ bs, ∀ now, b ≠ .boot now) → Along (step cfg fromStr) (Calm cfg c) u bs →
      run (step cfg fromStr) u bs = some t →
      events k₁.written = [] ∧ notices k₁.written = [] ∧
      ∃ k ls, t.conns[c]? = some k ∧
        k.written ++ unwritten k.pending = k₁.written ++ .reply .okEmpty :: ls ∧
        (k.status ≠ .running → unwritten k.pending = []) ∧
        events ls = delivered (trace (step cfg fromStr) (taken cfg c) u bs) ∧
        (trace (step cfg fromStr) (taken cfg c) u bs).map Prod.fst <+: t.log.drop u.log.length ∧
        k.bcastRx =
          some (u.log.length + (trace (step cfg fromStr) (taken cfg c) u bs).length) ∧
        (notices ls = [] ∨ ∃ ms n, ls = ms ++ [.notice n] ∧ notices ms = []) ∧
        ∀ ds es m km, bs = ds ++ es → run (step cfg fromStr) u ds = some m →
          m.conns[c]? = some km → km.subscribedPrefixes <+: k.subscribedPrefixes := by
  have hun : Unsubscribed c s :=
    run_invariant (fun _ _ _ hu h => unsubscribed_step hu h) hr (fun k hk => by cases hk)
  refine ⟨fun k hk hrx => ⟨(hun k hk hrx).1, (hun k hk hrx).2.1⟩, ?_⟩
  intro a u bs t k₀ k₁ ha hk₀ hnone hk₁ hsome hb hcalm ht
  obtain ⟨hw, hne, hsub⟩ := streams_subscribe ha hk₀ hnone hk₁ hsome
  obtain ⟨hev, hno, _⟩ := hun k₀ hk₀ hnone
  obtain ⟨k, hk⟩ := streams_run hne hsub hb hcalm ht
  rw [List.nil_append] at hk
  obtain ⟨hend, ls, hls, hle, hln⟩ := hk.phase.lines
  refine ⟨hw ▸ hev, hw ▸ hno, k, ls, hk.conn, hls, hend, hle, hk.taken, hk.position, hln, ?_⟩
  rintro ds es m km rfl hds hkm
  obtain ⟨hcalm₁, hcalm₂⟩ := along_append.mp hcalm
  obtain ⟨m', hm', hes⟩ := (run_append_eq_some _).mp ht
  obtain rfl : m = m' := Option.some.inj (hds.symm.trans hm')
  obtain ⟨km', hmid⟩ := streams_run hne hsub (fun b hb' => hb b (by simp [hb'])) hcalm₁ hds
  obtain rfl : km = km' := Option.some.inj (hkm.symm.trans hmid.conn)
  have hne' : km.subscribedPrefixes ≠ [] := fun hnil => hne (by
    have hpre := hmid.prefixes
    rwa [hnil, List.prefix_nil] at hpre)
  -- the stream from there on, with the prefixes it had there
  have hmid' : Streams k₁.written km.subscribedPrefixes u.log.length c m _ km :=
    ⟨hmid.conn, hmid.position, List.prefix_refl _, hmid.sent, hmid.taken, hmid.phase⟩
  obtain ⟨k', hk'⟩ := streams_run hne' hmid' (fun b hb' => hb b (by simp [hb']))
    (hcalm₂ m hds) hes
  obtain rfl : k = k' := Option.some.inj (hk.conn.symm.trans hk'.conn)
  exact hk'.prefixes

theorem calm_of_room {c : Nat} {as : List Action} (hr : run (step cfg fromStr) s as = some t)
    (hroom : t.log.length ≤ cfg.broadcastCapacity.nextPowerOfTwo)
    (hno : ∀ a ∈ as, (∀ now, a ≠ .proceed c now false) ∧ a ≠ .abort c) :
    Along (step cfg fromStr) (Calm cfg c) s as := by
  induction as generalizing s with
  | nil => trivial
  | cons a as ih =>
    intro u hu
    obtain ⟨u', hu', hrest⟩ := (run_cons_eq_some _).mp hr
    obtain rfl : u = u' := Option.some.inj (hu.symm.trans hu')
    have hlen : s.log.length ≤ t.log.length := (run_log hr).length_le
    have hhead := hno a List.mem_cons_self
    refine ⟨⟨fun _ k rx _ _ => by omega, fun now he => absurd he (hhead.1 now),
      fun he => absurd he hhead.2⟩, ih hrest (fun b hb => hno b (List.mem_cons_of_mem _ hb))⟩

def subscribeLine : String := "\x7b\"op\":\"subscribe\",\"prefix\":\"a.\"\x7d"

def publishLine (topic : String) : String :=
  "\x7b\"op\":\"publish\",\"topic\":\"" ++ topic ++ "\",\"data\":null\x7d"

theorem subscriber_stream_drain :
    ∃ t k, run (step ⟨60, 1024, 3000, false, "carbon"⟩ (decodeFrom
        [(announceLine "s1", .announce "s1" 7 "/" "" none),
          (announceLine "s2", .announce "s2" 7 "/" "" none), (subscribeLine, .subscribe "a."),
          (publishLine "z", .publish "z" .null), (publishLine "a.b", .publish "a.b" .null)]))
        (start .default [] 0)
        ([.connect, .connect, .line 0 (announceLine "s1") 1, .proceed 0 1 true,
          .line 1 (announceLine "s2") 1, .proceed 1 1 true] ++ .line 0 subscribeLine 2 ::
          [.line 1 (publishLine "z") 2, .proceed 0 2 true, .proceed 1 2 true, .proceed 1 2 true,
            .event 0, .line 1 (publishLine "a.b") 3, .event 0, .proceed 0 3 true, .shutdown,
            .drain 0, .proceed 0 4 true, .proceed 0 4 true]) = some t ∧
      t.conns[0]? = some k ∧ (events k.written).map ServerEvent.topic = ["a.b"] ∧
      k.bcastRx = some 2 := by
  let cfg : Config := ⟨60, 1024, 3000, false, "carbon"⟩
  let fromStr := decodeFrom [(announceLine "s1", .announce "s1" 7 "/" "" none),
    (announceLine "s2", .announce "s2" 7 "/" "" none), (subscribeLine, .subscribe "a."),
    (publishLine "z", .publish "z" .null), (publishLine "a.b", .publish "a.b" .null)]
  let as : List Action := [.connect, .connect, .line 0 (announceLine "s1") 1, .proceed 0 1 true,
    .line 1 (announceLine "s2") 1, .proceed 1 1 true]
  let bs : List Action := [.line 1 (publishLine "z") 2, .proceed 0 2 true, .proceed 1 2 true,
    .proceed 1 2 true, .event 0, .line 1 (publishLine "a.b") 3, .event 0, .proceed 0 3 true,
    .shutdown, .drain 0, .proceed 0 4 true, .proceed 0 4 true]
  have hs : (run (step cfg fromStr) (start .default [] 0) as).map (fun s =>
      s.conns[0]?.map (fun k => (k.bcastRx, k.written.length))) =
      some (some (none, 1)) := by decide
  have hu : (run (step cfg fromStr) (start .default [] 0) as).bind (fun s =>
      (step cfg fromStr s (.line 0 subscribeLine 2)).map (fun u =>
        (u.conns[0]?.map Conn.bcastRx, u.log.length))) = some (some (some 0), 0) := by decide
  have ht : ((run (step cfg fromStr) (start .default [] 0) as).bind (fun s =>
      step cfg fromStr s (.line 0 subscribeLine 2))).bind (fun u =>
        (run (step cfg fromStr) u bs).map (fun t =>
          (t.log.length, t.conns[0]?.map Conn.status,
            (trace (step cfg fromStr) (taken cfg 0) u bs).length,
            (delivered (trace (step cfg fromStr) (taken cfg 0) u bs)).map ServerEvent.topic))) =
      some (2, some .returned, 2, ["a.b"]) := by decide +kernel
  obtain ⟨s, hs, hs'⟩ := Option.map_eq_some_iff.mp hs
  rw [hs] at hu ht
  obtain ⟨u, hu, hu'⟩ := Option.map_eq_some_iff.mp hu
  rw [Option.bind_some, hu] at ht
  obtain ⟨t, ht, hq⟩ := Option.map_eq_some_iff.mp ht
  obtain ⟨k₀, hk₀, hs'⟩ := Option.map_eq_some_iff.mp hs'
  simp only [Prod.mk.injEq] at hs' hu' hq
  obtain ⟨k₁, hk₁, hrx₁⟩ := Option.map_eq_some_iff.mp hu'.1
  have hcalm : Along (step cfg fromStr) (Calm cfg 0) u bs := by
    refine calm_of_room ht ?_ (by simp [bs])
    rw [hq.1]
    decide +kernel
  obtain ⟨hev, _, k, ls, hk, hw, hend, hls, _, hpos, _⟩ :=
    (subscriber_stream cfg fromStr .default [] 0 as s 0 hs).2 _ u bs t k₀ k₁ hu hk₀ hs'.1 hk₁
      (by rw [hrx₁]; rfl) (by simp [bs]) hcalm ht
  refine ⟨t, k, ?_, hk, ?_, ?_⟩
  · exact (run_append_eq_some _).mpr ⟨s, hs, (run_cons_eq_some _).mpr ⟨u, hu, ht⟩⟩
  · rw [hk, Option.map_some, Option.some.injEq] at hq
    rw [hend (by rw [hq.2.1]; decide), List.append_nil] at hw
    rw [hw, events_append, hev, ← hq.2.2.2, ← hls]
    rfl
  · rw [hpos, hu'.2, hq.2.2.1]

end Agorabus.Subscriber
