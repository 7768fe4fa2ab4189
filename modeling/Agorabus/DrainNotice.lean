import Agorabus.Subscriber

namespace Agorabus.Subscriber

open Agorabus Daemon StepSystem

variable {cfg : Config} {fromStr : String → Option ClientMessage} {s t : Daemon} {a : Action}
  {lg : List BroadcastMsg} {c : Nat} {k k' : Conn}

def Unnoticed (k : Conn) : Prop :=
  notices k.written = [] ∧
    ∀ e ∈ k.pending, (∀ n, e ≠ .write (.notice n)) ∧ ∀ n, e ≠ .writeNotice n

def Leaving (k : Conn) : Prop :=
  (∃ n, k.pending = [.writeNotice n, .cleanup]) ∨ k.pending = [.cleanup] ∨
    (k.status ≠ .running ∧ k.pending = [])

/-- No message that the receiver has still to read matches a prefix of the connection. -/
def NothingLeft (lg : List BroadcastMsg) (k : Conn) : Prop :=
  ∀ rx, k.bcastRx = some rx → ∀ m ∈ lg.drop rx, topicMatches k.subscribedPrefixes m.topic = false

/-- The connection picks its drain branch only when none of the messages is left for it. -/
def DrainsLast (lg : List BroadcastMsg) (c : Nat) (s : Daemon) (a : Action) : Prop :=
  a = .drain c → ∀ k, s.conns[c]? = some k → NothingLeft lg k

instance decidableNothingLeft : Decidable (NothingLeft lg k) :=
  inferInstanceAs (Decidable (∀ rx ∈ k.bcastRx, ∀ m ∈ lg.drop rx,
    topicMatches k.subscribedPrefixes m.topic = false))

instance decidableDrainsLast : Decidable (DrainsLast lg c s a) := by
  cases a with
  | drain d =>
    exact decidable_of_iff (d = c → ∀ k ∈ s.conns[c]?, NothingLeft lg k)
      ⟨fun h he => h (Action.drain.inj he), fun h he => h (congrArg Action.drain he)⟩
  | _ => exact isTrue nofun

def Parting (lg : List BroadcastMsg) (k : Conn) : Prop :=
  Unnoticed k ∨ (Leaving k ∧ NothingLeft lg k)

theorem Leaving.not_idle (h : Leaving k) : k.idle ≠ true := by
  rw [Ne, Conn.idle_iff]
  rintro ⟨hr, hp⟩
  obtain ⟨n, h⟩ | h | h := h
  · rw [hp] at h
    cases h
  · rw [hp] at h
    cases h
  · exact h.1 hr

theorem unnoticed_plain (hw : notices k.written = []) (hp : Plain k.pending) : Unnoticed k :=
  ⟨hw, fun e he => (hp e he).2⟩

theorem parting_conn (hp : Parting lg k) (hd : a = .drain c → NothingLeft lg k)
    (h : ConnStep cfg fromStr s c k a k') : Parting lg k' := by
  have unnoticed (hi : k.idle = true) : notices k.written = [] :=
    (hp.resolve_right (fun hl => hl.1.not_idle hi)).1
  cases h with
  | other => exact hp
  | @line text now hi =>
    have hs := handleLine_stream cfg fromStr k c s.bus s.uplinkStatus s.log.length now
      (Conn.idle_iff.mp hi).2 text
    have hw := (handleLine_conn cfg fromStr k c s.bus s.uplinkStatus s.log.length now text).2.1
    refine Or.inl (unnoticed_plain ?_ hs.1)
    rw [hw]
    exact unnoticed hi
  | hangup hi => exact Or.inl ⟨unnoticed hi, by simp⟩
  | lag hi => exact Or.inl ⟨unnoticed hi, by simp [(Conn.idle_iff.mp hi).2]⟩
  | event hi =>
    refine Or.inl ⟨unnoticed hi, ?_⟩
    dsimp only
    split <;> simp
  | drain hi =>
    refine Or.inr ⟨?_, hd rfl⟩
    cases hrx : k.bcastRx with
    | none => exact Or.inr (Or.inl (by simp))
    | some rx => exact Or.inl ⟨_, rfl⟩
  | @proceed e es now ok hes hrun =>
    obtain ⟨hw, hn⟩ | ⟨hl, hleft⟩ := hp
    · refine Or.inl ?_
      rw [hes] at hn
      have htail : ∀ e ∈ es, (∀ n, e ≠ .write (.notice n)) ∧ ∀ n, e ≠ .writeNotice n :=
        fun e he => hn e (List.mem_cons_of_mem _ he)
      have hhead := hn e List.mem_cons_self
      cases e with
      | write l =>
        cases ok with
        | false => exact ⟨hw, by simp [Conn.performed]⟩
        | true =>
          refine ⟨?_, htail⟩
          cases l with
          | notice n => exact absurd rfl (hhead.1 n)
          | _ =>
            simp only [Conn.performed, if_true, notices_append, hw]
            rfl
      | writeNotice n => exact absurd rfl (hhead.2 n)
      | bail => exact ⟨hw, by simp [Conn.performed]⟩
      | _ => exact ⟨hw, htail⟩
    · refine Or.inr ?_
      obtain ⟨n, hl⟩ | hl | hl := hl
      · rw [hes] at hl
        cases hl
        cases ok <;> exact ⟨Or.inr (Or.inl rfl), hleft⟩
      · rw [hes] at hl
        cases hl
        exact ⟨Or.inr (Or.inr ⟨(fun h => by cases h), rfl⟩), hleft⟩
      · exact absurd hrun hl.1
  | abort hr hw =>
    obtain ⟨hw, _⟩ | ⟨_, hleft⟩ := hp
    · exact Or.inl ⟨hw, by simp⟩
    · exact Or.inr ⟨Or.inr (Or.inr ⟨(fun h => by cases h), rfl⟩), hleft⟩

theorem parting_run (hk : s.conns[c]? = some k) (hp : Parting lg k) {as : List Action}
    (hb : ∀ a ∈ as, ∀ now, a ≠ .boot now)
    (hd : Along (step cfg fromStr) (DrainsLast lg c) s as)
    (hr : run (step cfg fromStr) s as = some t) : ∃ k', t.conns[c]? = some k' ∧ Parting lg k' := by
  refine run_along_invariant (I := fun s : Daemon => ∃ k, s.conns[c]? = some k ∧ Parting lg k)
    (P := fun s a => (∀ now, a ≠ .boot now) ∧ DrainsLast lg c s a) ?_
    (along_and.mpr ⟨along_of_forall s hb, hd⟩) hr ⟨k, hk, hp⟩
  rintro s a t ⟨k, hk, hp⟩ ⟨hb, hd⟩ h
  obtain ⟨k', hk', hs⟩ := step_conn h hb hk
  exact ⟨k', hk', parting_conn hp (fun ha => hd ha k hk) hs⟩

/-- The messages a subscriber takes find at least the prefixes it started with. -/
theorem taken_run {w : List OutLine} {ps : List String} {start : Nat} (hne : ps ≠ [])
    {ts : List (BroadcastMsg × List String)} (hs : Streams w ps start c s ts k)
    {as : List Action} (hb : ∀ a ∈ as, ∀ now, a ≠ .boot now)
    (hcalm : Along (step cfg fromStr) (Calm cfg c) s as)
    (hr : run (step cfg fromStr) s as = some t) :
    ∀ x ∈ trace (step cfg fromStr) (taken cfg c) s as, ps <+: x.2 := by
  intro x hx
  obtain ⟨bs, a, cs, u, v, rfl, hu, _, hx⟩ := mem_trace hx
  obtain ⟨ku, hku⟩ := streams_run hne hs (fun b hb' => hb b (List.mem_append_left _ hb'))
    (along_append.mp hcalm).1 hu
  have hpre := hku.prefixes
  cases a with
  | event d =>
    rw [taken] at hx
    split at hx
    · rename_i hd
      subst hd
      simp only [hku.conn, hku.position, Option.bind_eq_bind, Option.bind_some] at hx
      split at hx
      · cases hx
      · rw [Option.mem_toList, Option.map_eq_some_iff] at hx
        obtain ⟨m, _, rfl⟩ := hx
        exact hpre
    · cases hx
  | _ => cases hx

theorem sublist_delivered {ps : List String} (hne : ps ≠ [])
    {ts : List (BroadcastMsg × List String)} (hps : ∀ x ∈ ts, ps <+: x.2)
    {ms : List BroadcastMsg} (h : ms.Sublist (ts.map Prod.fst)) :
    ((ms.filter (fun m => topicMatches ps m.topic)).map BroadcastMsg.toEvent).Sublist
      (delivered ts) := by
  have hmatch : ∀ x ∈ ts, topicMatches ps x.1.topic = true →
      ∃ p ∈ x.2, p.toList <+: x.1.topic.toList := by
    intro x hx hm
    obtain ⟨p, hp, hpre⟩ := (topicMatches_iff hne _).mp hm
    exact ⟨p, (hps x hx).subset hp, hpre⟩
  have hfilter : ts.filter (fun x => topicMatches ps x.1.topic) =
      (ts.filter (fun x => decide (∃ p ∈ x.2, p.toList <+: x.1.topic.toList))).filter
        (fun x => topicMatches ps x.1.topic) := by
    rw [List.filter_filter]
    refine List.filter_congr (fun x hx => ?_)
    cases hm : topicMatches ps x.1.topic with
    | false => rfl
    | true => simpa using hmatch x hx hm
  have hfst : (fun m : BroadcastMsg => topicMatches ps m.topic) ∘ Prod.fst =
      fun x : BroadcastMsg × List String => topicMatches ps x.1.topic := rfl
  have hevent : BroadcastMsg.toEvent ∘ Prod.fst =
      fun x : BroadcastMsg × List String => x.1.toEvent := rfl
  have hsub := (h.filter (fun m => topicMatches ps m.topic)).map BroadcastMsg.toEvent
  rw [List.filter_map, hfst, hfilter, List.map_map, hevent] at hsub
  rw [delivered]
  exact hsub.trans (List.Sublist.map _ List.filter_sublist)

theorem notice_last {ls rest l : List OutLine} {n n' : DrainNotice}
    (h : ls ++ .notice n :: rest = l ++ [.notice n']) (hl : notices l = []) : ls = l := by
  induction rest using List.reverseRecOn with
  | nil => exact (List.append_inj' h rfl).1
  | append_singleton rest x _ =>
    rw [← List.cons_append, ← List.append_assoc] at h
    obtain ⟨rfl, _⟩ := List.append_inj' h rfl
    rw [notices_append] at hl
    simp [notices] at hl

theorem sublist_taken {α : Type} {L T taken taken' : List α} {start n : Nat} (hL : L <+: T)
    (h : taken ++ taken' <+: T.drop start) (hn : start + taken.length ≤ n) :
    ((L.drop n).take (start + (taken ++ taken').length - n)).Sublist taken' := by
  have htake : taken ++ taken' = (T.drop start).take (taken ++ taken').length :=
    (List.prefix_iff_eq_take.mp h)
  have htaken : taken' = (T.drop (start + taken.length)).take taken'.length := by
    have hdrop := congrArg (List.drop taken.length) htake
    rw [List.drop_left, List.drop_take, List.drop_drop, List.length_append,
      Nat.add_sub_cancel_left] at hdrop
    exact hdrop
  have hpre : (L.drop n).take (start + (taken ++ taken').length - n) <+:
      (T.drop n).take (start + (taken ++ taken').length - n) := (hL.drop n).take _
  refine hpre.sublist.trans ?_
  have hlast : (T.drop n).take (start + (taken ++ taken').length - n) =
      taken'.drop (n - (start + taken.length)) := by
    conv_rhs => rw [htaken]
    rw [List.drop_take, List.drop_drop, Nat.add_sub_cancel' hn, List.length_append]
    congr 1
    omega
  rw [hlast]
  exact List.drop_sublist _ _

theorem filter_drop_take {α : Type} {p : α → Bool} {L : List α} {rx : Nat}
    (h : ∀ x ∈ L.drop rx, p x = false) (n : Nat) :
    (L.drop n).filter p = ((L.drop n).take (rx - n)).filter p := by
  conv_lhs => rw [← List.take_append_drop (rx - n) (L.drop n)]
  rw [List.filter_append, List.append_right_eq_self, List.filter_eq_nil_iff]
  intro x hx
  have hin : x ∈ L.drop rx := by
    rw [List.drop_drop] at hx
    exact List.drop_subset_drop_left L (by omega) hx
  simpa using h x hin

theorem Streams.rebase {w : List OutLine} {ps : List String} {start : Nat}
    {ts : List (BroadcastMsg × List String)} (hs : Streams w ps start c s ts k) :
    Streams w k.subscribedPrefixes start c s ts k :=
  ⟨hs.conn, hs.position, List.prefix_refl _, hs.sent, hs.taken, hs.phase⟩

theorem Streams.position_le {w : List OutLine} {ps : List String} {start : Nat}
    {ts : List (BroadcastMsg × List String)} (hs : Streams w ps start c s ts k) :
    start + (ts.map Prod.fst).length ≤ s.log.length := by
  have hlen := hs.taken.length_le
  rw [List.length_drop] at hlen
  have := hs.sent
  omega

theorem NothingLeft.mono {ps : List String} (h : NothingLeft lg k) (hne : ps ≠ [])
    (hps : ps <+: k.subscribedPrefixes) {rx : Nat} (hrx : k.bcastRx = some rx) :
    ∀ m ∈ lg.drop rx, topicMatches ps m.topic = false := by
  intro m hm
  have hnot := h rx hrx m hm
  rw [Bool.eq_false_iff] at hnot ⊢
  intro hmatch
  obtain ⟨p, hp, hpre⟩ := (topicMatches_iff hne _).mp hmatch
  have hne' : k.subscribedPrefixes ≠ [] := List.ne_nil_of_mem (hps.subset hp)
  exact hnot ((topicMatches_iff hne' _).mpr ⟨p, hps.subset hp, hpre⟩)

theorem events_before_notice {w : List OutLine} {ps : List String} {start : Nat}
    {ts : List (BroadcastMsg × List String)} (hs : Streams w ps start c s ts k)
    {ls rest : List OutLine} {n : DrainNotice} (hw : k.written = w ++ ls ++ .notice n :: rest) :
    events ls = delivered ts := by
  obtain ⟨_, ls', hls', he, hno⟩ := hs.phase.lines
  have hlines : ls ++ .notice n :: (rest ++ unwritten k.pending) = .reply .okEmpty :: ls' := by
    rw [hw, List.append_assoc, List.append_assoc] at hls'
    exact List.append_cancel_left hls'
  obtain hno | ⟨ms, n', rfl, hms⟩ := hno
  · have hnot := congrArg notices hlines
    rw [notices_append] at hnot
    change notices ls ++ n :: _ = notices ls' at hnot
    simp [hno] at hnot
  · have hlast : ls = .reply .okEmpty :: ms := notice_last hlines hms
    rw [hlast, ← he, events_append]
    exact (List.append_nil _).symm

theorem left_nothing {log : List BroadcastMsg} {file : DurableState} {now : Nat}
    {as bs : List Action} {u : Daemon} {k₀ : Conn}
    (hr : run (step cfg fromStr) (start file log now) as = some s)
    (ha : step cfg fromStr s a = some u) (hk₀ : s.conns[c]? = some k₀) (hnone : k₀.bcastRx = none)
    (hk₁ : u.conns[c]? = some k') (hb : ∀ b ∈ bs, ∀ now, b ≠ .boot now)
    (hd : Along (step cfg fromStr) (DrainsLast lg c) u bs)
    (ht : run (step cfg fromStr) u bs = some t) (hk : t.conns[c]? = some k)
    (hn : notices k.written ≠ []) : NothingLeft lg k := by
  have hun : Unsubscribed c s :=
    run_invariant (fun _ _ _ hu h => unsubscribed_step hu h) hr (fun k hk => by cases hk)
  obtain ⟨_, hno, hplain⟩ := hun k₀ hk₀ hnone
  have hboot : ∀ now, a ≠ .boot now := by
    rintro now rfl
    obtain ⟨_, _, rfl⟩ := step_boot.mp ha
    cases hk₁
  obtain ⟨k₁, hk₁', hstep⟩ := step_conn ha hboot hk₀
  obtain rfl : k' = k₁ := Option.some.inj (hk₁.symm.trans hk₁')
  have hpart : Parting lg k' := by
    refine parting_conn (Or.inl (unnoticed_plain hno hplain)) (fun _ rx hrx => ?_) hstep
    rw [hnone] at hrx
    cases hrx
  obtain ⟨kt, hkt, hpart⟩ := parting_run hk₁ hpart hb hd ht
  obtain rfl : k = kt := Option.some.inj (hk.symm.trans hkt)
  exact (hpart.resolve_left (fun hu => hn hu.1)).2

/-- A subscriber that picks the drain branch only when nothing from before the shutdown is left
for it has written all of it before the notice: whatever matches the prefixes it has at some
point and comes after that point and before the shutdown. -/
theorem written_before_notice (cfg : Config) (fromStr : String → Option ClientMessage)
    (file : DurableState) (log : List BroadcastMsg) (now : Nat) (as : List Action) (s : Daemon)
    (c : Nat) (hr : run (step cfg fromStr) (start file log now) as = some s)
    (a : Action) (u : Daemon) (k₀ k₁ : Conn) (ha : step cfg fromStr s a = some u)
    (hk₀ : s.conns[c]? = some k₀) (hnone : k₀.bcastRx = none) (hk₁ : u.conns[c]? = some k₁)
    (hsome : k₁.bcastRx.isSome) (ds es : List Action) (v t : Daemon)
    (hb : ∀ b ∈ ds ++ .shutdown :: es, ∀ now, b ≠ .boot now)
    (hcalm : Along (step cfg fromStr) (Calm cfg c) u (ds ++ .shutdown :: es))
    (hv : run (step cfg fromStr) u ds = some v)
    (ht : run (step cfg fromStr) v (.shutdown :: es) = some t)
    (hd : Along (step cfg fromStr) (DrainsLast v.log c) u (ds ++ .shutdown :: es))
    (k : Conn) (ls rest : List OutLine) (n : DrainNotice) (hk : t.conns[c]? = some k)
    (hw : k.written = k₁.written ++ ls ++ .notice n :: rest) (ds₁ ds₂ : List Action) (m : Daemon)
    (km : Conn) (hds : ds = ds₁ ++ ds₂) (hm : run (step cfg fromStr) u ds₁ = some m)
    (hkm : m.conns[c]? = some km) :
    (((v.log.drop m.log.length).filter
      (fun x => topicMatches km.subscribedPrefixes x.topic)).map BroadcastMsg.toEvent).Sublist
        (events ls) := by
  subst hds
  have hrun : run (step cfg fromStr) u (ds₁ ++ ds₂ ++ .shutdown :: es) = some t :=
    (run_append_eq_some _).mpr ⟨v, hv, ht⟩
  obtain ⟨_, hne, hsub⟩ := streams_subscribe ha hk₀ hnone hk₁ hsome
  have hleft : NothingLeft v.log k := by
    refine left_nothing hr ha hk₀ hnone hk₁ hb hd hrun hk ?_
    rw [hw, notices_append]
    simp [notices]
  -- the stream from the point on, with the prefixes the connection has there
  rw [List.append_assoc] at hb hcalm hrun
  obtain ⟨hcalm₁, hcalm₂⟩ := along_append.mp hcalm
  obtain ⟨km', hmid⟩ := streams_run hne hsub (fun b hb' => hb b (List.mem_append_left _ hb'))
    hcalm₁ hm
  obtain rfl : km = km' := Option.some.inj (hkm.symm.trans hmid.conn)
  have hne' : km.subscribedPrefixes ≠ [] := fun hnil => hne (by
    have hpre := hmid.prefixes
    rwa [hnil, List.prefix_nil] at hpre)
  rw [List.nil_append] at hmid
  generalize trace (step cfg fromStr) (taken cfg c) u ds₁ = ts₁ at hmid
  have hrest : run (step cfg fromStr) m (ds₂ ++ .shutdown :: es) = some t := by
    obtain ⟨m', hm', hrest⟩ := (run_append_eq_some _).mp hrun
    obtain rfl : m = m' := Option.some.inj (hm.symm.trans hm')
    exact hrest
  have hb₂ : ∀ b ∈ ds₂ ++ .shutdown :: es, ∀ now, b ≠ .boot now :=
    fun b hb' => hb b (List.mem_append_right _ hb')
  have hprefixes := taken_run hne' hmid.rebase hb₂ (hcalm₂ m hm) hrest
  obtain ⟨kt, hend⟩ := streams_run hne' hmid.rebase hb₂ (hcalm₂ m hm) hrest
  obtain rfl : k = kt := Option.some.inj (hk.symm.trans hend.conn)
  generalize trace (step cfg fromStr) (taken cfg c) m (ds₂ ++ .shutdown :: es) = ts₂
    at hprefixes hend
  have hlog : v.log <+: t.log := run_log ht
  have htaken := hend.taken
  rw [List.map_append] at htaken
  have hsub₂ := sublist_taken hlog htaken hmid.position_le
  have hrx : k.bcastRx = some (u.log.length +
      (ts₁.map Prod.fst ++ ts₂.map Prod.fst).length) := by
    rw [hend.position, ← List.map_append, List.length_map]
  generalize u.log.length + (ts₁.map Prod.fst ++ ts₂.map Prod.fst).length = rx at hsub₂ hrx
  have hnot := hleft.mono hne' hend.prefixes hrx
  rw [filter_drop_take hnot, events_before_notice hend hw, delivered_append]
  exact (sublist_delivered hne' hprefixes hsub₂).trans (List.sublist_append_right _ _)

def drainLines : String → Option ClientMessage :=
  decodeFrom [(announceLine "s1", .announce "s1" 7 "/" "" none),
    (announceLine "s2", .announce "s2" 7 "/" "" none), (subscribeLine, .subscribe "a."),
    (publishLine "a.b", .publish "a.b" .null)]

def drainStep : Daemon → Action → Option Daemon :=
  step ⟨60, 1024, 3000, false, "carbon"⟩ drainLines

def beforeSubscribe : List Action :=
  [.connect, .connect, .line 0 (announceLine "s1") 1, .proceed 0 1 true,
    .line 1 (announceLine "s2") 1, .proceed 1 1 true]

def announcedBoth : Option Daemon := run drainStep (start .default [] 0) beforeSubscribe

def subscribed : Option Daemon :=
  announcedBoth.bind (fun s => drainStep s (.line 0 subscribeLine 2))

theorem subscribed_conn : ∃ s u k₀ k₁, announcedBoth = some s ∧
    drainStep s (.line 0 subscribeLine 2) = some u ∧ subscribed = some u ∧
    s.conns[0]? = some k₀ ∧ k₀.bcastRx = none ∧ u.conns[0]? = some k₁ ∧
    k₁.bcastRx = some 0 ∧ k₁.subscribedPrefixes = ["a."] ∧
    k₁.written = [.reply .okEmpty] ∧ u.log.length = 0 := by
  obtain ⟨hs, hu, hw⟩ :
      announcedBoth.map (fun s => s.conns[0]?.map Conn.bcastRx) = some (some none) ∧
      subscribed.map (fun u => (u.conns[0]?.map (fun k => (k.bcastRx, k.subscribedPrefixes)),
        u.log.length)) = some (some (some 0, ["a."]), 0) ∧
      subscribed.map (fun u => u.conns[0]?.map Conn.written) =
        some (some [.reply .okEmpty]) := by decide +kernel
  obtain ⟨s, hs, hs'⟩ := Option.map_eq_some_iff.mp hs
  obtain ⟨u, hu, hu'⟩ := Option.map_eq_some_iff.mp hu
  have hstep : drainStep s (.line 0 subscribeLine 2) = some u := by
    have := hu
    rw [subscribed, hs] at this
    exact this
  simp only [Prod.mk.injEq] at hu'
  obtain ⟨k₀, hk₀, hrx₀⟩ := Option.map_eq_some_iff.mp hs'
  obtain ⟨k₁, hk₁, hrx₁⟩ := Option.map_eq_some_iff.mp hu'.1
  simp only [Prod.mk.injEq] at hrx₁
  rw [hu, Option.map_some, hk₁, Option.map_some, Option.some.injEq, Option.some.injEq] at hw
  exact ⟨s, u, k₀, k₁, hs, hstep, hu, hk₀, hrx₀, hk₁, hrx₁.1, hrx₁.2, hw, hu'.2⟩

theorem written_before_notice_event :
    ∃ u v t k ls, subscribed = some u ∧ run drainStep u
        [.proceed 0 2 true, .line 1 (publishLine "a.b") 3, .event 0, .proceed 0 3 true] = some v ∧
      run drainStep v (.shutdown :: [.drain 0, .proceed 0 4 true]) = some t ∧
      t.conns[0]? = some k ∧ k.written = .reply .okEmpty :: ls ++ [.notice (.new 3000)] ∧
      v.log.map BroadcastMsg.topic = ["a.b"] ∧
      (((v.log.drop u.log.length).filter (fun x => topicMatches ["a."] x.topic)).map
        BroadcastMsg.toEvent).Sublist (events ls) := by
  let ds : List Action := [.proceed 0 2 true, .line 1 (publishLine "a.b") 3, .event 0,
    .proceed 0 3 true]
  let es : List Action := [.drain 0, .proceed 0 4 true]
  obtain ⟨hv, hd, ht⟩ : (subscribed.bind (fun u => run drainStep u ds)).map
        (fun v => v.log.map BroadcastMsg.topic) = some ["a.b"] ∧
      (subscribed.bind (fun u => (run drainStep u ds).map (fun v =>
        decide (Along drainStep (DrainsLast v.log 0) u (ds ++ .shutdown :: es))))) = some true ∧
      ((subscribed.bind (fun u => run drainStep u ds)).bind
        (fun v => run drainStep v (.shutdown :: es))).map
        (fun t => (t.conns[0]?.map Conn.written, t.log.length)) =
        some (some [.reply .okEmpty, .reply .okEmpty, .event ⟨"a.b", .null, "s2"⟩,
          .notice (.new 3000)], 1) := by decide +kernel
  obtain ⟨s, u, k₀, k₁, hs, hstep, hu, hk₀, hrx₀, hk₁, hrx₁, hps, hw, hlen⟩ := subscribed_conn
  rw [hu, Option.bind_some] at hv hd ht
  obtain ⟨v, hv, hv'⟩ := Option.map_eq_some_iff.mp hv
  rw [hv, Option.map_some, Option.some.injEq, decide_eq_true_eq] at hd
  rw [hv, Option.bind_some] at ht
  obtain ⟨t, ht, ht'⟩ := Option.map_eq_some_iff.mp ht
  simp only [Prod.mk.injEq] at ht'
  obtain ⟨k, hk, hkw⟩ := Option.map_eq_some_iff.mp ht'.1
  have hcalm : Along drainStep (Calm ⟨60, 1024, 3000, false, "carbon"⟩ 0) u
      (ds ++ .shutdown :: es) := by
    refine calm_of_room ((run_append_eq_some _).mpr ⟨v, hv, ht⟩) ?_ (by simp [ds, es])
    rw [ht'.2]
    decide +kernel
  refine ⟨u, v, t, k, [.reply .okEmpty, .event ⟨"a.b", .null, "s2"⟩], hu, hv, ht, hk, hkw, hv', ?_⟩
  rw [← hps]
  exact written_before_notice _ drainLines .default [] 0 beforeSubscribe s 0 hs _ u k₀ k₁ hstep hk₀
    hrx₀ hk₁ (by rw [hrx₁]; rfl) ds es v t (by simp [ds, es]) hcalm hv ht hd k _ [] (.new 3000) hk
    (by rw [hkw, hw]; rfl) [] ds u k₁ rfl rfl hk₁

/-- A message is on the channel when the daemon shuts down; the subscriber picks the drain branch
and never writes it. -/
theorem notice_overtakes_message :
    ¬ ∀ (cfg : Config) (fromStr : String → Option ClientMessage) (file : DurableState)
      (log : List BroadcastMsg) (now : Nat) (as : List Action) (s : Daemon) (c : Nat) (a : Action)
      (u : Daemon) (k₀ k₁ : Conn) (ds es : List Action) (v t : Daemon) (k : Conn)
      (ls rest : List OutLine) (n : DrainNotice),
      run (step cfg fromStr) (start file log now) as = some s → step cfg fromStr s a = some u →
      s.conns[c]? = some k₀ → k₀.bcastRx = none → u.conns[c]? = some k₁ → k₁.bcastRx.isSome →
      (∀ b ∈ ds ++ .shutdown :: es, ∀ now, b ≠ .boot now) →
      Along (step cfg fromStr) (Calm cfg c) u (ds ++ .shutdown :: es) →
      run (step cfg fromStr) u ds = some v →
      run (step cfg fromStr) v (.shutdown :: es) = some t → t.conns[c]? = some k →
      k.written = k₁.written ++ ls ++ .notice n :: rest →
      (((v.log.drop u.log.length).filter
        (fun x => topicMatches k₁.subscribedPrefixes x.topic)).map BroadcastMsg.toEvent).Sublist
          (events ls) := by
  intro h
  let ds : List Action := [.proceed 0 2 true, .line 1 (publishLine "a.b") 3]
  let es : List Action := [.drain 0, .proceed 0 4 true]
  obtain ⟨hv, ht⟩ : (subscribed.bind (fun u => run drainStep u ds)).map
        (fun v => v.log.map BroadcastMsg.topic) = some ["a.b"] ∧
      ((subscribed.bind (fun u => run drainStep u ds)).bind
        (fun v => run drainStep v (.shutdown :: es))).map
        (fun t => (t.conns[0]?.map Conn.written, t.log.length)) =
        some (some [.reply .okEmpty, .reply .okEmpty, .notice (.new 3000)], 1) := by
    decide +kernel
  obtain ⟨s, u, k₀, k₁, hs, hstep, hu, hk₀, hrx₀, hk₁, hrx₁, hps, hw, hlen⟩ := subscribed_conn
  rw [hu, Option.bind_some] at hv ht
  obtain ⟨v, hv, hv'⟩ := Option.map_eq_some_iff.mp hv
  rw [hv, Option.bind_some] at ht
  obtain ⟨t, ht, ht'⟩ := Option.map_eq_some_iff.mp ht
  simp only [Prod.mk.injEq] at ht'
  obtain ⟨k, hk, hkw⟩ := Option.map_eq_some_iff.mp ht'.1
  have hcalm : Along drainStep (Calm ⟨60, 1024, 3000, false, "carbon"⟩ 0) u
      (ds ++ .shutdown :: es) := by
    refine calm_of_room ((run_append_eq_some _).mpr ⟨v, hv, ht⟩) ?_ (by simp [ds, es])
    rw [ht'.2]
    decide +kernel
  have hsub := h _ drainLines .default [] 0 beforeSubscribe s 0 (.line 0 subscribeLine 2) u k₀ k₁ ds
    es v t k [.reply .okEmpty] [] (.new 3000) hs hstep hk₀ hrx₀ hk₁ (by rw [hrx₁]; rfl)
    (by simp [ds, es]) hcalm hv ht hk (by rw [hkw, hw]; rfl)
  rw [hlen, hps, List.drop_zero] at hsub
  have hmatch : ∀ m ∈ v.log, topicMatches ["a."] m.topic = true := by
    intro m hm
    have htopic : m.topic ∈ ["a.b"] := hv' ▸ List.mem_map_of_mem hm
    rw [List.mem_singleton.mp htopic]
    decide
  rw [List.filter_eq_self.mpr hmatch] at hsub
  have hcount := hsub.length_le
  have hone := congrArg List.length hv'
  simp only [List.length_map, List.length_singleton] at hcount hone
  rw [hone] at hcount
  exact absurd hcount (by decide)

end Agorabus.Subscriber
