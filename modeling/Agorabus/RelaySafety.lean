import Agorabus.Relay
import Agorabus.WireDaemon

namespace Agorabus.Relay

open Agorabus Daemon StepSystem
open Json (present asStr? FloatFree SkimsAs)

namespace Envelope

def fields (env : Envelope) : List (String × Option Json) :=
  [("origin_node", some (.string env.originNode)), ("data", some env.data)]

def toJson (env : Envelope) : Json := .object (present env.fields)

def fromJson (v : Json) : Option Envelope := do
  let [originNode, data] ← v.fieldsOf ["origin_node", "data"] | none
  return ⟨← (← originNode).asStr?, (← data).canonical⟩

def fromStr (text : String) : Option Envelope := (Json.parse text).bind fromJson

theorem writes_toJson {env : Envelope} (h : env.data.FitsUnder 1) :
    Json.Writes 127 env.toJson := by
  refine Json.writes_present (fun f hf => ?_)
  simp only [fields, List.mem_cons, List.not_mem_nil, or_false] at hf
  obtain rfl | rfl := hf
  · rintro v ⟨⟩
    exact Json.writes_string _ _
  · rintro v ⟨⟩
    exact ⟨h.inRange, by have hd := h.depth_lt; rw [Json.recursionLimit] at hd; omega⟩

theorem fromStr_text {env : Envelope} (h : env.data.FitsUnder 1) :
    fromStr env.toJson.text = some env := by
  have hfields := Json.fieldsOf_declared (show (env.fields.map Prod.fst).Nodup by simp [fields])
  simp only [fields, List.map_cons, List.map_nil] at hfields
  rw [fromStr, (writes_toJson h).parse_text (by decide), Option.bind_some]
  simp [fromJson, toJson, fields, hfields, h.ordered.canonical_eq, asStr?]

end Envelope

variable {ι B : Type} {wire : Wire B}

/-- What the relay is promised of the JSON library: envelopes are text, and a text without floats
is read as it is everywhere else. -/
def Wire.Textual (wire : Wire B) : Prop :=
  ∃ textBytes : String → List B, (∀ env, wire.toVec env = some (textBytes env.toJson.text)) ∧
    SkimsAs (fun text => wire.fromSlice (textBytes text)) Envelope.fromStr

theorem Wire.Textual.fromSlice_toVec (hw : wire.Textual) {env : Envelope}
    (h : env.data.FitsUnder 1) {bytes : List B} (hb : wire.toVec env = some bytes) :
    wire.fromSlice bytes = some env := by
  obtain ⟨textBytes, hto, hfrom⟩ := hw
  rw [hto] at hb
  cases hb
  have hwrites := Envelope.writes_toJson h
  have hparse := Option.isSome_of_eq_some (hwrites.parse_text (by decide))
  have hread := hfrom _ hwrites.inRange.floatFree_text hparse
  exact hread.trans (Envelope.fromStr_text h)

theorem outbound_read (hw : wire.Textual) {i : ι} {node : String} {m : BroadcastMsg}
    {p : Published ι B} (hm : m.data.FitsUnder 1) (h : outbound wire i node m = some p)
    (node' : String) : p.publisher = i ∧ m.fromUplink = false ∧
      accept wire node' p = if eqIgnoreAsciiCase node node' then none
        else some (m.topic, ⟨node, m.data⟩) := by
  unfold outbound at h
  split at h
  · cases h
  · rename_i hlocal
    obtain ⟨bytes, hto, h⟩ := Option.bind_eq_some_iff.mp h
    split at h
    · cases h
      refine ⟨rfl, by simpa using hlocal, ?_⟩
      simp only [accept, stripPrefix_append, Option.bind_some, hw.fromSlice_toVec hm hto]
    · cases h

/-- What a step of a daemon takes in from outside is of the declared types. What it takes in from
NATS is not an assumption: the other relays have written it. -/
def Move.InRange : Move ι → Prop
  | .daemon _ a => a.InRange
  | .relay _ | .inbound .. => True

def Move.FloatFree : Move ι → Prop
  | .daemon _ a => a.FloatFree
  | .relay _ | .inbound .. => True

def Move.Typed (fromStr : String → Option ClientMessage) : Move ι → Prop
  | .daemon _ a => a.Typed fromStr
  | .relay _ | .inbound .. => True

/-- The relays have published some of the messages of their nodes, each once and in order, and the
nodes have what NATS has delivered to them. -/
structure Trails (cfg : ι → Config) (wire : Wire B) (s : Fleet ι B) [DecidableEq ι] :
    Prop where
  fits : ∀ i, (s.daemons i).Fits
  tasks : ∀ i, LocalTasks (s.daemons i)
  position : ∀ i, s.localRx i ≤ (s.daemons i).log.length
  published : ∀ i, (s.nats.published.filter (fun p => p.publisher = i)).Sublist
    (((s.daemons i).log.take (s.localRx i)).filterMap (outbound wire i (cfg i).node))
  received : ∀ j, (s.daemons j).log.filter (fun m => m.fromUplink) =
    (s.nats.delivered j).filterMap (received wire (cfg j).node)

section Run

variable [DecidableEq ι] {cfg : ι → Config} {fromStr : String → Option ClientMessage}
  {s t : Fleet ι B}

theorem Trails.published_from (hs : Trails cfg wire s) {p : Published ι B}
    (hp : p ∈ s.nats.published) : ∃ m ∈ (s.daemons p.publisher).log,
      m.data.FitsUnder 1 ∧ outbound wire p.publisher (cfg p.publisher).node m = some p := by
  have hmem : p ∈ s.nats.published.filter (fun q => q.publisher = p.publisher) := by simp [hp]
  obtain ⟨m, hm, ho⟩ := List.mem_filterMap.mp ((hs.published p.publisher).subset hmem)
  have hlog := List.mem_of_mem_take hm
  exact ⟨m, hlog, (hs.fits p.publisher).log m hlog, ho⟩

theorem Trails.append (hs : Trails cfg wire s) {i : ι} {d : Daemon} {new : List BroadcastMsg}
    {nats : Fanout.Net ι (Published ι B)} (hd : d.log = (s.daemons i).log ++ new)
    (hf : d.Fits) (ht : LocalTasks d) (hp : nats.published = s.nats.published)
    (hne : ∀ j, j ≠ i → nats.delivered j = s.nats.delivered j)
    (hi : (nats.delivered i).filterMap (Relay.received wire (cfg i).node) =
      (s.nats.delivered i).filterMap (Relay.received wire (cfg i).node) ++
        new.filter (fun m => m.fromUplink)) :
    Trails cfg wire ⟨Function.update s.daemons i d, s.localRx, nats⟩ := by
  refine ⟨fun j => ?_, fun j => ?_, fun j => ?_, fun j => ?_, fun j => ?_⟩ <;> by_cases hj : j = i
  · subst hj
    simpa using hf
  · simpa [hj] using hs.fits j
  · subst hj
    simpa using ht
  · simpa [hj] using hs.tasks j
  · subst hj
    simp only [Function.update_self, hd, List.length_append]
    exact Nat.le_add_right_of_le (hs.position j)
  · simpa [hj] using hs.position j
  · subst hj
    simp only [Function.update_self, hd, hp]
    rw [List.take_append_of_le_length (hs.position j)]
    exact hs.published j
  · simpa [hj, hp] using hs.published j
  · subst hj
    simp only [Function.update_self, hd, List.filter_append, hi, hs.received j]
  · simpa [hj, hne j hj] using hs.received j

theorem Trails.advance (hs : Trails cfg wire s) {i : ι} {n : Nat} {o : Option (Published ι B)}
    {nats : Fanout.Net ι (Published ι B)} (hn : n ≤ (s.daemons i).log.length)
    (hp : nats.published = s.nats.published ++ o.toList) (hd : nats.delivered = s.nats.delivered)
    (ho : ∀ p ∈ o, p.publisher = i)
    (hsub : ((((s.daemons i).log.take (s.localRx i)).filterMap
      (outbound wire i (cfg i).node)) ++ o.toList).Sublist
        (((s.daemons i).log.take n).filterMap (outbound wire i (cfg i).node))) :
    Trails cfg wire ⟨s.daemons, Function.update s.localRx i n, nats⟩ := by
  refine ⟨hs.fits, hs.tasks, fun j => ?_, fun j => ?_, fun j => ?_⟩
  · by_cases hj : j = i
    · subst hj
      simpa using hn
    · simpa [hj] using hs.position j
  · dsimp only
    rw [hp, List.filter_append]
    by_cases hj : j = i
    · subst hj
      rw [Function.update_self]
      refine List.Sublist.trans ?_ hsub
      exact (hs.published j).append (List.filter_sublist)
    · have hnone : o.toList.filter (fun p => p.publisher = j) = [] := by
        refine List.filter_eq_nil_iff.mpr (fun p hmem => ?_)
        simp [ho p (Option.mem_toList.mp hmem), Ne.symm hj]
      rw [Function.update_of_ne hj, hnone, List.append_nil]
      exact hs.published j
  · dsimp only
    rw [hd]
    exact hs.received j

theorem Trails.step (hcfg : ∀ i, (cfg i).drainResumeHintMs < 2 ^ 64) (hw : wire.Textual)
    {mv : Move ι} (hmv : mv.InRange) (hty : mv.Typed fromStr) (hs : Trails cfg wire s)
    (h : s.step cfg fromStr wire mv = some t) : Trails cfg wire t := by
  cases mv with
  | daemon i a =>
    simp only [Fleet.step, Option.ite_none_right_eq_some, Option.map_eq_some_iff] at h
    obtain ⟨ha, d, hd, rfl⟩ := h
    refine hs.append (step_log hd) ((hs.fits i).step (hcfg i) hmv hty hd)
      (localTasks_step (hs.tasks i) hd) rfl (fun _ _ => rfl) ?_
    rw [List.filter_eq_nil_iff.mpr (fun m hm => by simp [sends_local (hs.tasks i) ha m hm]),
      List.append_nil]
  | relay i =>
    simp only [Fleet.step, Option.ite_none_right_eq_some] at h
    obtain ⟨_, h⟩ := h
    split at h
    · -- the messages in between are lost to the relay, and nothing is published for them
      rename_i hlag
      cases h
      rw [Fleet.Lagged] at hlag
      refine hs.advance (o := none) (Nat.sub_le _ _) (List.append_nil _).symm rfl
        (fun p hp => absurd hp.symm (Option.some_ne_none p)) ?_
      rw [Option.toList_none, List.append_nil]
      refine List.Sublist.filterMap _ ?_
      exact List.take_sublist_take_left (by omega)
    · obtain ⟨m, hm, rfl⟩ := Option.map_eq_some_iff.mp h
      obtain ⟨hlt, _⟩ := List.getElem?_eq_some_iff.mp hm
      have hpub : ∀ o : Option (Published ι B),
          (o.elim s.nats s.nats.publish).published = s.nats.published ++ o.toList ∧
            (o.elim s.nats s.nats.publish).delivered = s.nats.delivered := by
        rintro (_ | p)
        · exact ⟨(List.append_nil _).symm, rfl⟩
        · exact ⟨rfl, rfl⟩
      refine hs.advance hlt (hpub _).1 (hpub _).2 (fun p hp => (outbound_publisher hp).2) ?_
      rw [List.take_add_one, hm, Option.toList_some, List.filterMap_append]
      cases ho : outbound wire i (cfg i).node m <;> simp [ho]
  | inbound i k =>
    simp only [Fleet.step, Option.ite_none_right_eq_some, Option.bind_eq_some_iff] at h
    obtain ⟨_, ⟨p, nats⟩, hdel, h⟩ := h
    obtain ⟨hmem, hp, hd⟩ := Fanout.Net.deliver_eq_some hdel
    have hne : ∀ j, j ≠ i → nats.delivered j = s.nats.delivered j := by
      intro j hj
      rw [hd, Function.update_of_ne hj]
    have hi : (nats.delivered i).filterMap (Relay.received wire (cfg i).node) =
        (s.nats.delivered i).filterMap (Relay.received wire (cfg i).node) ++
          (Relay.received wire (cfg i).node p).toList := by
      rw [hd, Function.update_self, List.filterMap_append]
      congr 1
    dsimp only at h
    split at h
    · rename_i ha
      cases h
      have hr : Relay.received wire (cfg i).node p = none := by rw [Relay.received, ha]; rfl
      rw [hr] at hi
      have ht := hs.append (List.append_nil _).symm (hs.fits i) (hs.tasks i) hp hne hi
      rwa [Function.update_eq_self] at ht
    · rename_i topic env ha
      obtain ⟨d, hstep, rfl⟩ := Option.map_eq_some_iff.mp h
      have hr : Relay.received wire (cfg i).node p =
          some ⟨topic, env.data, "uplink:" ++ env.originNode, true⟩ := by
        rw [Relay.received, ha]
        rfl
      rw [hr] at hi
      have hdata : env.data.FitsUnder 1 := by
        obtain ⟨m, _, hm, ho⟩ := hs.published_from hmem
        rw [(outbound_read hw hm ho (cfg i).node).2.2] at ha
        split at ha
        · cases ha
        · cases ha
          exact hm
      have hin : Action.InRange (.uplinkInbound topic env.data env.originNode) := hdata
      exact hs.append (step_log hstep) ((hs.fits i).step (hcfg i) hin trivial hstep)
        (localTasks_step (hs.tasks i) hstep) hp hne hi

theorem trails_start {file : ι → DurableState}
    (hfile : ∀ i, Table.All ClaimRecord.Fits (file i).claims) (now : ι → Nat) :
    Trails cfg wire (.start file now) where
  fits := fun i => fits_start (now i) (hfile i) (List.forall_mem_nil _)
  tasks := fun i => localTasks_start (file i) [] (now i)
  position := fun _ => Nat.le_refl _
  published := fun _ => List.Sublist.refl _
  received := fun _ => rfl

theorem Trails.received_from (hs : Trails cfg wire s) (hw : wire.Textual) {p : Published ι B}
    (hp : p ∈ s.nats.published) {j : ι} {m : BroadcastMsg}
    (hm : Relay.received wire (cfg j).node p = some m) :
    eqIgnoreAsciiCase (cfg p.publisher).node (cfg j).node = false ∧
      ∃ m₀ ∈ (s.daemons p.publisher).log, m₀.fromUplink = false ∧
        m = remote (cfg p.publisher).node m₀ := by
  obtain ⟨m₀, hlog, hfits, ho⟩ := hs.published_from hp
  obtain ⟨_, hlocal, haccept⟩ := outbound_read hw hfits ho (cfg j).node
  rw [Relay.received, haccept] at hm
  split at hm
  · cases hm
  · rename_i hne
    cases hm
    exact ⟨by simpa using hne, m₀, hlog, hlocal, rfl⟩

theorem Trails.received_by (hs : Trails cfg wire s) (hw : wire.Textual)
    (hnames : ∀ i j, i ≠ j → eqIgnoreAsciiCase (cfg i).node (cfg j).node = false) (i j : ι)
    {ps : List (Published ι B)} (hps : ∀ p ∈ ps, p ∈ s.nats.published) :
    (ps.filterMap (Relay.received wire (cfg j).node)).filter
        (fun m => m.source = "uplink:" ++ (cfg i).node) =
      (ps.filter (fun p => p.publisher = i)).filterMap (Relay.received wire (cfg j).node) := by
  rw [List.filter_filterMap, List.filterMap_filter]
  apply List.filterMap_congr
  intro p hp
  cases hr : Relay.received wire (cfg j).node p with
  | none => simp
  | some m =>
    obtain ⟨_, m₀, _, _, rfl⟩ := hs.received_from hw (hps p hp) hr
    have hiff : (remote (cfg p.publisher).node m₀).source = "uplink:" ++ (cfg i).node ↔
        p.publisher = i := by
      refine ⟨fun h => ?_, fun h => by rw [h]; rfl⟩
      by_contra hne
      have hn := hnames _ _ hne
      rw [source_inj h, eqIgnoreAsciiCase_self] at hn
      cases hn
    simp [Option.filter, hiff]

theorem Trails.received_once (hs : Trails cfg wire s) (hw : wire.Textual)
    (hnames : ∀ i j, i ≠ j → eqIgnoreAsciiCase (cfg i).node (cfg j).node = false)
    {i j : ι} (hij : i ≠ j) :
    (((s.daemons j).log.filter (fun m => m.fromUplink)).filter
        (fun m => m.source = "uplink:" ++ (cfg i).node)).Subperm
      (((s.daemons i).log.filter (fun m => !m.fromUplink)).map (remote (cfg i).node)) := by
  have hdelivered : (s.nats.delivered j).Subperm s.nats.published :=
    (List.sublist_append_left _ _).subperm.trans (s.nats.conserved j).subperm
  have hread : ∀ m ∈ (s.daemons i).log.take (s.localRx i),
      (outbound wire i (cfg i).node m).bind (Relay.received wire (cfg j).node) =
        if (outbound wire i (cfg i).node m).isSome then some (remote (cfg i).node m) else none := by
    intro m hm
    cases ho : outbound wire i (cfg i).node m with
    | none => rfl
    | some p =>
      have hfits := (hs.fits i).log m (List.mem_of_mem_take hm)
      obtain ⟨_, _, haccept⟩ := outbound_read hw hfits ho (cfg j).node
      rw [Option.bind_some, Relay.received, haccept, hnames i j hij]
      rfl
  have hlocal : ∀ m, (outbound wire i (cfg i).node m).isSome = true → (!m.fromUplink) = true := by
    intro m hm
    obtain ⟨p, hp⟩ := Option.isSome_iff_exists.mp hm
    rw [(outbound_publisher hp).1]
    rfl
  rw [hs.received j, hs.received_by hw hnames i j hdelivered.subset]
  obtain ⟨ps, hperm, hsub⟩ := hdelivered.filter (fun p => p.publisher = i)
  refine List.Subperm.trans ⟨_, hperm.filterMap _, hsub.filterMap _⟩ ?_
  refine ((hs.published i).filterMap _).subperm.trans ?_
  rw [List.filterMap_filterMap, List.filterMap_congr hread, ← List.filterMap_filter]
  change (List.filterMap (some ∘ remote (cfg i).node) _).Subperm _
  rw [List.filterMap_eq_map]
  apply List.Sublist.subperm
  apply List.Sublist.map
  exact ((List.take_sublist _ _).filter _).trans (List.monotone_filter_right _ hlocal)

/-- In every state the fleet can reach, whatever its clients send that holds no float and whatever
the relays have lost on the way: a bus holds of another node only what that node has sent,
unchanged and at most once, and nothing that has come in over NATS goes out to it again. -/
theorem relay_safe (cfg : ι → Config) (hcfg : ∀ i, (cfg i).drainResumeHintMs < 2 ^ 64)
    (wire : Wire B) (hw : wire.Textual) (read : Readers) (hread : read.Faithful)
    (hnames : ∀ i j, i ≠ j → eqIgnoreAsciiCase (cfg i).node (cfg j).node = false)
    (file : ι → DurableState) (hfile : ∀ i, Table.All ClaimRecord.Fits (file i).claims)
    (now : ι → Nat) (ms : List (Move ι)) (hms : ∀ mv ∈ ms, mv.InRange ∧ mv.FloatFree)
    (t : Fleet ι B) (hr : run (Fleet.step cfg read.message wire) (.start file now) ms = some t) :
    (∀ i j, i ≠ j → ((t.daemons j).log.filter (fun m => m.fromUplink &&
        m.source = "uplink:" ++ (cfg i).node)).Subperm
      (((Fleet.start file now).sent cfg read.message wire ms i).map (remote (cfg i).node))) ∧
    (∀ j, ∀ m ∈ (t.daemons j).log, m.fromUplink = true → ∃ i, i ≠ j ∧
      ∃ m₀ ∈ (Fleet.start file now).sent cfg read.message wire ms i,
        m = remote (cfg i).node m₀) ∧
    ∀ i, (t.nats.published.filter (fun p => p.publisher = i)).Sublist
      (((Fleet.start file now).sent cfg read.message wire ms i).filterMap
        (outbound wire i (cfg i).node)) := by
  let s : Fleet ι B := .start file now
  have hrange : Along (Fleet.step cfg read.message wire)
      (fun _ mv => mv.InRange ∧ mv.Typed read.message) s ms := by
    refine along_of_forall s (fun mv hmv => ⟨(hms mv hmv).1, ?_⟩)
    cases mv with
    | daemon i a => exact Action.FloatFree.typed hread.message (hms _ hmv).2
    | relay | inbound => trivial
  have hsent : ∀ i, Trails cfg wire t ∧ (t.daemons i).log.filter (fun m => !m.fromUplink) =
      s.sent cfg read.message wire ms i := by
    intro i
    let I (s : Fleet ι B) (out : List BroadcastMsg) : Prop :=
      Trails cfg wire s ∧ (s.daemons i).log.filter (fun m => !m.fromUplink) = out
    have hstep : ∀ s mv t out, I s out → mv.InRange ∧ mv.Typed read.message →
        s.step cfg read.message wire mv = some t →
          I t (out ++ s.originates cfg read.message i mv) :=
      fun s mv t out hs hmv h =>
        ⟨hs.1.step hcfg hw hmv.1 hmv.2 h, by rw [log_step hs.1.tasks h i, hs.2]⟩
    have hend : I t ([] ++ s.sent cfg read.message wire ms i) :=
      run_trace_invariant hstep hrange hr ⟨trails_start hfile now, rfl⟩
    exact hend
  refine ⟨fun i j hij => ?_, fun j m hm hu => ?_, fun i => ?_⟩
  · obtain ⟨hs, hsent⟩ := hsent i
    rw [← hsent]
    have honce := hs.received_once hw hnames hij
    rw [List.filter_filter] at honce
    convert honce using 3
    rw [Bool.and_comm]
  · obtain ⟨hs, _⟩ := hsent j
    have hmem : m ∈ (t.daemons j).log.filter (fun m => m.fromUplink) :=
      List.mem_filter.mpr ⟨hm, hu⟩
    rw [hs.received j] at hmem
    obtain ⟨p, hp, hrec⟩ := List.mem_filterMap.mp hmem
    have hpub : p ∈ t.nats.published :=
      (t.nats.conserved j).subset (List.mem_append_left _ hp)
    obtain ⟨hne, m₀, hlog, hlocal, rfl⟩ := hs.received_from hw hpub hrec
    refine ⟨p.publisher, fun he => ?_, m₀, ?_, rfl⟩
    · rw [he, eqIgnoreAsciiCase_self] at hne
      cases hne
    · rw [← (hsent p.publisher).2]
      exact List.mem_filter.mpr ⟨hlog, by simp [hlocal]⟩
  · obtain ⟨hs, hsent⟩ := hsent i
    rw [← hsent]
    refine (hs.published i).trans ?_
    have hlocal : ((t.daemons i).log.filter (fun m => !m.fromUplink)).filterMap
        (outbound wire i (cfg i).node) =
          (t.daemons i).log.filterMap (outbound wire i (cfg i).node) := by
      rw [List.filterMap_filter]
      apply List.filterMap_congr
      intro m _
      cases hu : m.fromUplink <;> simp [outbound, hu]
    rw [hlocal]
    exact (List.take_sublist _ _).filterMap _

end Run

def textWire : Wire Char where
  toVec env := some env.toJson.text.toList
  fromSlice chars := Envelope.fromStr (String.ofList chars)
  validSubject _ := true

theorem textWire_textual : textWire.Textual :=
  ⟨String.toList, fun _ => rfl, fun text _ _ => by simp [textWire]⟩

def narrowConfig (i : Fin 2) : Config := { pairConfig i with broadcastCapacity := 1 }

def laggingRun {ι : Type} (i j : ι) : List (Move ι) :=
  [.daemon i .connect, .daemon i (.line 0 (announceLine "s1") 1), .daemon i .presenceTick,
    .daemon i (.presenceSend 1), .daemon i .presenceTick, .daemon i (.presenceSend 2),
    .relay i, .relay i, .inbound j 0]

theorem relay_safe_lagging :
    ∃ t, run (Fleet.step narrowConfig jsonReaders.message textWire)
        (.start (fun _ => .default) (fun _ => 0)) (laggingRun 0 1) = some t ∧
      (t.daemons 0).log.length = 2 ∧ (t.daemons 1).log.length = 1 ∧
      ∀ m ∈ (t.daemons 1).log, m.fromUplink = true → m.source = "uplink:testa" := by
  have heval : (run (Fleet.step narrowConfig jsonReaders.message textWire)
      (.start (fun _ => .default) (fun _ => 0)) (laggingRun 0 1)).map (fun t =>
        ((t.daemons 0).log.length, (t.daemons 1).log.length)) = some (2, 1) := by decide +kernel
  obtain ⟨t, ht, heval⟩ := Option.map_eq_some_iff.mp heval
  rw [Prod.mk.injEq] at heval
  have hfree : Json.FloatFree (trim (announceLine "s1")) := by decide +kernel
  have hrange : ∀ mv ∈ laggingRun (0 : Fin 2) 1, mv.InRange ∧ mv.FloatFree := by
    simp [laggingRun, Move.InRange, Action.InRange, Move.FloatFree, Action.FloatFree, hfree]
  obtain ⟨_, hfrom, _⟩ := relay_safe narrowConfig (by decide) _ textWire_textual jsonReaders
    jsonReaders_faithful (by decide) (fun _ => .default) (fun _ => Table.all_empty) (fun _ => 0)
    (laggingRun 0 1) hrange t ht
  refine ⟨t, ht, heval.1, heval.2, fun m hm hu => ?_⟩
  obtain ⟨i, hi, m₀, _, rfl⟩ := hfrom 1 m hm hu
  obtain rfl : i = 0 := by omega
  rfl

end Agorabus.Relay
