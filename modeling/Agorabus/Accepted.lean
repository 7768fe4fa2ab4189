import Agorabus.Library.FloatFree
import Agorabus.Library.JsonSound
import Agorabus.Demux

namespace Agorabus

open Json (Writes FloatFree ReadsAs SkimsAs readOr asStr? asUint? asObject? asVec? asOption?
  writes_of_fieldsOf writes_of_tagged asUint?_lt)

theorem ClientMessage.fits_fromJson {v : Json} {m : ClientMessage} (hv : Writes 127 v)
    (h : fromJson v = some m) : m.Fits := by
  obtain ⟨⟨op, content⟩, htag, h⟩ := Option.bind_eq_some_iff.mp h
  have hfields {names : List String} {os : List (Option Json)}
      (hos : content.fieldsOf names = some os) : ∀ o ∈ os, ∀ w ∈ o, Writes 126 w :=
    writes_of_fieldsOf (writes_of_tagged hv htag) hos
  dsimp only [Option.bind_eq_bind, Option.pure_def] at h
  split at h
  case h_11 => cases h
  all_goals
    obtain ⟨os, hos, h⟩ := Option.bind_eq_some_iff.mp h
    split at h
    case h_2 => cases h
    simp only [↓Option.bind_eq_some_iff, Option.some.injEq] at h
  -- announce
  · obtain ⟨_, _, _, _, _, _, pid, hpid, _, _, _, _, _, _, _, _, rfl⟩ := h
    exact asUint?_lt hpid
  -- update
  · obtain ⟨_, _, _, _, rfl⟩ := h
    trivial
  -- heartbeat
  · obtain ⟨_, _, _, _, _, _, _, _, rfl⟩ := h
    trivial
  -- publish
  · obtain ⟨_, _, _, _, data, hdata, rfl⟩ := h
    have hw : Writes 126 data := hfields hos _ (by simp) data hdata
    exact hw.fitsUnder (by decide)
  -- subscribe
  · obtain ⟨_, _, _, _, rfl⟩ := h
    trivial
  -- peers
  · cases h
    trivial
  -- claim_acquire
  · obtain ⟨_, _, _, _, _, _, ttl, httl, _, _, _, _, rfl⟩ := h
    exact asUint?_lt httl
  -- claim_release
  · obtain ⟨_, _, _, _, rfl⟩ := h
    trivial
  -- claim_list
  · cases h
    trivial
  -- uplink_status
  · cases h
    trivial

theorem ClientMessage.fits_fromStr {text : String} {m : ClientMessage}
    (h : fromStr text = some m) : m.Fits := by
  obtain ⟨v, hv, hm⟩ := Option.bind_eq_some_iff.mp h
  exact fits_fromJson (Json.writes_of_parse hv) hm

theorem fitsUnder_noFields (levels : Nat) (h : 1 + levels < Json.recursionLimit) :
    (Json.object []).FitsUnder levels :=
  ⟨.object (List.forall_mem_nil _), .object List.Pairwise.nil (List.forall_mem_nil _), h⟩

theorem PeerRecord.fits_fromJson {v : Json} {p : PeerRecord} (hv : Writes 126 v)
    (h : fromJson v = some p) : p.Fits := by
  obtain ⟨os, hos, h⟩ := Option.bind_eq_some_iff.mp h
  have hfields : ∀ o ∈ os, ∀ w ∈ o, Writes 125 w := writes_of_fieldsOf hv hos
  dsimp only [Option.bind_eq_bind, Option.pure_def] at h
  split at h
  · rename_i extra
    simp only [↓Option.bind_eq_some_iff, Option.some.injEq] at h
    obtain ⟨_, _, _, _, _, _, pid, hpid, _, _, _, _, _, _, _, _, _, _, _, _, _, _, _, _,
      beat, hbeat, _, _, fs, hfs, rfl⟩ := h
    refine ⟨asUint?_lt hpid, asUint?_lt hbeat, ?_⟩
    cases extra with
    | none =>
      cases hfs
      exact fitsUnder_noFields 2 (by decide)
    | some w =>
      have hw : Writes 125 w := hfields _ (by simp) w rfl
      have he : w.canonical = .object fs := by
        rw [Json.readOr_some] at hfs
        unfold asObject? at hfs
        split at hfs
        · rename_i hc
          cases hfs
          exact hc
        · cases hfs
      exact he ▸ hw.fitsUnder (by decide)
  · cases h

theorem ClaimRecord.fits_fromJson {v : Json} {c : ClaimRecord} (h : fromJson v = some c) :
    c.Fits := by
  obtain ⟨os, _, h⟩ := Option.bind_eq_some_iff.mp h
  dsimp only [Option.bind_eq_bind, Option.pure_def] at h
  split at h
  · simp only [↓Option.bind_eq_some_iff, Option.some.injEq] at h
    obtain ⟨_, _, _, _, _, _, _, _, _, _, ttl, httl, _, _, acquired, hacquired, _, _, rfl⟩ := h
    exact ⟨asUint?_lt httl, asUint?_lt hacquired⟩
  · cases h

theorem mem_foldl_insert {α : Type} {es : List (String × α)} {m : Table String α} {k : String}
    {a : α} (h : (es.foldl (fun m e => m.insert e.1 e.2) m).lookup k = some a) :
    (k, a) ∈ es ∨ m.lookup k = some a := by
  induction es generalizing m with
  | nil => exact Or.inr h
  | cons e es ih =>
    obtain hm | hm := ih h
    · exact Or.inl (List.mem_cons_of_mem _ hm)
    · rw [Table.lookup_insert] at hm
      split at hm
      · rename_i hk
        cases hm
        exact Or.inl (hk ▸ List.mem_cons_self)
      · exact Or.inr hm

theorem mapFromJson_lookup {α : Type} {read : Json → Option α} {v : Json} {m : Table String α}
    (h : mapFromJson read v = some m) {k : String} {a : α} (hk : m.lookup k = some a) :
    ∃ w, read w = some a := by
  obtain ⟨fs, _, h⟩ := Option.bind_eq_some_iff.mp h
  obtain ⟨es, hes, he⟩ := Option.bind_eq_some_iff.mp h
  cases he
  obtain hm | hm := mem_foldl_insert hk
  · obtain ⟨f, _, hf⟩ := Json.mem_of_mapM hes _ hm
    obtain ⟨b, hb, he⟩ := Option.map_eq_some_iff.mp hf
    cases he
    exact ⟨f.2, hb⟩
  · cases hm

theorem DurableState.fits_fromStr {text : String} {state : DurableState}
    (h : fromStr text = some state) (path : String) (claim : ClaimRecord)
    (hc : state.claims.lookup path = some claim) : claim.Fits := by
  obtain ⟨v, _, h⟩ := Option.bind_eq_some_iff.mp h
  obtain ⟨os, hos, h⟩ := Option.bind_eq_some_iff.mp h
  dsimp only [Option.bind_eq_bind, Option.pure_def] at h
  split at h
  · rename_i claims intents
    obtain ⟨cs, hcs, h⟩ := Option.bind_eq_some_iff.mp h
    obtain ⟨is, _, h⟩ := Option.bind_eq_some_iff.mp h
    cases h
    cases claims with
    | none =>
      cases hcs
      cases hc
    | some w =>
      obtain ⟨u, hu⟩ := mapFromJson_lookup hcs hc
      exact ClaimRecord.fits_fromJson hu
  · cases h

theorem ServerEvent.fits_fromJson {v : Json} {e : ServerEvent} (hv : Writes 127 v)
    (h : fromJson v = some e) : (OutLine.event e).Fits := by
  obtain ⟨os, hos, h⟩ := Option.bind_eq_some_iff.mp h
  have hfields : ∀ o ∈ os, ∀ w ∈ o, Writes 126 w := writes_of_fieldsOf hv hos
  dsimp only [Option.bind_eq_bind, Option.pure_def] at h
  split at h
  · simp only [↓Option.bind_eq_some_iff, Option.some.injEq] at h
    obtain ⟨_, _, _, _, data, hdata, _, _, _, _, rfl⟩ := h
    have hw : Writes 126 data := hfields _ (by simp) data hdata
    exact hw.fitsUnder (by decide)
  · cases h

theorem asOption?_some {α : Type} {read : Json → Option α} {v : Json} {a : α}
    (h : asOption? read v = some (some a)) : v ≠ .null ∧ read v = some a := by
  unfold asOption? at h
  split at h
  · cases h
  · rename_i hnull
    obtain ⟨b, hb, he⟩ := Option.map_eq_some_iff.mp h
    cases he
    exact ⟨hnull, hb⟩

theorem canonical_ne_null {v : Json} (h : v ≠ .null) : v.canonical ≠ .null := by
  cases v with
  | null => exact absurd rfl h
  | object fs =>
    obtain ⟨gs, he, _⟩ := Json.canonical_object (P := fun _ => True)
      (show ∀ f ∈ fs, (fun _ => True) f.2.canonical from fun _ _ => trivial)
    rw [he]
    exact Json.noConfusion
  | bool | number | string | array => exact Json.noConfusion

theorem Reply.fits_fromJson {v : Json} {r : Reply} (hv : Writes 127 v)
    (h : fromJson v = some r) : (OutLine.reply r).Fits := by
  obtain ⟨os, hos, h⟩ := Option.bind_eq_some_iff.mp h
  have hfields : ∀ o ∈ os, ∀ w ∈ o, Writes 126 w := writes_of_fieldsOf hv hos
  dsimp only [Option.bind_eq_bind, Option.pure_def] at h
  split at h
  · rename_i data
    simp only [↓Option.bind_eq_some_iff, Option.some.injEq] at h
    obtain ⟨_, _, _, _, _, _, o, hread, rfl⟩ := h
    intro w hw
    obtain rfl : o = some w := hw
    cases data with
    | none => cases hread
    | some u =>
      have hu : Writes 126 u := hfields _ (by simp) u rfl
      obtain ⟨hnull, he⟩ := asOption?_some hread
      cases he
      exact ⟨hu.fitsUnder (by decide), canonical_ne_null hnull⟩
  · cases h

def InboundLine.line : InboundLine → OutLine
  | event e => .event e
  | reply r => .reply r

theorem InboundLine.fits_fromStr {text : String} {l : InboundLine} (h : fromStr text = some l) :
    l.line.Fits := by
  obtain ⟨v, hv, h⟩ := Option.bind_eq_some_iff.mp h
  have hw := Json.writes_of_parse hv
  unfold fromJson at h
  split at h
  · rename_i e he
    cases h
    exact ServerEvent.fits_fromJson hw he
  · obtain ⟨r, hr, rfl⟩ := Option.map_eq_some_iff.mp h
    exact Reply.fits_fromJson hw hr

theorem vecFromStr_parts {α : Type} {read : Json → Option α} {text : String} {as : List α}
    (h : vecFromStr read text = some as) : ∀ a ∈ as, ∃ w, Writes 126 w ∧ read w = some a := by
  obtain ⟨v, hv, h⟩ := Option.bind_eq_some_iff.mp h
  exact Json.writes_of_asVec? (Json.writes_of_parse hv) h

theorem writes_map {α : Type} {n : Nat} {write : α → Json} {as : List α}
    (h : ∀ a ∈ as, Writes n (write a)) : Writes (n + 1) (Json.array (as.map write)) := by
  refine Json.writes_array (fun v hv => ?_)
  obtain ⟨a, ha, rfl⟩ := List.mem_map.mp hv
  exact h a ha

/-- The readers of the program, each a text made a value of its type by the JSON library. -/
structure Readers where
  value : String → Option Json
  message : String → Option ClientMessage
  line : String → Option InboundLine
  peers : String → Option (List PeerRecord)
  claims : String → Option (List ClaimRecord)
  state : String → Option DurableState

def valueFromStr (text : String) : Option Json := (Json.parse text).map Json.canonical

def jsonReaders : Readers :=
  ⟨valueFromStr, ClientMessage.fromStr, InboundLine.fromStr, vecFromStr PeerRecord.fromJson,
    vecFromStr ClaimRecord.fromJson, DurableState.fromStr⟩

/-- What the program is promised of the readers: they do as their models on texts that hold no
float. -/
structure Readers.Faithful (read : Readers) : Prop where
  value : ReadsAs read.value valueFromStr
  message : ReadsAs read.message ClientMessage.fromStr
  line : ReadsAs read.line InboundLine.fromStr
  peers : SkimsAs read.peers (vecFromStr PeerRecord.fromJson)
  claims : SkimsAs read.claims (vecFromStr ClaimRecord.fromJson)
  state : SkimsAs read.state DurableState.fromStr

theorem jsonReaders_faithful : jsonReaders.Faithful :=
  ⟨fun _ _ => rfl, fun _ _ => rfl, fun _ _ => rfl, fun _ _ _ => rfl, fun _ _ _ => rfl,
    fun _ _ _ => rfl⟩

structure ReadsBack {α : Type} (read : String → Option α) (v : Json) (a : α) : Prop where
  unbroken : Unbroken v.text
  floatFree : FloatFree v.text
  reads : read v.text = some a

theorem readsBack {α : Type} {read model : String → Option α} (hread : SkimsAs read model)
    {n : Nat} {v : Json} (hv : Writes n v) (hn : n < Json.recursionLimit) {a : α}
    (h : model v.text = some a) : ReadsBack read v a := by
  have hfree := hv.inRange.floatFree_text
  have hparse := Option.isSome_of_eq_some (hv.parse_text hn)
  exact ⟨unbroken_text v, hfree, (hread _ hfree hparse).trans h⟩

theorem value_text {read : String → Option Json} (hread : ReadsAs read valueFromStr) {v : Json}
    (hv : v.FitsUnder 0) : read v.text = some v := by
  rw [hread _ hv.inRange.floatFree_text, valueFromStr, Json.parse_text hv.inRange hv.depth_lt,
    Option.map_some, hv.ordered.canonical_eq]

theorem encodes_of_readsBack {read : String → Option ClientMessage} {m : ClientMessage}
    (h : ReadsBack read m.toJson m) (hm : m.Fits) : Encodes read m.toJson.text m := by
  have htrim : trim m.toJson.text = m.toJson.text := trim_object _
  refine ⟨(ClientMessage.encodes_text hm).1, ?_⟩
  rw [htrim]
  exact h.reads

theorem ClientMessage.readsBack_toJson {read : String → Option ClientMessage}
    (hread : ReadsAs read fromStr) {m : ClientMessage} (hm : m.Fits) :
    ReadsBack read m.toJson m :=
  readsBack hread.skims (writes_toJson hm) (by decide) (fromStr_text hm)

/-- Whatever a reader accepts of a text without floats, with its fields in any order, with other
fields or as an array, is a value of the declared types: it can be written again, as one line
without floats, and is read back as the same. Of lists of records and of the state the text has to
be one that can be read throughout. -/
theorem accepted_reads_back (read : Readers) (hread : read.Faithful) (text : String)
    (hfree : FloatFree text) :
    (∀ m, read.message text = some m → m.Fits ∧ ReadsBack read.message m.toJson m ∧
      Encodes read.message m.toJson.text m) ∧
    (∀ l, read.line text = some l → l.line.Fits ∧ ReadsBack read.line l.line.toJson l) ∧
    (∀ ps, (Json.parse text).isSome → read.peers text = some ps → (∀ p ∈ ps, p.Fits) ∧
      ReadsBack read.peers (Json.array (ps.map PeerRecord.toJson)) ps) ∧
    (∀ cs, (Json.parse text).isSome → read.claims text = some cs → (∀ c ∈ cs, c.Fits) ∧
      ReadsBack read.claims (Json.array (cs.map ClaimRecord.toJson)) cs) ∧
    ∀ state, (Json.parse text).isSome → read.state text = some state →
      (∀ path claim, state.claims.lookup path = some claim → claim.Fits) ∧
      ∀ claims intents, Table.Enumerates state.claims claims →
        Table.Enumerates state.intents intents →
        ∃ loaded, ReadsBack read.state (DurableState.toJson claims intents) loaded ∧
          (∀ path, loaded.claims.lookup path = state.claims.lookup path) ∧
          ∀ sid, loaded.intents.lookup sid = state.intents.lookup sid := by
  refine ⟨fun m h => ?_, fun l h => ?_, fun ps hjson h => ?_,
    fun cs hjson h => ?_, fun state hjson h => ?_⟩
  · rw [hread.message text hfree] at h
    have hm := ClientMessage.fits_fromStr h
    have hback := ClientMessage.readsBack_toJson hread.message hm
    exact ⟨hm, hback, encodes_of_readsBack hback hm⟩
  · rw [hread.line text hfree] at h
    have hl := InboundLine.fits_fromStr h
    refine ⟨hl, readsBack hread.line.skims (OutLine.writes_toJson hl) (by decide) ?_⟩
    rw [← OutLine.text, OutLine.fromStr_text hl]
    cases l <;> rfl
  · rw [hread.peers text hfree hjson] at h
    have hps : ∀ p ∈ ps, p.Fits := by
      intro p hp
      obtain ⟨w, hw, hr⟩ := vecFromStr_parts h p hp
      exact PeerRecord.fits_fromJson hw hr
    have hwrites := writes_map (fun p hp => PeerRecord.writes_toJson (hps p hp))
    exact ⟨hps, readsBack hread.peers hwrites (by decide)
      (vecFromStr_text (fun p hp => PeerRecord.fromJson_toJson (hps p hp))
        (fun p hp => PeerRecord.writes_toJson (hps p hp)) (by decide))⟩
  · rw [hread.claims text hfree hjson] at h
    have hcs : ∀ c ∈ cs, c.Fits := by
      intro c hc
      obtain ⟨w, _, hr⟩ := vecFromStr_parts h c hc
      exact ClaimRecord.fits_fromJson hr
    have hwrites := writes_map (fun c hc => ClaimRecord.writes_toJson (hcs c hc))
    exact ⟨hcs, readsBack hread.claims hwrites (by decide)
      (vecFromStr_text (fun c hc => ClaimRecord.fromJson_toJson (hcs c hc))
        (fun c hc => ClaimRecord.writes_toJson (hcs c hc)) (by decide))⟩
  · rw [hread.state text hfree hjson] at h
    have hfits := DurableState.fits_fromStr h
    refine ⟨hfits, fun claims intents hc hi => ?_⟩
    obtain ⟨loaded, hload, hsame⟩ := DurableState.fromStr_text hc hi hfits
    have hentries : ∀ e ∈ claims, e.2.Fits := fun e he => hfits e.1 e.2 ((hc.mem e.1 e.2).mp he)
    exact ⟨loaded, readsBack hread.state (DurableState.writes_toJson hentries) (by decide) hload,
      hsame⟩

def shuffledLine : String :=
  "\x7b\"data\":\x7b\"b\":1,\"a\":2,\"b\":3\x7d,\"x\":0,\"topic\":\"t\",\"op\":\"publish\"\x7d"

theorem accepted_reads_back_publish :
    jsonReaders.message shuffledLine =
      some (.publish "t" (.object [("a", .number 2), ("b", .number 3)])) ∧
    ReadsBack jsonReaders.message
      (ClientMessage.publish "t" (.object [("a", .number 2), ("b", .number 3)])).toJson
      (.publish "t" (.object [("a", .number 2), ("b", .number 3)])) := by
  have hread : jsonReaders.message shuffledLine =
      some (.publish "t" (.object [("a", .number 2), ("b", .number 3)])) := by decide +kernel
  have hfree : FloatFree shuffledLine := by decide +kernel
  have hback := (accepted_reads_back jsonReaders jsonReaders_faithful shuffledLine hfree).1
  exact ⟨hread, (hback _ hread).2.1⟩

end Agorabus
