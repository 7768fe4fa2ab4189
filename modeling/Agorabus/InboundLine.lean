import Agorabus.Library.JsonSerde
import Agorabus.Protocol

namespace Agorabus

open Json (present readOr asBool? asStr? asOption?)

def ServerEvent.fields (e : ServerEvent) : List (String × Option Json) :=
  [("topic", some (.string e.topic)), ("data", some e.data), ("from", some (.string e.source))]

def ServerEvent.toJson (e : ServerEvent) : Json := .object (present e.fields)

def ServerEvent.fromJson (v : Json) : Option ServerEvent := do
  let [topic, data, source] ← v.fieldsOf ["topic", "data", "from"] | none
  return ⟨← (← topic).asStr?, (← data).canonical, ← (← source).asStr?⟩

def Reply.fields (r : Reply) : List (String × Option Json) :=
  [("ok", some (.bool r.ok)), ("error", r.error.map .string), ("data", r.data)]

def Reply.toJson (r : Reply) : Json := .object (present r.fields)

/-- Data that is null is read as no data. -/
def Reply.fromJson (v : Json) : Option Reply := do
  let [ok, error, data] ← v.fieldsOf ["ok", "error", "data"] | none
  return ⟨← (← ok).asBool?, ← readOr none (asOption? asStr?) error,
    ← readOr none (asOption? (fun v => some v.canonical)) data⟩

def DrainNotice.fields (n : DrainNotice) : List (String × Option Json) :=
  [("op", some (.string n.op)), ("resume_after_ms", some (.nat n.resumeAfterMs))]

def DrainNotice.toJson (n : DrainNotice) : Json := .object (present n.fields)

inductive InboundLine where
  | event (e : ServerEvent)
  | reply (r : Reply)
  deriving DecidableEq

/-- Untagged: what cannot be read as an event is tried as a reply. -/
def InboundLine.fromJson (v : Json) : Option InboundLine :=
  match ServerEvent.fromJson v with
  | some e => some (.event e)
  | none => (Reply.fromJson v).map .reply

def InboundLine.fromStr (text : String) : Option InboundLine :=
  (Json.parse text).bind InboundLine.fromJson

theorem ServerEvent.fromJson_toJson {e : ServerEvent} (h : e.data.Ordered) :
    fromJson e.toJson = some e := by
  have hfields := Json.fieldsOf_declared (show (e.fields.map Prod.fst).Nodup by simp [fields])
  simp only [fields, List.map_cons, List.map_nil] at hfields
  simp [fromJson, toJson, fields, hfields, h.canonical_eq]

theorem Reply.fromJson_toJson {r : Reply} (h : ∀ v ∈ r.data, v.Ordered ∧ v ≠ .null) :
    fromJson r.toJson = some r := by
  have hfields := Json.fieldsOf_declared (show (r.fields.map Prod.fst).Nodup by simp [fields])
  simp only [fields, List.map_cons, List.map_nil] at hfields
  have hdata : readOr none (asOption? (fun v => some v.canonical)) r.data = some r.data := by
    cases hd : r.data with
    | none => rfl
    | some v =>
      obtain ⟨hv, hnull⟩ := h v hd
      have hread : asOption? (fun v => some v.canonical) v = some (some v.canonical) := by
        cases v with
        | null => exact absurd rfl hnull
        | bool | number | string | array | object => rfl
      rw [Json.readOr_some, hread, hv.canonical_eq]
  simp [fromJson, toJson, fields, hfields, hdata]

theorem ServerEvent.fromJson_eq_none {fs : List (String × Option Json)}
    (h : (fs.map Prod.fst).Nodup) (htopic : "topic" ∉ fs.map Prod.fst) :
    fromJson (.object (present fs)) = none := by
  rw [fromJson, Json.fieldsOf_present h]
  simp [Json.lookup_eq_none htopic]

theorem Reply.fromJson_eq_none {fs : List (String × Option Json)}
    (h : (fs.map Prod.fst).Nodup) (hok : "ok" ∉ fs.map Prod.fst) :
    fromJson (.object (present fs)) = none := by
  rw [fromJson, Json.fieldsOf_present h]
  simp [Json.lookup_eq_none hok]

namespace InboundLine

theorem fromJson_event {e : ServerEvent} (h : e.data.Ordered) :
    fromJson e.toJson = some (.event e) := by
  rw [fromJson, ServerEvent.fromJson_toJson h]

theorem fromJson_reply {r : Reply} (h : ∀ v ∈ r.data, v.Ordered ∧ v ≠ .null) :
    fromJson r.toJson = some (.reply r) := by
  have hnone : ServerEvent.fromJson r.toJson = none :=
    ServerEvent.fromJson_eq_none (by simp [Reply.fields]) (by simp [Reply.fields])
  rw [fromJson, hnone, Reply.fromJson_toJson h, Option.map_some]

theorem fromJson_notice (n : DrainNotice) : fromJson n.toJson = none := by
  have hevent : ServerEvent.fromJson n.toJson = none :=
    ServerEvent.fromJson_eq_none (by simp [DrainNotice.fields]) (by simp [DrainNotice.fields])
  have hreply : Reply.fromJson n.toJson = none :=
    Reply.fromJson_eq_none (by simp [DrainNotice.fields]) (by simp [DrainNotice.fields])
  rw [fromJson, hevent, hreply, Option.map_none]

end InboundLine

end Agorabus
