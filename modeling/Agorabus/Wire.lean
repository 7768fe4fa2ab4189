import Agorabus.Client
import Agorabus.InboundLine
import Agorabus.Library.Lines

namespace Agorabus

open Json (present readOr asBool? asStr? asUint? asVec? asObject? asOption? ofOption Writes)

namespace ClientMessage

def op : ClientMessage → String
  | announce .. => "announce"
  | update .. => "update"
  | heartbeat .. => "heartbeat"
  | publish .. => "publish"
  | subscribe .. => "subscribe"
  | peers => "peers"
  | claimAcquire .. => "claim_acquire"
  | claimRelease .. => "claim_release"
  | claimList => "claim_list"
  | uplinkStatus => "uplink_status"

def fields : ClientMessage → List (String × Option Json)
  | announce sessionId pid cwd intent node =>
      [("session_id", some (.string sessionId)), ("pid", some (.nat pid)),
        ("cwd", some (.string cwd)), ("intent", some (.string intent)),
        ("node", node.map .string)]
  | update cwd intent =>
      [("cwd", some (ofOption (cwd.map .string))), ("intent", some (ofOption (intent.map .string)))]
  | heartbeat tool skill prdSlug workingPaths =>
      [("tool", some (.string tool)), ("skill", some (ofOption (skill.map .string))),
        ("prd_slug", some (ofOption (prdSlug.map .string))),
        ("working_paths", some (ofOption (workingPaths.map (fun ps => .array (ps.map .string)))))]
  | publish topic data => [("topic", some (.string topic)), ("data", some data)]
  | subscribe pre => [("prefix", some (.string pre))]
  | claimAcquire path ttlUnixSecs reason force =>
      [("path", some (.string path)), ("ttl_unix_secs", some (.nat ttlUnixSecs)),
        ("reason", some (.string reason)), ("force", some (.bool force))]
  | claimRelease path => [("path", some (.string path))]
  | peers | claimList | uplinkStatus => []

def toJson (m : ClientMessage) : Json := .object (present (("op", some (.string m.op)) :: m.fields))

def fromJson (v : Json) : Option ClientMessage := do
  let (op, content) ← v.tagged "op"
  match op with
  | "announce" =>
    let [sessionId, pid, cwd, intent, node] ←
      content.fieldsOf ["session_id", "pid", "cwd", "intent", "node"] | none
    return announce (← (← sessionId).asStr?) (← (← pid).asUint? (2 ^ 32)) (← (← cwd).asStr?)
      (← readOr "" asStr? intent) (← readOr none (asOption? asStr?) node)
  | "update" =>
    let [cwd, intent] ← content.fieldsOf ["cwd", "intent"] | none
    return update (← readOr none (asOption? asStr?) cwd) (← readOr none (asOption? asStr?) intent)
  | "heartbeat" =>
    let [tool, skill, prdSlug, workingPaths] ←
      content.fieldsOf ["tool", "skill", "prd_slug", "working_paths"] | none
    return heartbeat (← readOr "" asStr? tool) (← readOr none (asOption? asStr?) skill)
      (← readOr none (asOption? asStr?) prdSlug)
      (← readOr none (asOption? (asVec? asStr?)) workingPaths)
  | "publish" =>
    let [topic, data] ← content.fieldsOf ["topic", "data"] | none
    return publish (← (← topic).asStr?) (← data).canonical
  | "subscribe" =>
    let [pre] ← content.fieldsOf ["prefix"] | none
    return subscribe (← (← pre).asStr?)
  | "peers" =>
    let [] ← content.fieldsOf [] | none
    return peers
  | "claim_acquire" =>
    let [path, ttlUnixSecs, reason, force] ←
      content.fieldsOf ["path", "ttl_unix_secs", "reason", "force"] | none
    return claimAcquire (← (← path).asStr?) (← (← ttlUnixSecs).asUint? (2 ^ 64))
      (← readOr "" asStr? reason) (← readOr false asBool? force)
  | "claim_release" =>
    let [path] ← content.fieldsOf ["path"] | none
    return claimRelease (← (← path).asStr?)
  | "claim_list" =>
    let [] ← content.fieldsOf [] | none
    return claimList
  | "uplink_status" =>
    let [] ← content.fieldsOf [] | none
    return uplinkStatus
  | _ => none

/-- As a text without floats is read. -/
def fromStr (text : String) : Option ClientMessage := (Json.parse text).bind fromJson

/-- The numbers are those of the declared types, and the payload is a value that a line can hold. -/
def Fits : ClientMessage → Prop
  | announce _ pid _ _ _ => pid < 2 ^ 32
  | claimAcquire _ ttlUnixSecs _ _ => ttlUnixSecs < 2 ^ 64
  | publish _ data => data.FitsUnder 1
  | _ => True

end ClientMessage

theorem ClientMessage.fromJson_toJson {m : ClientMessage} (h : m.Fits) :
    fromJson m.toJson = some m := by
  have htag : "op" ∉ m.fields.map Prod.fst := by cases m <;> simp [fields]
  have hnodup : (m.fields.map Prod.fst).Nodup := by cases m <;> simp [fields]
  have hfields := Json.fieldsOf_declared hnodup
  rw [fromJson, toJson, Json.tagged_present htag]
  simp only [Option.bind_eq_bind, Option.bind_some]
  cases m with
  | announce sessionId pid cwd intent node =>
    simp only [fields, List.map_cons, List.map_nil] at hfields
    simp [-Nat.reducePow, op, fields, hfields, Json.asUint?_nat (show pid < 2 ^ 32 from h)]
  | claimAcquire path ttlUnixSecs reason force =>
    simp only [fields, List.map_cons, List.map_nil] at hfields
    simp [-Nat.reducePow, op, fields, hfields, Json.asUint?_nat (show ttlUnixSecs < 2 ^ 64 from h)]
  | publish topic data =>
    simp only [fields, List.map_cons, List.map_nil] at hfields
    simp [op, fields, hfields, h.ordered.canonical_eq]
  | heartbeat tool skill prdSlug workingPaths =>
    have hpaths : asOption? (asVec? asStr?) (ofOption (workingPaths.map
        (fun ps => .array (ps.map .string)))) = some workingPaths :=
      Json.asOption?_ofOption _ Json.asVec?_strings (fun _ h => by cases h) workingPaths
    simp only [fields, List.map_cons, List.map_nil] at hfields
    simp [op, fields, hfields, hpaths]
  | update | subscribe | claimRelease | peers | claimList | uplinkStatus =>
    simp only [fields, List.map_cons, List.map_nil] at hfields
    simp [op, fields, hfields]

def skipEmpty (t : String) : Option Json := if t.isEmpty then none else some (.string t)

def skipEmptyVec (ts : List String) : Option Json :=
  if ts.isEmpty then none else some (.array (ts.map .string))

@[simp] theorem readOr_skipEmpty (t : String) : readOr "" asStr? (skipEmpty t) = some t := by
  rw [skipEmpty]
  split
  · rename_i h
    rw [String.isEmpty_iff.mp h]
    rfl
  · rfl

@[simp] theorem readOr_skipEmptyVec (ts : List String) :
    readOr [] (asVec? asStr?) (skipEmptyVec ts) = some ts := by
  rw [skipEmptyVec]
  split
  · rename_i h
    rw [List.isEmpty_iff.mp h]
    rfl
  · exact Json.asVec?_strings ts

namespace PeerRecord

def fields (p : PeerRecord) : List (String × Option Json) :=
  [("session_id", some (.string p.sessionId)), ("pid", some (.nat p.pid)),
    ("cwd", some (.string p.cwd)), ("intent", some (.string p.intent)),
    ("last_tool", some (.string p.lastTool)), ("skill", skipEmpty p.skill),
    ("prd_slug", skipEmpty p.prdSlug), ("working_paths", skipEmptyVec p.workingPaths),
    ("last_heartbeat_unix_secs", some (.nat p.lastHeartbeatUnixSecs)),
    ("node", p.node.map .string), ("extra", some (.object p.extra))]

def toJson (p : PeerRecord) : Json := .object (present p.fields)

def fromJson (v : Json) : Option PeerRecord := do
  let [sessionId, pid, cwd, intent, lastTool, skill, prdSlug, workingPaths,
      lastHeartbeatUnixSecs, node, extra] ← v.fieldsOf ["session_id", "pid", "cwd", "intent",
    "last_tool", "skill", "prd_slug", "working_paths", "last_heartbeat_unix_secs", "node",
    "extra"] | none
  return ⟨← (← sessionId).asStr?, ← (← pid).asUint? (2 ^ 32), ← (← cwd).asStr?,
    ← readOr "" asStr? intent, ← readOr "" asStr? lastTool, ← readOr "" asStr? skill,
    ← readOr "" asStr? prdSlug, ← readOr [] (asVec? asStr?) workingPaths,
    ← (← lastHeartbeatUnixSecs).asUint? (2 ^ 64), ← readOr none (asOption? asStr?) node,
    ← readOr [] (fun v => v.canonical.asObject?) extra⟩

structure Fits (p : PeerRecord) : Prop where
  pid : p.pid < 2 ^ 32
  lastHeartbeatUnixSecs : p.lastHeartbeatUnixSecs < 2 ^ 64
  extra : (Json.object p.extra).FitsUnder 2

theorem fromJson_of_fieldsOf {p : PeerRecord} (h : p.Fits) {v : Json}
    (hv : v.fieldsOf (p.fields.map Prod.fst) = some (p.fields.map Prod.snd)) :
    fromJson v = some p := by
  have hpid : (Json.nat p.pid).asUint? (2 ^ 32) = some p.pid := Json.asUint?_nat h.pid
  have hheartbeat : (Json.nat p.lastHeartbeatUnixSecs).asUint? (2 ^ 64) =
      some p.lastHeartbeatUnixSecs := Json.asUint?_nat h.lastHeartbeatUnixSecs
  have hextra : readOr [] (fun v => v.canonical.asObject?) (some (.object p.extra)) =
      some p.extra := by
    rw [Json.readOr_some, h.extra.ordered.canonical_eq]
    rfl
  simp only [fields, List.map_cons, List.map_nil] at hv
  rw [fromJson, hv]
  dsimp only [Option.bind_eq_bind, Option.bind_some]
  rw [hpid, readOr_skipEmpty, readOr_skipEmpty, readOr_skipEmptyVec, hheartbeat,
    Json.readOr_map_string, hextra]
  rfl

theorem fromJson_toJson {p : PeerRecord} (h : p.Fits) : fromJson p.toJson = some p :=
  fromJson_of_fieldsOf h (Json.fieldsOf_declared (by simp [fields]))

/-- The same fields in the order of their keys, as they stand in the reply of the daemon. -/
def valueFields (p : PeerRecord) : List (String × Option Json) :=
  [("cwd", some (.string p.cwd)), ("extra", some (.object p.extra)),
    ("intent", some (.string p.intent)),
    ("last_heartbeat_unix_secs", some (.nat p.lastHeartbeatUnixSecs)),
    ("last_tool", some (.string p.lastTool)), ("node", p.node.map .string),
    ("pid", some (.nat p.pid)), ("prd_slug", skipEmpty p.prdSlug),
    ("session_id", some (.string p.sessionId)), ("skill", skipEmpty p.skill),
    ("working_paths", skipEmptyVec p.workingPaths)]

theorem toValue_eq (p : PeerRecord) : p.toValue = .object (present p.valueFields) := by
  have hskip (t : String) (k : String) : field (!t.isEmpty) k (.string t) =
      present [(k, skipEmpty t)] := by
    rw [field, skipEmpty]
    cases t.isEmpty <;> rfl
  have hpaths : field (!p.workingPaths.isEmpty) "working_paths"
      (.array (p.workingPaths.map .string)) =
      present [("working_paths", skipEmptyVec p.workingPaths)] := by
    rw [field, skipEmptyVec]
    cases p.workingPaths.isEmpty <;> rfl
  have hnode : field p.node.isSome "node" (.string (p.node.getD "")) =
      present [("node", p.node.map .string)] := by
    cases p.node <;> rfl
  have hsplit : p.valueFields = p.valueFields.take 5 ++ [("node", p.node.map .string)] ++
      [("pid", some (.nat p.pid))] ++ [("prd_slug", skipEmpty p.prdSlug)] ++
      [("session_id", some (.string p.sessionId))] ++ [("skill", skipEmpty p.skill)] ++
      [("working_paths", skipEmptyVec p.workingPaths)] := rfl
  rw [toValue, hskip, hskip, hpaths, hnode, hsplit]
  simp only [Json.present_append]
  rfl

theorem fromJson_toValue {p : PeerRecord} (h : p.Fits) : fromJson p.toValue = some p := by
  refine fromJson_of_fieldsOf h ?_
  rw [toValue_eq, Json.fieldsOf_present (by simp [valueFields])]
  rfl

end PeerRecord

namespace ClaimRecord

def fields (c : ClaimRecord) : List (String × Option Json) :=
  [("path", some (.string c.path)), ("session_id", some (.string c.sessionId)),
    ("ttl_unix_secs", some (.nat c.ttlUnixSecs)),
    ("acquired_unix_secs", some (.nat c.acquiredUnixSecs)), ("reason", some (.string c.reason))]

def toJson (c : ClaimRecord) : Json := .object (present c.fields)

def fromJson (v : Json) : Option ClaimRecord := do
  let [path, sessionId, ttlUnixSecs, acquiredUnixSecs, reason] ← v.fieldsOf
    ["path", "session_id", "ttl_unix_secs", "acquired_unix_secs", "reason"] | none
  return ⟨← (← path).asStr?, ← (← sessionId).asStr?, ← (← ttlUnixSecs).asUint? (2 ^ 64),
    ← (← acquiredUnixSecs).asUint? (2 ^ 64), ← readOr "" asStr? reason⟩

structure Fits (c : ClaimRecord) : Prop where
  ttlUnixSecs : c.ttlUnixSecs < 2 ^ 64
  acquiredUnixSecs : c.acquiredUnixSecs < 2 ^ 64

theorem fromJson_of_fieldsOf {c : ClaimRecord} (h : c.Fits) {v : Json}
    (hv : v.fieldsOf (c.fields.map Prod.fst) = some (c.fields.map Prod.snd)) :
    fromJson v = some c := by
  have httl : (Json.nat c.ttlUnixSecs).asUint? (2 ^ 64) = some c.ttlUnixSecs :=
    Json.asUint?_nat h.ttlUnixSecs
  have hacquired : (Json.nat c.acquiredUnixSecs).asUint? (2 ^ 64) = some c.acquiredUnixSecs :=
    Json.asUint?_nat h.acquiredUnixSecs
  simp only [fields, List.map_cons, List.map_nil] at hv
  rw [fromJson, hv]
  dsimp only [Option.bind_eq_bind, Option.bind_some]
  rw [httl, hacquired]
  rfl

theorem fromJson_toJson {c : ClaimRecord} (h : c.Fits) : fromJson c.toJson = some c :=
  fromJson_of_fieldsOf h (Json.fieldsOf_declared (by simp [fields]))

def valueFields (c : ClaimRecord) : List (String × Option Json) :=
  [("acquired_unix_secs", some (.nat c.acquiredUnixSecs)), ("path", some (.string c.path)),
    ("reason", some (.string c.reason)), ("session_id", some (.string c.sessionId)),
    ("ttl_unix_secs", some (.nat c.ttlUnixSecs))]

theorem fromJson_toValue {c : ClaimRecord} (h : c.Fits) : fromJson c.toValue = some c := by
  have hvalue : c.toValue = .object (present c.valueFields) := rfl
  refine fromJson_of_fieldsOf h ?_
  rw [hvalue, Json.fieldsOf_present (by simp [valueFields])]
  rfl

end ClaimRecord

namespace StickyIntent

def fields (i : StickyIntent) : List (String × Option Json) :=
  [("skill", skipEmpty i.skill), ("prd_slug", skipEmpty i.prdSlug),
    ("working_paths", skipEmptyVec i.workingPaths)]

def toJson (i : StickyIntent) : Json := .object (present i.fields)

def fromJson (v : Json) : Option StickyIntent := do
  let [skill, prdSlug, workingPaths] ← v.fieldsOf ["skill", "prd_slug", "working_paths"] | none
  return ⟨← readOr "" asStr? skill, ← readOr "" asStr? prdSlug,
    ← readOr [] (asVec? asStr?) workingPaths⟩

theorem fromJson_toJson (i : StickyIntent) : fromJson i.toJson = some i := by
  have hfields := Json.fieldsOf_declared (show (i.fields.map Prod.fst).Nodup by simp [fields])
  simp only [fields, List.map_cons, List.map_nil] at hfields
  simp [fromJson, toJson, fields, hfields]

end StickyIntent

/-- The entries of a `HashMap`, in the order in which it is iterated over. -/
def mapToJson {α : Type} (write : α → Json) (es : List (String × α)) : Json :=
  .object (es.map (fun e => (e.1, write e.2)))

def mapFromJson {α : Type} (read : Json → Option α) (v : Json) : Option (Table String α) := do
  let es ← (← v.asObject?).mapM (fun f => (read f.2).map (fun a => (f.1, a)))
  return Table.ofEntries es

theorem mapFromJson_mapToJson {α : Type} {read : Json → Option α} {write : α → Json}
    {es : List (String × α)} (h : ∀ e ∈ es, read (write e.2) = some e.2) :
    mapFromJson read (mapToJson write es) = some (Table.ofEntries es) := by
  have hentries : (es.map (fun e => (e.1, write e.2))).mapM
      (fun f => (read f.2).map (fun a => (f.1, a))) = some es :=
    Json.mapM_map (fun e he => by rw [h e he]; rfl)
  rw [mapFromJson, mapToJson, asObject?]
  simp [hentries]

namespace DurableState

def toJson (claims : List (String × ClaimRecord)) (intents : List (String × StickyIntent)) :
    Json :=
  .object (present [("claims", some (mapToJson ClaimRecord.toJson claims)),
    ("intents", some (mapToJson StickyIntent.toJson intents))])

def fromJson (v : Json) : Option DurableState := do
  let [claims, intents] ← v.fieldsOf ["claims", "intents"] | none
  return ⟨← readOr ∅ (mapFromJson ClaimRecord.fromJson) claims,
    ← readOr ∅ (mapFromJson StickyIntent.fromJson) intents⟩

theorem fromJson_toJson {claims : List (String × ClaimRecord)}
    {intents : List (String × StickyIntent)} (h : ∀ e ∈ claims, e.2.Fits) :
    fromJson (toJson claims intents) = some ⟨.ofEntries claims, .ofEntries intents⟩ := by
  have hfields := Json.fieldsOf_declared
    (show (([("claims", some (mapToJson ClaimRecord.toJson claims)),
      ("intents", some (mapToJson StickyIntent.toJson intents))] :
        List (String × Option Json)).map Prod.fst).Nodup by simp)
  simp only [List.map_cons, List.map_nil] at hfields
  have hclaims := mapFromJson_mapToJson (fun e he => ClaimRecord.fromJson_toJson (h e he))
  have hintents := mapFromJson_mapToJson
    (show ∀ e ∈ intents, StickyIntent.fromJson e.2.toJson = some e.2 from
      fun e _ => StickyIntent.fromJson_toJson e.2)
  simp [fromJson, toJson, hfields, hclaims, hintents]

end DurableState

section Texts

open Json (writes_string writes_bool writes_nat writes_ofOption writes_array writes_object
  writes_present)

theorem writes_skipEmpty (n : Nat) (t : String) : ∀ v ∈ skipEmpty t, Writes n v := by
  intro v hv
  rw [skipEmpty] at hv
  split at hv
  · cases hv
  · cases hv
    exact writes_string n t

theorem writes_strings (n : Nat) (ts : List String) : Writes (n + 1) (.array (ts.map .string)) := by
  refine writes_array (fun x hx => ?_)
  obtain ⟨t, _, rfl⟩ := List.mem_map.mp hx
  exact writes_string n t

theorem writes_skipEmptyVec (n : Nat) (ts : List String) :
    ∀ v ∈ skipEmptyVec ts, Writes (n + 1) v := by
  intro v hv
  rw [skipEmptyVec] at hv
  split at hv
  · cases hv
  · cases hv
    exact writes_strings n ts

theorem writes_map_string (n : Nat) (o : Option String) : ∀ v ∈ o.map Json.string, Writes n v := by
  intro v hv
  obtain ⟨t, _, rfl⟩ := Option.map_eq_some_iff.mp hv
  exact writes_string n t

theorem ClientMessage.writes_toJson {m : ClientMessage} (h : m.Fits) : Writes 127 m.toJson := by
  refine writes_present ?_
  cases m with
  | announce sessionId pid cwd intent node =>
    have hpid : pid < 2 ^ 64 := Nat.lt_trans h (by decide)
    simp [fields, op, writes_string, writes_nat _ hpid]
  | claimAcquire path ttlUnixSecs reason force =>
    simp [fields, op, writes_string, writes_bool,
      writes_nat _ (show ttlUnixSecs < 2 ^ 64 from h)]
  | publish topic data =>
    have hdata : Writes 126 data :=
      ⟨h.inRange, Nat.le_of_lt_succ (Nat.lt_of_succ_lt_succ h.depth_lt)⟩
    simp [fields, op, writes_string, hdata]
  | heartbeat tool skill prdSlug workingPaths =>
    have hpaths : Writes 126 (ofOption (workingPaths.map (fun ps => .array (ps.map .string)))) := by
      refine writes_ofOption (fun v hv => ?_)
      obtain ⟨ps, _, rfl⟩ := Option.map_eq_some_iff.mp hv
      exact writes_strings _ ps
    simp [fields, op, writes_string, writes_ofOption (writes_map_string _ _), hpaths]
  | update cwd intent =>
    simp [fields, op, writes_string, writes_ofOption (writes_map_string _ _)]
  | subscribe | claimRelease | peers | claimList | uplinkStatus =>
    simp [fields, op, writes_string]

theorem PeerRecord.writes_toJson {p : PeerRecord} (h : p.Fits) : Writes 126 p.toJson := by
  have hpid : p.pid < 2 ^ 64 := Nat.lt_trans h.pid (by decide)
  have hextra : Writes 125 (.object p.extra) :=
    ⟨h.extra.inRange, Nat.le_of_lt_succ (Nat.lt_of_succ_lt_succ
      (Nat.lt_of_succ_lt_succ h.extra.depth_lt))⟩
  refine writes_present ?_
  simp [fields, writes_string, writes_nat _ hpid, writes_nat _ h.lastHeartbeatUnixSecs, hextra]
  exact ⟨writes_skipEmpty _ _, writes_skipEmpty _ _, writes_skipEmptyVec _ _⟩

theorem ClaimRecord.writes_toJson {c : ClaimRecord} (h : c.Fits) : Writes 1 c.toJson := by
  refine writes_present ?_
  simp [fields, writes_string, writes_nat _ h.ttlUnixSecs, writes_nat _ h.acquiredUnixSecs]

theorem StickyIntent.writes_toJson (i : StickyIntent) : Writes 2 i.toJson := by
  refine writes_present ?_
  simp [fields]
  exact ⟨writes_skipEmpty _ _, writes_skipEmpty _ _, writes_skipEmptyVec _ _⟩

theorem writes_mapToJson {α : Type} {n : Nat} {write : α → Json} {es : List (String × α)}
    (h : ∀ e ∈ es, Writes n (write e.2)) : Writes (n + 1) (mapToJson write es) := by
  refine writes_object (fun f hf => ?_)
  obtain ⟨e, he, rfl⟩ := List.mem_map.mp hf
  exact h e he

theorem DurableState.writes_toJson {claims : List (String × ClaimRecord)}
    {intents : List (String × StickyIntent)} (h : ∀ e ∈ claims, e.2.Fits) :
    Writes 4 (toJson claims intents) := by
  have hclaims : Writes 2 (mapToJson ClaimRecord.toJson claims) :=
    writes_mapToJson (fun e he => ClaimRecord.writes_toJson (h e he))
  have hintents : Writes 3 (mapToJson StickyIntent.toJson intents) :=
    writes_mapToJson (fun e _ => e.2.writes_toJson)
  refine writes_present ?_
  simp [hclaims.mono (show 2 ≤ 3 by decide), hintents]

end Texts

def Unbroken (text : String) : Prop := '\n' ∉ text.toList ∧ '\r' ∉ text.toList

theorem unbroken_text (v : Json) : Unbroken v.text := by
  have hvisible : ∀ c ∈ v.text.toList, 32 ≤ c.toNat := by
    rw [Json.text, String.toList_ofList]
    exact v.visible_print
  constructor
  · intro h
    exact absurd (hvisible _ h) (by decide)
  · intro h
    exact absurd (hvisible _ h) (by decide)

theorem trim_eq {line : String} {c d : Char} {cs : List Char} (h : line.toList = c :: cs ++ [d])
    (hc : isWhitespace c = false) (hd : isWhitespace d = false) : trim line = line := by
  have hstart : line.toList.dropWhile isWhitespace = line.toList := by
    rw [h, List.cons_append, List.dropWhile_cons_of_neg (by simp [hc])]
  have hend : line.toList.reverse.dropWhile isWhitespace = line.toList.reverse := by
    rw [h, List.reverse_append, List.reverse_singleton, List.singleton_append,
      List.dropWhile_cons_of_neg (by simp [hd])]
  rw [trim, hstart, hend, List.reverse_reverse, String.ofList_toList]

theorem trim_object (fs : List (String × Json)) :
    trim (Json.object fs).text = (Json.object fs).text := by
  have htext : (Json.object fs).text.toList = '\x7b' :: Json.printFields fs ++ ['\x7d'] := by
    rw [Json.text, String.toList_ofList, Json.print, List.cons_append]
  exact trim_eq htext (by decide) (by decide)

theorem ClientMessage.fromStr_text {m : ClientMessage} (h : m.Fits) :
    fromStr m.toJson.text = some m := by
  rw [fromStr, (writes_toJson h).parse_text (by decide), Option.bind_some, fromJson_toJson h]

theorem ClientMessage.encodes_text {m : ClientMessage} (h : m.Fits) :
    Encodes fromStr m.toJson.text m := by
  have htrim : trim m.toJson.text = m.toJson.text := trim_object _
  rw [Encodes, htrim]
  refine ⟨?_, fromStr_text h⟩
  rw [Json.text, ← Bool.not_eq_true, String.isEmpty_iff, ← String.toList_inj, String.toList_ofList]
  exact List.cons_ne_nil _ _

/-- The messages that the daemon takes from what a connection has sent: a blank line is passed
over, and nothing is taken after a line that cannot be decoded. -/
def ClientMessage.receive (stream : String) : Option (List ClientMessage) :=
  ((Lines.read stream).filter (fun line => !(trim line).isEmpty)).mapM
    (fun line => fromStr (trim line))

theorem ClientMessage.receive_write {ms : List ClientMessage} (h : ∀ m ∈ ms, m.Fits) :
    receive (Lines.write (ms.map (fun m => m.toJson.text))) = some ms := by
  have hread : Lines.read (Lines.write (ms.map (fun m => m.toJson.text))) =
      ms.map (fun m => m.toJson.text) := by
    refine Lines.read_write (fun t ht => ?_)
    obtain ⟨m, _, rfl⟩ := List.mem_map.mp ht
    exact unbroken_text m.toJson
  have hfull : (ms.map (fun m => m.toJson.text)).filter (fun line => !(trim line).isEmpty) =
      ms.map (fun m => m.toJson.text) := by
    refine List.filter_eq_self.mpr (fun t ht => ?_)
    obtain ⟨m, hm, rfl⟩ := List.mem_map.mp ht
    rw [(encodes_text (h m hm)).1, Bool.not_false]
  rw [receive, hread, hfull]
  exact Json.mapM_map (fun m hm => (encodes_text (h m hm)).2)

theorem ClientMessage.text_inj {m m' : ClientMessage} (h : m.Fits) (h' : m'.Fits)
    (he : m.toJson.text = m'.toJson.text) : m = m' := by
  have hm := fromStr_text h
  rw [he, fromStr_text h'] at hm
  exact (Option.some.inj hm).symm

def vecFromStr {α : Type} (read : Json → Option α) (text : String) : Option (List α) :=
  (Json.parse text).bind (asVec? read)

theorem vecFromStr_text {α : Type} {read : Json → Option α} {write : α → Json} {n : Nat}
    {as : List α} (h : ∀ a ∈ as, read (write a) = some a) (hw : ∀ a ∈ as, Writes n (write a))
    (hn : n + 1 < Json.recursionLimit) :
    vecFromStr read (Json.array (as.map write)).text = some as := by
  have hitems : Writes (n + 1) (.array (as.map write)) := by
    refine Json.writes_array (fun v hv => ?_)
    obtain ⟨a, ha, rfl⟩ := List.mem_map.mp hv
    exact hw a ha
  rw [vecFromStr, hitems.parse_text hn, Option.bind_some]
  exact Json.mapM_map h

def DurableState.fromStr (text : String) : Option DurableState := (Json.parse text).bind fromJson

theorem DurableState.fromStr_text {state : DurableState} {claims : List (String × ClaimRecord)}
    {intents : List (String × StickyIntent)} (hc : Table.Enumerates state.claims claims)
    (hi : Table.Enumerates state.intents intents)
    (hfits : ∀ path claim, state.claims.lookup path = some claim → claim.Fits) :
    ∃ loaded, fromStr (toJson claims intents).text = some loaded ∧
      (∀ path, loaded.claims.lookup path = state.claims.lookup path) ∧
      ∀ sid, loaded.intents.lookup sid = state.intents.lookup sid := by
  have hentries : ∀ e ∈ claims, e.2.Fits := fun e he => hfits e.1 e.2 ((hc.mem e.1 e.2).mp he)
  refine ⟨⟨.ofEntries claims, .ofEntries intents⟩, ?_, Table.lookup_ofEntries hc,
    Table.lookup_ofEntries hi⟩
  rw [fromStr, (writes_toJson hentries).parse_text (by decide), Option.bind_some,
    fromJson_toJson hentries]

/-- What is written to the wire and to the journal is read back as it was, whatever its strings
hold, and takes one line. -/
theorem wire_round_trips {messages : List ClientMessage} (hm : ∀ m ∈ messages, m.Fits)
    {peers : List PeerRecord} (hp : ∀ p ∈ peers, p.Fits)
    {claims : List ClaimRecord} (hc : ∀ c ∈ claims, c.Fits)
    {state : DurableState} {claimEntries : List (String × ClaimRecord)}
    {intentEntries : List (String × StickyIntent)}
    (hclaims : Table.Enumerates state.claims claimEntries)
    (hintents : Table.Enumerates state.intents intentEntries)
    (hstate : ∀ path claim, state.claims.lookup path = some claim → claim.Fits) :
    (∀ m ∈ messages, Encodes ClientMessage.fromStr m.toJson.text m ∧ Unbroken m.toJson.text) ∧
      (∀ m ∈ messages, ∀ m' ∈ messages, m.toJson.text = m'.toJson.text → m = m') ∧
      ClientMessage.receive (Lines.write (messages.map (fun m => m.toJson.text))) =
        some messages ∧
      vecFromStr PeerRecord.fromJson (Json.array (peers.map PeerRecord.toJson)).text =
        some peers ∧
      asVec? PeerRecord.fromJson (.array (peers.map PeerRecord.toValue)) = some peers ∧
      Unbroken (Json.array (peers.map PeerRecord.toJson)).text ∧
      vecFromStr ClaimRecord.fromJson (Json.array (claims.map ClaimRecord.toJson)).text =
        some claims ∧
      asVec? ClaimRecord.fromJson (.array (claims.map ClaimRecord.toValue)) = some claims ∧
      Unbroken (Json.array (claims.map ClaimRecord.toJson)).text ∧
      (∃ loaded, DurableState.fromStr (DurableState.toJson claimEntries intentEntries).text =
          some loaded ∧
        (∀ path, loaded.claims.lookup path = state.claims.lookup path) ∧
        ∀ sid, loaded.intents.lookup sid = state.intents.lookup sid) ∧
      Unbroken (DurableState.toJson claimEntries intentEntries).text := by
  refine ⟨fun m h => ⟨ClientMessage.encodes_text (hm m h), unbroken_text _⟩,
    fun m h m' h' => ClientMessage.text_inj (hm m h) (hm m' h'),
    ClientMessage.receive_write hm, ?_, ?_, unbroken_text _, ?_, ?_, unbroken_text _,
    DurableState.fromStr_text hclaims hintents hstate, unbroken_text _⟩
  · exact vecFromStr_text (fun p h => PeerRecord.fromJson_toJson (hp p h))
      (fun p h => PeerRecord.writes_toJson (hp p h)) (by decide)
  · exact Json.mapM_map (fun p h => PeerRecord.fromJson_toValue (hp p h))
  · exact vecFromStr_text (fun c h => ClaimRecord.fromJson_toJson (hc c h))
      (fun c h => ClaimRecord.writes_toJson (hc c h)) (by decide)
  · exact Json.mapM_map (fun c h => ClaimRecord.fromJson_toValue (hc c h))

def wireMessages : List ClientMessage :=
  [.heartbeat "Edit" none (some "") (some []), .heartbeat "Edit" none none none,
    .publish "notes" (.object [("k", .array [.string "a\n\"b\"", .number (-1), .null])]),
    .announce "s1" 7 "/w" "" none, .claimAcquire "/w/a" (2 ^ 64 - 1) "" true]

def wirePeer : PeerRecord :=
  ⟨"s1", 7, "/w", "", "", "", "p\t", [], 100, some "", [("k", .bool true)]⟩

def wireClaim : ClaimRecord := ⟨"/w/a", "s1", 200, 100, ""⟩

theorem wireMessages_fit : ∀ m ∈ wireMessages, m.Fits := by
  have hitems : ∀ x ∈ [Json.string "a\n\"b\"", .number (-1), .null], x.InRange ∧ x.Ordered := by
    simp only [List.forall_mem_cons, List.not_mem_nil, false_implies, implies_true, and_true]
    exact ⟨⟨.string _, .string _⟩, ⟨.number (by decide), .number _⟩, .null, .null⟩
  have hdata :
      (Json.object [("k", .array [.string "a\n\"b\"", .number (-1), .null])]).FitsUnder 1 :=
    ⟨.object (List.forall_mem_singleton.mpr (.array (fun x hx => (hitems x hx).1))),
      .object (List.pairwise_singleton _ _)
        (List.forall_mem_singleton.mpr (.array (fun x hx => (hitems x hx).2))), by decide⟩
  simp only [wireMessages, List.forall_mem_cons, List.not_mem_nil, false_implies, implies_true,
    and_true]
  exact ⟨trivial, trivial, hdata, (by decide : 7 < 2 ^ 32), (by decide : 2 ^ 64 - 1 < 2 ^ 64)⟩

theorem wirePeer_fits : wirePeer.Fits :=
  ⟨by decide, by decide, .object (List.forall_mem_singleton.mpr (.bool true)),
    .object (List.pairwise_singleton _ _) (List.forall_mem_singleton.mpr (.bool true)), by decide⟩

theorem enumerates_claim : Table.Enumerates ((∅ : Table String ClaimRecord).insert "/w/a" wireClaim)
    [("/w/a", wireClaim)] := by
  refine ⟨List.nodup_singleton _, fun k v => ?_⟩
  rw [Table.lookup_insert]
  by_cases h : k = "/w/a"
  · simp [h, eq_comm]
  · simp [h]

theorem enumerates_empty : Table.Enumerates (∅ : Table String StickyIntent) [] :=
  ⟨List.nodup_nil, fun k v => by simp⟩

theorem wire_round_trips_mixed :
    ClientMessage.receive (Lines.write (wireMessages.map (fun m => m.toJson.text))) =
        some wireMessages ∧
      vecFromStr PeerRecord.fromJson (Json.array ([wirePeer].map PeerRecord.toJson)).text =
        some [wirePeer] ∧
      ∃ loaded, DurableState.fromStr (DurableState.toJson [("/w/a", wireClaim)] []).text =
          some loaded ∧
        ∀ path, loaded.claims.lookup path =
          ((∅ : Table String ClaimRecord).insert "/w/a" wireClaim).lookup path := by
  have hclaim : wireClaim.Fits := ⟨by decide, by decide⟩
  have hstate : ∀ path claim, ((∅ : Table String ClaimRecord).insert "/w/a" wireClaim).lookup path =
      some claim → claim.Fits := by
    intro path claim h
    rw [Table.lookup_insert] at h
    split at h
    · cases h
      exact hclaim
    · cases h
  obtain ⟨_, _, hreceive, hpeers, _, _, _, _, _, ⟨loaded, hload, hsame, _⟩, _⟩ :=
    wire_round_trips wireMessages_fit (List.forall_mem_singleton.mpr wirePeer_fits)
      (List.forall_mem_singleton.mpr hclaim)
      (show Table.Enumerates (DurableState.mk
        ((∅ : Table String ClaimRecord).insert "/w/a" wireClaim) ∅).claims _ from enumerates_claim)
      enumerates_empty hstate
  exact ⟨hreceive, hpeers, loaded, hload, hsame⟩

end Agorabus
