import Agorabus.Reconnect
import Agorabus.Wire

namespace Agorabus

namespace OutLine

def toJson : OutLine → Json
  | reply r => r.toJson
  | event e => e.toJson
  | notice n => n.toJson

def text (l : OutLine) : String := l.toJson.text

/-- What the line carries is a value that a line can hold, and no data is not null. -/
def Fits : OutLine → Prop
  | reply r => ∀ v ∈ r.data, v.FitsUnder 1 ∧ v ≠ .null
  | event e => e.data.FitsUnder 1
  | notice n => n.resumeAfterMs < 2 ^ 64

def inbound : OutLine → Option InboundLine
  | reply r => some (.reply r)
  | event e => some (.event e)
  | notice _ => none

theorem writes_toJson {l : OutLine} (h : l.Fits) : Json.Writes 127 l.toJson := by
  have hpayload {v : Json} (hv : v.FitsUnder 1) : Json.Writes 126 v :=
    ⟨hv.inRange, Nat.le_of_lt_succ (Nat.lt_of_succ_lt_succ hv.depth_lt)⟩
  cases l with
  | reply r =>
    have herror : ∀ v ∈ r.error.map Json.string, Json.Writes 126 v := writes_map_string _ _
    have hdata : ∀ v ∈ r.data, Json.Writes 126 v := fun v hv => hpayload (h v hv).1
    refine Json.writes_present ?_
    simp only [Reply.fields, List.forall_mem_cons, Option.mem_def, Option.some.injEq,
      forall_eq', Json.writes_bool, true_and]
    exact ⟨herror, hdata, List.forall_mem_nil _⟩
  | event e =>
    refine Json.writes_present ?_
    simp [ServerEvent.fields, Json.writes_string, hpayload h]
  | notice n =>
    refine Json.writes_present ?_
    simp [DrainNotice.fields, Json.writes_string, Json.writes_nat _ (show _ < 2 ^ 64 from h)]

theorem fromStr_text {l : OutLine} (h : l.Fits) : InboundLine.fromStr l.text = l.inbound := by
  rw [InboundLine.fromStr, text, (writes_toJson h).parse_text (by decide), Option.bind_some]
  cases l with
  | reply r => exact InboundLine.fromJson_reply (fun v hv => ⟨(h v hv).1.ordered, (h v hv).2⟩)
  | event e => exact InboundLine.fromJson_event h.ordered
  | notice n => exact InboundLine.fromJson_notice n

theorem read_write (ls : List OutLine) : Lines.read (Lines.write (ls.map text)) = ls.map text := by
  refine Lines.read_write (fun t ht => ?_)
  obtain ⟨l, _, rfl⟩ := List.mem_map.mp ht
  exact unbroken_text l.toJson

end OutLine

namespace Demux

open StepSystem Reconnect
open Subscriber (events)

def nextEvent : List String → Except String (Option ServerEvent) × List String
  | [] => (.ok none, [])
  | line :: lines =>
    match InboundLine.fromStr line with
    | none => (.error "decoding inbound line", lines)
    | some (.event ev) => (.ok (some ev), lines)
    | some (.reply _) => nextEvent lines

def nextEvents : Nat → List String → List (Except String (Option ServerEvent))
  | 0, _ => []
  | n + 1, lines => (nextEvent lines).1 :: nextEvents n (nextEvent lines).2

def results (ls : List OutLine) : List (Except String (Option ServerEvent)) :=
  ls.filterMap (fun l => match l with
    | .event e => some (.ok (some e))
    | .reply _ => none
    | .notice _ => some (.error "decoding inbound line"))

variable {l : OutLine} {ls : List OutLine}

theorem nextEvent_reply {r : Reply} (h : (OutLine.reply r).Fits) (lines : List String) :
    nextEvent ((OutLine.reply r).text :: lines) = nextEvent lines := by
  rw [nextEvent, OutLine.fromStr_text h]
  rfl

theorem nextEvent_event {e : ServerEvent} (h : (OutLine.event e).Fits) (lines : List String) :
    nextEvent ((OutLine.event e).text :: lines) = (.ok (some e), lines) := by
  rw [nextEvent, OutLine.fromStr_text h]
  rfl

theorem nextEvent_notice {n : DrainNotice} (h : (OutLine.notice n).Fits) (lines : List String) :
    nextEvent ((OutLine.notice n).text :: lines) =
      (.error "decoding inbound line", lines) := by
  rw [nextEvent, OutLine.fromStr_text h]
  rfl

theorem nextEvents_nil (n : Nat) : nextEvents n [] = List.replicate n (Except.ok none) := by
  induction n with
  | zero => rfl
  | succ n ih => rw [nextEvents, nextEvent, ih, List.replicate_succ]

theorem nextEvents_reply {r : Reply} (h : (OutLine.reply r).Fits) (n : Nat)
    (lines : List String) :
    nextEvents n ((OutLine.reply r).text :: lines) = nextEvents n lines := by
  cases n with
  | zero => rfl
  | succ n => rw [nextEvents, nextEvents, nextEvent_reply h]

theorem nextEvents_text (h : ∀ l ∈ ls, l.Fits) (n : Nat) :
    nextEvents n (ls.map OutLine.text) =
      (results ls ++ List.replicate n (Except.ok none)).take n := by
  induction ls generalizing n with
  | nil =>
    rw [List.map_nil, nextEvents_nil, results, List.filterMap_nil, List.nil_append]
    exact (List.take_of_length_le (List.length_replicate ..).le).symm
  | cons l ls ih =>
    have hl := h l List.mem_cons_self
    have ih := ih (fun l' hl' => h l' (List.mem_cons_of_mem _ hl'))
    have hmore (n : Nat) : (results ls ++ List.replicate (n + 1) (Except.ok none)).take n =
        (results ls ++ List.replicate n (Except.ok none)).take n := by
      rw [List.replicate_succ', ← List.append_assoc, List.take_append_of_le_length]
      rw [List.length_append, List.length_replicate]
      exact Nat.le_add_left _ _
    rw [List.map_cons]
    cases l with
    | reply r => rw [nextEvents_reply hl, ih]; rfl
    | event e =>
      cases n with
      | zero => rfl
      | succ n =>
        rw [nextEvents, nextEvent_event hl, ih, ← hmore]
        rfl
    | notice d =>
      cases n with
      | zero => rfl
      | succ n =>
        rw [nextEvents, nextEvent_notice hl, ih, ← hmore]
        rfl

variable {sub : Subscription} {s t : State}

theorem readLoop_text (hsub : sub.fromStr = InboundLine.fromStr) (h : ∀ l ∈ ls, l.Fits) :
    ∃ done rest, events ls = done ++ rest ∧
      (readLoop sub s (ls.map OutLine.text)).handed = s.handed ++ done ∧
      ((readLoop sub s (ls.map OutLine.text)).result = none → rest = []) := by
  induction ls generalizing s with
  | nil => exact ⟨[], [], rfl, (List.append_nil _).symm, fun _ => rfl⟩
  | cons l ls ih =>
    have hl : sub.fromStr l.text = l.inbound := by
      rw [hsub, OutLine.fromStr_text (h l List.mem_cons_self)]
    have ih {s : State} := ih (fun l' hl' => h l' (List.mem_cons_of_mem _ hl')) (s := s)
    rw [List.map_cons, readLoop, hl]
    cases l with
    | reply | notice => exact ih
    | event e =>
      dsimp only [OutLine.inbound]
      split
      · rename_i hsome
        refine ⟨[e], events ls, rfl, rfl, fun hnone => ?_⟩
        rw [hnone] at hsome
        cases hsome
      · obtain ⟨done, rest, hevents, hhanded, hrest⟩ := ih
        refine ⟨e :: done, rest, ?_, ?_, hrest⟩
        · exact congrArg (e :: ·) hevents
        · rw [hhanded, hand, List.append_assoc, List.singleton_append]

/-- Each line is read as what it is, whatever it carries. From a stream of them, the calls of
`next_event` return the events and fail at the notices, and the loop of a subscriber is handed the
events, up to the one that it stops at. -/
theorem lines_demultiplexed (h : ∀ l ∈ ls, l.Fits)
    (hsub : sub.fromStr = InboundLine.fromStr) {its : List Iteration}
    (hr : run (step sub) .start its = some s) (hnone : s.result = none)
    (ht : t = readLoop sub { s with consecutiveFailures := 0, attempt := 0 }
      (Lines.read (Lines.write (ls.map OutLine.text)))) :
    (∀ l ∈ ls, InboundLine.fromStr l.text = l.inbound) ∧
      (∀ n, nextEvents n (Lines.read (Lines.write (ls.map OutLine.text))) =
        (results ls ++ List.replicate n (Except.ok none)).take n) ∧
      ∃ done rest, events ls = done ++ rest ∧ t.handed = s.handed ++ done ∧
        (t.result = none ∧ rest = [] ∨ t.result = some (.ok ()) ∧
          ∃ before ev, t.handed = before ++ [ev] ∧ sub.Stops before ev) := by
  have hread := readLoop_reads ((run_counted hr).of_handed hnone rfl rfl :
    Counted sub { s with consecutiveFailures := 0, attempt := 0 }) hnone
    (ls.map OutLine.text)
  rw [OutLine.read_write] at ht ⊢
  refine ⟨fun l hl => OutLine.fromStr_text (h l hl), nextEvents_text h, ?_⟩
  obtain ⟨done, rest, hevents, hhanded, hrest⟩ :=
    readLoop_text (s := { s with consecutiveFailures := 0, attempt := 0 }) hsub h
  rw [← ht] at hread hhanded hrest
  refine ⟨done, rest, hevents, hhanded, ?_⟩
  obtain hnone | hstop := hread.result
  · exact Or.inl ⟨hnone, hrest hnone⟩
  · exact Or.inr hstop

def demuxLines : List OutLine :=
  [.event ⟨"notes", .object [("ok", .bool true)], "s2"⟩,
    .reply ⟨true, none, some (.object [("data", .null), ("from", .string "s2"),
      ("topic", .string "notes")])⟩,
    .notice (DrainNotice.new 250), .event ⟨"", .null, ""⟩]

theorem demuxLines_fit : ∀ l ∈ demuxLines, l.Fits := by
  have hflag : (Json.object [("ok", .bool true)]).FitsUnder 1 :=
    ⟨.object (List.forall_mem_singleton.mpr (.bool true)),
      .object (List.pairwise_singleton _ _) (List.forall_mem_singleton.mpr (.bool true)),
      by decide⟩
  have hfields : ∀ f ∈ [("data", Json.null), ("from", .string "s2"),
      ("topic", .string "notes")], f.2.InRange ∧ f.2.Ordered := by
    simp only [List.forall_mem_cons, List.not_mem_nil, false_implies, implies_true, and_true]
    exact ⟨⟨.null, .null⟩, ⟨.string _, .string _⟩, .string _, .string _⟩
  have hevent : (Json.object [("data", .null), ("from", .string "s2"),
      ("topic", .string "notes")]).FitsUnder 1 :=
    ⟨.object (fun f hf => (hfields f hf).1),
      .object (by decide) (fun f hf => (hfields f hf).2), by decide⟩
  simp only [demuxLines, List.forall_mem_cons, List.not_mem_nil, false_implies, implies_true,
    and_true]
  refine ⟨hflag, fun v hv => ?_, (by decide : 250 < 2 ^ 64), ⟨.null, .null, by decide⟩⟩
  cases hv
  exact ⟨hevent, Json.noConfusion⟩

def demuxSubscription : Subscription where
  sessionId := "s1"
  maxEvents := 0
  reconnect := true
  cfg := ⟨100, 5000, 0⟩
  fromStr := InboundLine.fromStr
  onEvent := fun _ _ => true

theorem lines_demultiplexed_mixed :
    nextEvents 4 (Lines.read (Lines.write (demuxLines.map OutLine.text))) =
        [.ok (some ⟨"notes", .object [("ok", .bool true)], "s2"⟩),
          .error "decoding inbound line", .ok (some ⟨"", .null, ""⟩), .ok none] ∧
      ∃ done rest, events demuxLines = done ++ rest ∧
        (readLoop demuxSubscription .start
          (Lines.read (Lines.write (demuxLines.map OutLine.text)))).handed = done := by
  have hstart : run (step demuxSubscription) .start [] = some .start := rfl
  obtain ⟨_, hcalls, done, rest, hevents, hhanded, _⟩ :=
    lines_demultiplexed demuxLines_fit rfl hstart rfl rfl
  exact ⟨hcalls 4, done, rest, hevents, hhanded⟩

end Demux

end Agorabus
