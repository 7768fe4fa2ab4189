import Agorabus.Client

namespace Agorabus

open Daemon StepSystem

/-- Where the owner of a guard is: in `hold`, past it, in `release`, or without a guard, with or
without `release` having returned `Ok`. -/
inductive Owner where
  | acquiring
  | held
  | releasing
  | awaiting
  | released
  | gone
  deriving DecidableEq

/-- Where the renew task is. It carries the expiry it asks for, and the number of a connection it
has opened. -/
inductive RenewPc where
  | unborn
  | sleeping
  | locking (ttlUnixSecs : Nat)
  | renewing (ttlUnixSecs : Nat)
  | connecting (ttlUnixSecs : Nat)
  | connected (i ttlUnixSecs : Nat)
  | announcing (i ttlUnixSecs : Nat)
  | announced (i ttlUnixSecs : Nat)
  | acquiring (i : Nat)
  | swapping (i : Nat)
  | cancelled
  deriving DecidableEq

inductive DropPc where
  | unborn
  | locking
  | awaiting
  | done
  deriving DecidableEq

/-- A claim guard with its tasks. The tasks share the client; the other connections are those that
the renew task has opened, or the client was before. -/
structure ClaimGuard where
  sessionId : String
  path : String
  ttl : Nat
  pid : Nat
  client : Nat
  connections : List Nat
  owner : Owner
  renew : RenewPc
  aborted : Bool
  dropTask : DropPc

/-- Every step of a guard is one of its owner or of one of its tasks, up to the next point where
that one awaits. -/
inductive GuardAction where
  | holdReply
  | release
  | sendRelease
  | releaseReply
  | drop
  | wake (now : Nat)
  | sendRenewal
  | renewalReply
  | connect
  | sendAnnounce
  | announceReply
  | sendReacquire
  | reacquireReply
  | swap
  | cancel
  | sendDropRelease
  | dropReply
  deriving DecidableEq

namespace ClaimGuard

/-- Somebody has the client: a request is under way on it. -/
def locked (g : ClaimGuard) : Bool :=
  match g.owner, g.renew, g.dropTask with
  | .awaiting, _, _ | _, .renewing _, _ | _, _, .awaiting => true
  | _, _, _ => false

def acquire (g : ClaimGuard) (ttlUnixSecs : Nat) (reason : String) : ClientMessage :=
  .claimAcquire g.path ttlUnixSecs reason false

def hold (i : Nat) (sid path : String) (ttl pid : Nat) : ClaimGuard :=
  ⟨sid, path, ttl, pid, i, [i], .acquiring, .unborn, false, .unborn⟩

def expiry (now ttl : Nat) : Nat := now + max ttl 1

/-- A step of a guard, with what it does to one of its clients. Aborting the renew task takes
effect only where it has to wait, so until it is cancelled it may go on. -/
def step (n : Net) (g : ClaimGuard) : GuardAction → Option (Option NetAction × ClaimGuard)
  | .holdReply =>
      if g.owner = .acquiring then
        n.reading g.client (fun r =>
          if r.any (·.ok) then { g with owner := .held, renew := .sleeping }
          else { g with owner := .gone })
      else none
  | .release =>
      if g.owner = .held then some (none, { g with owner := .releasing, aborted := true })
      else none
  | .sendRelease =>
      if g.owner = .releasing ∧ g.locked = false then
        some (n.sending g.client (.claimRelease g.path) { g with owner := .awaiting }
          { g with owner := .gone, dropTask := .locking })
      else none
  | .releaseReply =>
      if g.owner = .awaiting then
        n.reading g.client (fun r =>
          { g with owner := if r.isSome then .released else .gone, dropTask := .locking })
      else none
  | .drop =>
      if g.owner = .held ∨ g.owner = .releasing ∨ g.owner = .awaiting then
        some (none, { g with owner := .gone, aborted := true, dropTask := .locking })
      else none
  | .wake now =>
      if g.renew = .sleeping then some (none, { g with renew := .locking (expiry now g.ttl) })
      else none
  | .sendRenewal =>
      match g.renew with
      | .locking ttl =>
          if g.locked then none
          else some (n.sending g.client (g.acquire ttl "claim-guard-renew")
            { g with renew := .renewing ttl } { g with renew := .connecting ttl })
      | _ => none
  | .renewalReply =>
      match g.renew with
      | .renewing ttl =>
          n.reading g.client (fun r =>
            { g with renew := if r.any (·.ok) then .sleeping else .connecting ttl })
      | _ => none
  | .connect =>
      match g.renew with
      | .connecting ttl =>
          some (if n.daemon.main.isServing then
            (some .connect, { g with
              connections := g.connections ++ [n.clients.length]
              renew := .connected n.clients.length ttl })
          else (none, { g with renew := .sleeping }))
      | _ => none
  | .sendAnnounce =>
      match g.renew with
      | .connected i ttl =>
          some (n.sending i (.announce g.sessionId g.pid "/" "claim-guard-renew" none)
            { g with renew := .announcing i ttl } { g with renew := .sleeping })
      | _ => none
  | .announceReply =>
      match g.renew with
      | .announcing i ttl =>
          n.reading i (fun r =>
            { g with renew := if r.isSome then .announced i ttl else .sleeping })
      | _ => none
  | .sendReacquire =>
      match g.renew with
      | .announced i ttl =>
          some (n.sending i (g.acquire ttl "claim-guard-reconnect-renew")
            { g with renew := .acquiring i } { g with renew := .sleeping })
      | _ => none
  | .reacquireReply =>
      match g.renew with
      | .acquiring i =>
          n.reading i (fun r => { g with renew := if r.any (·.ok) then .swapping i else .sleeping })
      | _ => none
  | .swap =>
      match g.renew with
      | .swapping i =>
          if g.locked then none else some (none, { g with client := i, renew := .sleeping })
      | _ => none
  | .cancel =>
      if g.aborted ∧ g.renew ≠ .unborn then some (none, { g with renew := .cancelled }) else none
  | .sendDropRelease =>
      if g.dropTask = .locking ∧ g.locked = false then
        some (n.sending g.client (.claimRelease g.path) { g with dropTask := .awaiting }
          { g with dropTask := .done })
      else none
  | .dropReply =>
      if g.dropTask = .awaiting then n.reading g.client (fun _ => { g with dropTask := .done })
      else none

end ClaimGuard

structure GuardedNet where
  net : Net
  guards : List ClaimGuard

inductive GuardedAction where
  | net (a : NetAction)
  | hold (i : Nat) (sid path : String) (ttl pid now : Nat)
  | guard (p : Nat) (a : GuardAction)

namespace GuardedAction

def ofGuard (p : Nat) : GuardedAction → Option GuardAction
  | .guard q a => if q = p then some a else none
  | _ => none

def serves : GuardedAction → Option Action
  | .net (.serve b) => some b
  | _ => none

def takes : GuardedAction → Option Nat
  | .net (.serve (.line c _ _)) => some c
  | _ => none

end GuardedAction

namespace GuardedNet

def start (file : DurableState) (log : List BroadcastMsg) (now : Nat) : GuardedNet :=
  ⟨.start file log now, []⟩

def owned (w : GuardedNet) (i : Nat) : Bool := w.guards.any (fun g => g.connections.contains i)

def session (w : GuardedNet) (i : Nat) : Option String := do
  let l ← w.net.clients[i]?
  let c ← l.conn
  let k ← w.net.daemon.conns[c]?
  k.sessionId

/-- What a step does to the net, and the guards after it. Whoever calls `hold` gives up a client
that has announced the session. -/
def acts (w : GuardedNet) : GuardedAction → Option (Option NetAction × List ClaimGuard)
  | .net a => if a.client.any w.owned then none else some (some a, w.guards)
  | .hold i sid path ttl pid now =>
      if w.session i = some sid ∧ w.owned i = false then
        let g := ClaimGuard.hold i sid path ttl pid
        (w.net.trySend i (g.acquire (ClaimGuard.expiry now ttl) "claim-guard")).map
          (fun a => (some a, w.guards ++ [g]))
      else none
  | .guard p a => do
      let g ← w.guards[p]?
      let (b, g) ← g.step w.net a
      some (b, w.guards.set p g)

def step (cfg : Config) (fromStr : String → Option ClientMessage) (w : GuardedNet)
    (a : GuardedAction) : Option GuardedNet := do
  let (b, gs) ← w.acts a
  let n ← b.elim (some w.net) (w.net.step cfg fromStr)
  some ⟨n, gs⟩

end GuardedNet

def RenewPc.conn : RenewPc → Option Nat
  | .connected i _ | .announcing i _ | .announced i _ | .acquiring i | .swapping i => some i
  | _ => none

namespace ClaimGuard

def message (g : ClaimGuard) : GuardAction → Option (Nat × ClientMessage)
  | .sendRelease | .sendDropRelease => some (g.client, .claimRelease g.path)
  | .sendRenewal =>
      match g.renew with
      | .locking ttl => some (g.client, g.acquire ttl "claim-guard-renew")
      | _ => none
  | .sendAnnounce =>
      match g.renew with
      | .connected i _ => some (i, .announce g.sessionId g.pid "/" "claim-guard-renew" none)
      | _ => none
  | .sendReacquire =>
      match g.renew with
      | .announced i ttl => some (i, g.acquire ttl "claim-guard-reconnect-renew")
      | _ => none
  | _ => none

variable {n : Net} {g g' : ClaimGuard} {a : GuardAction} {b : Option NetAction}

theorem message_client {i : Nat} {m : ClientMessage} (h : g.message a = some (i, m)) :
    i = g.client ∨ g.renew.conn = some i := by
  cases a <;> simp only [message] at h
  case sendRelease | sendDropRelease =>
    cases h
    exact Or.inl rfl
  case sendRenewal =>
    split at h <;> cases h
    exact Or.inl rfl
  case sendAnnounce | sendReacquire =>
    split at h
    · rename_i hr
      cases h
      exact Or.inr (by rw [hr]; rfl)
    · cases h
  all_goals cases h

def Speaks (g : ClaimGuard) (i : Nat) : Prop :=
  i = g.client ∨ (g.renew.conn = some i ∧ ∀ ttl, g.renew ≠ .connected i ttl)

theorem message_speaks {i : Nat} {m : ClientMessage} (h : g.message a = some (i, m)) :
    m = .announce g.sessionId g.pid "/" "claim-guard-renew" none ∨ g.Speaks i := by
  cases a <;> simp only [message] at h
  case sendRelease | sendDropRelease =>
    cases h
    exact Or.inr (Or.inl rfl)
  case sendRenewal =>
    split at h <;> cases h
    exact Or.inr (Or.inl rfl)
  case sendAnnounce =>
    split at h <;> cases h
    exact Or.inl rfl
  case sendReacquire =>
    split at h
    · rename_i hr
      cases h
      exact Or.inr (Or.inr ⟨by rw [hr]; rfl, by simp [hr]⟩)
    · cases h
  all_goals cases h

structure Steps (n : Net) (g : ClaimGuard) (a : GuardAction) (b : Option NetAction)
    (g' : ClaimGuard) : Prop where
  session : g'.sessionId = g.sessionId
  path : g'.path = g.path
  action : b = none ∨ (∃ i, b = some (.read i) ∧ (i = g.client ∨ g.renew.conn = some i)) ∨
    (∃ i m, b = some (.send i m) ∧ g.message a = some (i, m)) ∨ b = some .connect
  connections : (b ≠ some .connect ∧ g'.connections = g.connections ∧
      (g'.renew.conn = g.renew.conn ∨ g'.renew.conn = none)) ∨
    (b = some .connect ∧ g'.connections = g.connections ++ [n.clients.length] ∧
      g'.renew.conn = some n.clients.length)
  client : g'.client = g.client ∨ (g.renew.conn = some g'.client ∧ g.locked = false)
  speaks : ∀ i, g'.Speaks i → g.Speaks i ∨
    b = some (.send i (.announce g.sessionId g.pid "/" "claim-guard-renew" none))
  released : g.owner = .released → g'.owner = .released
  dropped : g.owner = .released → g.dropTask = .awaiting ∨ g.dropTask = .done →
    g'.dropTask = .awaiting ∨ g'.dropTask = .done
  awaiting : g'.owner = .awaiting → g.owner = .awaiting ∨
    (a = .sendRelease ∧ b = some (.send g.client (.claimRelease g.path)) ∧ g'.client = g.client)
  returned : g'.owner = .released → g.owner = .released ∨
    (g.owner = .awaiting ∧ ∃ r, n.readReply g.client = some (b, some r))
  releasing : a = .sendRelease → g.owner = .releasing
  dropping : a = .sendDropRelease → g.dropTask = .locking ∧ g.locked = false

theorem steps (h : g.step n a = some (b, g')) : Steps n g a b g' := by
  cases a with
  | holdReply =>
    simp only [step, Option.ite_none_right_eq_some, Net.reading_eq] at h
    obtain ⟨ho, r, hr, rfl⟩ := h
    obtain rfl | rfl := Net.readReply_action hr <;> constructor <;> (try split) <;>
      simp_all [RenewPc.conn, Speaks]
  | release =>
    simp only [step, Option.ite_none_right_eq_some, Option.some.injEq, Prod.mk.injEq] at h
    obtain ⟨ho, rfl, rfl⟩ := h
    constructor <;> simp_all [Speaks]
  | sendRelease =>
    simp only [step, Option.ite_none_right_eq_some, Option.some.injEq] at h
    obtain ⟨ho, h⟩ := h
    obtain ⟨rfl, rfl⟩ | ⟨rfl, rfl⟩ := Net.sending_eq h <;> constructor <;>
      simp_all [message, Speaks]
  | releaseReply =>
    simp only [step, Option.ite_none_right_eq_some, Net.reading_eq] at h
    obtain ⟨ho, r, hr, rfl⟩ := h
    obtain rfl | rfl := Net.readReply_action hr <;> cases r <;> constructor <;> simp_all [Speaks]
  | drop =>
    simp only [step, Option.ite_none_right_eq_some, Option.some.injEq, Prod.mk.injEq] at h
    obtain ⟨ho | ho | ho, rfl, rfl⟩ := h <;> constructor <;> simp_all [Speaks]
  | wake now =>
    simp only [step, Option.ite_none_right_eq_some, Option.some.injEq, Prod.mk.injEq] at h
    obtain ⟨ho, rfl, rfl⟩ := h
    constructor <;> simp_all [RenewPc.conn, Speaks]
  | sendRenewal =>
    simp only [step] at h
    split at h
    · rename_i ttl hr
      split at h
      · cases h
      · rw [Option.some.injEq] at h
        obtain ⟨rfl, rfl⟩ | ⟨rfl, rfl⟩ := Net.sending_eq h <;> constructor <;>
          simp_all [message, RenewPc.conn, Speaks]
    · cases h
  | renewalReply =>
    simp only [step] at h
    split at h
    · rename_i ttl hn
      obtain ⟨r, hr, rfl⟩ := Net.reading_eq.mp h
      obtain rfl | rfl := Net.readReply_action hr <;> constructor <;> (try split) <;>
        simp_all [RenewPc.conn, Speaks]
    · cases h
  | connect =>
    simp only [step] at h
    split at h
    · rename_i ttl hn
      split at h <;> cases h <;> constructor <;> simp_all [RenewPc.conn, Speaks]
    · cases h
  | sendAnnounce =>
    simp only [step] at h
    split at h
    · rename_i i ttl hr
      rw [Option.some.injEq] at h
      obtain ⟨rfl, rfl⟩ | ⟨rfl, rfl⟩ := Net.sending_eq h <;> constructor <;>
        simp_all [message, RenewPc.conn, Speaks]
    · cases h
  | announceReply =>
    simp only [step] at h
    split at h
    · rename_i i ttl hn
      obtain ⟨r, hr, rfl⟩ := Net.reading_eq.mp h
      obtain rfl | rfl := Net.readReply_action hr <;> cases r <;> constructor <;>
        simp_all [RenewPc.conn, Speaks]
    · cases h
  | sendReacquire =>
    simp only [step] at h
    split at h
    · rename_i i ttl hr
      rw [Option.some.injEq] at h
      obtain ⟨rfl, rfl⟩ | ⟨rfl, rfl⟩ := Net.sending_eq h <;> constructor <;>
        simp_all [message, RenewPc.conn, Speaks]
    · cases h
  | reacquireReply =>
    simp only [step] at h
    split at h
    · rename_i i hn
      obtain ⟨r, hr, rfl⟩ := Net.reading_eq.mp h
      obtain rfl | rfl := Net.readReply_action hr <;> constructor <;> (try split) <;>
        simp_all [RenewPc.conn, Speaks]
    · cases h
  | swap =>
    simp only [step] at h
    split at h
    · rename_i i hn
      split at h
      · cases h
      · cases h
        constructor <;> simp_all [RenewPc.conn, Speaks]
    · cases h
  | cancel =>
    simp only [step, Option.ite_none_right_eq_some, Option.some.injEq, Prod.mk.injEq] at h
    obtain ⟨ho, rfl, rfl⟩ := h
    constructor <;> simp_all [RenewPc.conn, Speaks]
  | sendDropRelease =>
    simp only [step, Option.ite_none_right_eq_some, Option.some.injEq] at h
    obtain ⟨ho, h⟩ := h
    obtain ⟨rfl, rfl⟩ | ⟨rfl, rfl⟩ := Net.sending_eq h <;> constructor <;>
      simp_all [message, Speaks]
  | dropReply =>
    simp only [step, Option.ite_none_right_eq_some, Net.reading_eq] at h
    obtain ⟨ho, r, hr, rfl⟩ := h
    obtain rfl | rfl := Net.readReply_action hr <;> constructor <;> simp_all [Speaks]

theorem client_kept (h : g.step n a = some (b, g')) (ha : a ≠ .swap) : g'.client = g.client := by
  cases a with
  | swap => exact absurd rfl ha
  | holdReply =>
    simp only [step, Option.ite_none_right_eq_some, Net.reading_eq] at h
    obtain ⟨_, r, _, rfl⟩ := h
    split <;> rfl
  | releaseReply | dropReply =>
    simp only [step, Option.ite_none_right_eq_some, Net.reading_eq] at h
    obtain ⟨_, r, _, rfl⟩ := h
    rfl
  | release | drop | wake | cancel =>
    simp only [step, Option.ite_none_right_eq_some, Option.some.injEq, Prod.mk.injEq] at h
    obtain ⟨_, _, rfl⟩ := h
    rfl
  | sendRelease | sendDropRelease =>
    simp only [step, Option.ite_none_right_eq_some, Option.some.injEq] at h
    obtain ⟨_, rfl⟩ | ⟨_, rfl⟩ := Net.sending_eq h.2 <;> rfl
  | sendRenewal =>
    simp only [step] at h
    split at h
    · rw [Option.ite_none_left_eq_some, Option.some.injEq] at h
      obtain ⟨_, rfl⟩ | ⟨_, rfl⟩ := Net.sending_eq h.2 <;> rfl
    · cases h
  | sendAnnounce | sendReacquire =>
    simp only [step] at h
    split at h
    · obtain ⟨_, rfl⟩ | ⟨_, rfl⟩ := Net.sending_eq (Option.some.inj h) <;> rfl
    · cases h
  | renewalReply | announceReply | reacquireReply =>
    simp only [step] at h
    split at h
    · obtain ⟨r, _, rfl⟩ := Net.reading_eq.mp h
      rfl
    · cases h
  | connect =>
    simp only [step] at h
    split at h
    · split at h <;> cases h <;> rfl
    · cases h

theorem conn_ne_client (h : g.step n a = some (b, g')) (hlt : g.client < n.clients.length)
    (hne : g.renew.conn ≠ some g.client) : g'.renew.conn ≠ some g'.client := by
  by_cases ha : a = .swap
  · subst ha
    simp only [step] at h
    split at h
    · rw [Option.ite_none_left_eq_some] at h
      cases h.2
      nofun
    · cases h
  · rw [client_kept h ha]
    obtain ⟨_, _, he | he⟩ | ⟨_, _, he⟩ := (steps h).connections
    · rw [he]
      exact hne
    · rw [he]
      nofun
    · rw [he]
      exact fun hc => absurd (Option.some.inj hc) (Nat.ne_of_gt hlt)

theorem message_unlocked {i : Nat} {m : ClientMessage} (h : g.step n a = some (b, g'))
    (hm : g.message a = some (i, m)) : g.locked = false ∨ g.renew.conn = some i := by
  cases a with
  | sendRelease | sendDropRelease =>
    simp only [step, Option.ite_none_right_eq_some] at h
    exact Or.inl h.1.2
  | sendRenewal =>
    simp only [step] at h
    split at h
    · rw [Option.ite_none_left_eq_some, Bool.not_eq_true] at h
      exact Or.inl h.1
    · cases h
  | sendAnnounce | sendReacquire =>
    simp only [message] at hm
    split at hm
    · rename_i hr
      cases hm
      exact Or.inr (by rw [hr]; rfl)
    · cases hm
  | _ => cases hm

end ClaimGuard

namespace Net

variable {cfg : Config} {fromStr : String → Option ClientMessage} {n n' : Net} {b : NetAction}

theorem step_length (h : n.step cfg fromStr b = some n') :
    (b = .connect ∧ n'.clients.length = n.clients.length + 1) ∨
      (b ≠ .connect ∧ n'.clients.length = n.clients.length) := by
  cases b with
  | serve a =>
    obtain ⟨_, t, _, rfl⟩ := step_serve.mp h
    exact Or.inr ⟨(fun h => by cases h), by simp⟩
  | connect =>
    obtain ⟨t, _, rfl⟩ := step_connect.mp h
    exact Or.inl ⟨rfl, by simp⟩
  | send i m =>
    obtain ⟨l, _, _, rfl⟩ := step_send.mp h
    exact Or.inr ⟨(fun h => by cases h), by simp [setClient]⟩
  | read i =>
    obtain ⟨l, x, xs, _, _, rfl⟩ := step_read.mp h
    exact Or.inr ⟨(fun h => by cases h), by simp [setClient]⟩

end Net

namespace GuardedNet

variable {cfg : Config} {fromStr : String → Option ClientMessage} {w w' : GuardedNet}
  {a : GuardedAction} {p i : Nat} {g : ClaimGuard} {l : Client}

theorem step_acts (h : step cfg fromStr w a = some w') : ∃ b, w.acts a = some (b, w'.guards) ∧
    ((∃ b', b = some b' ∧ w.net.step cfg fromStr b' = some w'.net) ∨
      (b = none ∧ w'.net = w.net)) := by
  simp only [step, Option.bind_eq_bind, Option.bind_eq_some_iff] at h
  obtain ⟨⟨b, gs⟩, hb, n, hn, he⟩ := h
  cases he
  refine ⟨b, hb, ?_⟩
  cases b with
  | none =>
    cases hn
    exact Or.inr ⟨rfl, rfl⟩
  | some b' => exact Or.inl ⟨b', rfl, hn⟩

theorem net_invariant {I : Net → Prop}
    (hstep : ∀ n b n', I n → Net.step cfg fromStr n b = some n' → I n')
    (h : step cfg fromStr w a = some w') (hi : I w.net) : I w'.net := by
  obtain ⟨b, _, ⟨b', _, hn⟩ | ⟨_, hn⟩⟩ := step_acts h
  · exact hstep _ b' _ hi hn
  · rw [hn]
    exact hi

theorem step_net {b : NetAction} (h : step cfg fromStr w (.net b) = some w') :
    b.client.any w.owned = false ∧ w.net.step cfg fromStr b = some w'.net ∧
      w'.guards = w.guards := by
  simp only [step, acts, Option.bind_eq_bind, Option.bind_eq_some_iff] at h
  obtain ⟨⟨b', gs⟩, hb, n, hn, he⟩ := h
  split at hb
  · cases hb
  · rename_i ho
    cases hb
    cases he
    exact ⟨by simpa using ho, hn, rfl⟩

theorem acts_guards {b : Option NetAction} {gs : List ClaimGuard}
    (h : w.acts a = some (b, gs)) :
    (∃ a', a = .net a' ∧ gs = w.guards ∧ b = some a' ∧ a'.client.any w.owned = false) ∨
    (∃ i sid path ttl pid now, a = .hold i sid path ttl pid now ∧
      gs = w.guards ++ [ClaimGuard.hold i sid path ttl pid] ∧ w.session i = some sid ∧
      w.owned i = false ∧ b = some (.send i
        ((ClaimGuard.hold i sid path ttl pid).acquire (ClaimGuard.expiry now ttl) "claim-guard"))) ∨
    ∃ p a' g g', a = .guard p a' ∧ w.guards[p]? = some g ∧ gs = w.guards.set p g' ∧
      ClaimGuard.Steps w.net g a' b g' := by
  cases a with
  | net a' =>
    simp only [acts] at h
    split at h
    · cases h
    · rename_i ho
      cases h
      exact Or.inl ⟨a', rfl, rfl, rfl, by simpa using ho⟩
  | hold i sid path ttl pid now =>
    simp only [acts] at h
    split at h
    · rename_i ho
      obtain ⟨b', hb, he⟩ := Option.map_eq_some_iff.mp h
      obtain hs | hs := Net.trySend_eq w.net i
        ((ClaimGuard.hold i sid path ttl pid).acquire (ClaimGuard.expiry now ttl) "claim-guard")
      · rw [hs] at hb
        cases hb
      · rw [hs] at hb
        cases hb
        cases he
        exact Or.inr (Or.inl ⟨i, sid, path, ttl, pid, now, rfl, rfl, ho.1, ho.2, rfl⟩)
    · cases h
  | guard p a' =>
    simp only [acts, Option.bind_eq_bind, Option.bind_eq_some_iff] at h
    obtain ⟨g, hg, ⟨b', g'⟩, hs, he⟩ := h
    cases he
    exact Or.inr (Or.inr ⟨p, a', g, g', rfl, hg, rfl, ClaimGuard.steps hs⟩)

theorem step_guard {a' : GuardAction} (h : step cfg fromStr w (.guard p a') = some w') :
    ∃ g b g', w.guards[p]? = some g ∧ g.step w.net a' = some (b, g') ∧
      w'.guards = w.guards.set p g' := by
  obtain ⟨b, hb, _⟩ := step_acts h
  simp only [acts, Option.bind_eq_bind, Option.bind_eq_some_iff] at hb
  obtain ⟨g, hg, ⟨b', g'⟩, hs, he⟩ := hb
  obtain ⟨rfl, hgs⟩ := Prod.mk.inj (Option.some.inj he)
  exact ⟨g, b', g', hg, hs, hgs.symm⟩

theorem step_serve {b : Action} {i : Nat} {l : Client}
    (h : step cfg fromStr w (.net (.serve b)) = some w') (hl : w.net.clients[i]? = some l) :
    w.net.daemon.step cfg fromStr b = some w'.net.daemon ∧ l.fits fromStr b = true ∧
      w'.net.clients[i]? = some (l.served w.net.daemon b) := by
  obtain ⟨_, hn, _⟩ := step_net h
  obtain ⟨hfit, t, ht, hn⟩ := Net.step_serve.mp hn
  rw [← hn]
  exact ⟨ht, hfit l (List.mem_of_getElem? hl), by rw [List.getElem?_map, hl]; rfl⟩

theorem step_daemon (h : step cfg fromStr w a = some w') :
    (∃ b, (a.serves = some b ∨ (a.serves = none ∧ b = .connect)) ∧
      w.net.daemon.step cfg fromStr b = some w'.net.daemon) ∨
    (a.serves = none ∧ w'.net.daemon = w.net.daemon) := by
  obtain ⟨b, hb, hn⟩ := step_acts h
  have effect (hs : a.serves = none) (hd : ∀ b', b = some b' → b'.daemon? = none ∨
      b'.daemon? = some .connect) : (∃ b, (a.serves = some b ∨ (a.serves = none ∧ b = .connect)) ∧
        w.net.daemon.step cfg fromStr b = some w'.net.daemon) ∨
      (a.serves = none ∧ w'.net.daemon = w.net.daemon) := by
    obtain ⟨b', rfl, hn⟩ | ⟨_, hn⟩ := hn
    · obtain ⟨x, hx, ht⟩ | ⟨_, hd'⟩ := Net.step_daemon hn
      · obtain he | he := hd b' rfl
        · rw [he] at hx
          cases hx
        · obtain rfl := Option.some.inj (he.symm.trans hx)
          exact Or.inl ⟨_, Or.inr ⟨hs, rfl⟩, ht⟩
      · exact Or.inr ⟨hs, hd'⟩
    · exact Or.inr ⟨hs, by rw [hn]⟩
  obtain ⟨a', rfl, _, rfl, _⟩ | ⟨i, sid, path, ttl, pid, now, rfl, _, _, _, rfl⟩ |
    ⟨p, a', g, g', rfl, _, _, hst⟩ := acts_guards hb
  · cases a' with
    | serve x =>
      obtain ⟨_, hn, _⟩ := step_net h
      obtain ⟨y, hy, ht⟩ | ⟨hy, _⟩ := Net.step_daemon hn
      · cases hy
        exact Or.inl ⟨x, Or.inl rfl, ht⟩
      · cases hy
    | connect =>
      refine effect rfl (fun b' hb' => ?_)
      cases hb'
      exact Or.inr rfl
    | send i m | read i =>
      refine effect rfl (fun b' hb' => ?_)
      cases hb'
      exact Or.inl rfl
  · refine effect rfl (fun b' hb' => ?_)
    cases hb'
    exact Or.inl rfl
  · refine effect rfl (fun b' hb' => ?_)
    obtain he | ⟨_, he, _⟩ | ⟨_, _, he, _⟩ | he := hst.action
    · rw [he] at hb'
      cases hb'
    · rw [he] at hb'
      cases hb'
      exact Or.inl rfl
    · rw [he] at hb'
      cases hb'
      exact Or.inl rfl
    · rw [he] at hb'
      cases hb'
      exact Or.inr rfl

structure Separate (w : GuardedNet) : Prop where
  inRange : ∀ g ∈ w.guards, ∀ i ∈ g.connections, i < w.net.clients.length
  apart : ∀ (p q : Nat) (g h : ClaimGuard) (i : Nat), w.guards[p]? = some g →
    w.guards[q]? = some h → i ∈ g.connections → i ∈ h.connections → p = q
  client : ∀ g ∈ w.guards, g.client ∈ g.connections
  renew : ∀ g ∈ w.guards, ∀ i, g.renew.conn = some i → i ∈ g.connections

theorem not_mem_of_not_owned (h : w.owned i = false) (hg : g ∈ w.guards) : i ∉ g.connections := by
  intro hi
  simp only [owned, List.any_eq_false, List.contains_iff_mem] at h
  exact h g hg hi

theorem clients_grow (h : step cfg fromStr w a = some w') :
    w.net.clients.length ≤ w'.net.clients.length := by
  refine net_invariant (I := fun n => w.net.clients.length ≤ n.clients.length) ?_ h (Nat.le_refl _)
  intro n b n' hn hb
  obtain ⟨_, hl⟩ | ⟨_, hl⟩ := Net.step_length hb <;> omega

theorem getElem?_concat {gs : List ClaimGuard} {q : Nat} {h : ClaimGuard}
    (hq : (gs ++ [g])[q]? = some h) : gs[q]? = some h ∨ (q = gs.length ∧ h = g) := by
  obtain hlt | hle := Nat.lt_or_ge q gs.length
  · rw [List.getElem?_append_left hlt] at hq
    exact Or.inl hq
  · rw [List.getElem?_append_right hle] at hq
    have hz : q - gs.length = 0 := by
      have := (List.getElem?_eq_some_iff.mp hq).1
      simpa using this
    rw [hz] at hq
    exact Or.inr ⟨by omega, (Option.some.inj hq).symm⟩

theorem getElem?_set_cases {gs : List ClaimGuard} {q : Nat} {h : ClaimGuard}
    (hq : (gs.set p g)[q]? = some h) : (q ≠ p ∧ gs[q]? = some h) ∨ (q = p ∧ h = g) := by
  by_cases he : q = p
  · subst he
    rw [List.getElem?_set_self'] at hq
    obtain ⟨_, _, rfl⟩ := Option.map_eq_some_iff.mp hq
    exact Or.inr ⟨rfl, rfl⟩
  · rw [List.getElem?_set_ne (Ne.symm he)] at hq
    exact Or.inl ⟨he, hq⟩

theorem guard_before (h : step cfg fromStr w a = some w') {g' : ClaimGuard}
    (hg' : w'.guards[p]? = some g') (ho : g'.owner ≠ .acquiring) :
    ∃ g, w.guards[p]? = some g := by
  cases hg : w.guards[p]? with
  | some g => exact ⟨g, rfl⟩
  | none =>
    obtain ⟨b, hb, _⟩ := step_acts h
    obtain ⟨_, _, hgs, _⟩ | ⟨_, _, _, _, _, _, _, hgs, _⟩ | ⟨_, _, _, _, _, hg₁, hgs, _⟩ :=
      acts_guards hb
    · rw [hgs, hg] at hg'
      cases hg'
    · rw [hgs] at hg'
      obtain hg' | ⟨_, rfl⟩ := getElem?_concat hg'
      · rw [hg] at hg'
        cases hg'
      · exact absurd rfl ho
    · rw [hgs] at hg'
      obtain ⟨_, hg'⟩ | ⟨rfl, _⟩ := getElem?_set_cases hg'
      · rw [hg] at hg'
        cases hg'
      · rw [hg] at hg₁
        cases hg₁

theorem separate_step (hs : Separate w) (h : step cfg fromStr w a = some w') : Separate w' := by
  have hgrow := clients_grow h
  obtain ⟨b, hb, hn⟩ := step_acts h
  obtain ⟨a', rfl, hgs, rfl, ho⟩ | ⟨i, sid, path, ttl, pid, now, rfl, hgs, _, ho, rfl⟩ |
    ⟨p, a', g, g', rfl, hg, hgs, hst⟩ := acts_guards hb
  · refine ⟨?_, ?_, ?_, ?_⟩ <;> rw [hgs]
    · exact fun g hg i hi => Nat.lt_of_lt_of_le (hs.inRange g hg i hi) hgrow
    · exact hs.apart
    · exact hs.client
    · exact hs.renew
  · -- the new guard gets a client that none had
    have hnew := fun g hg => not_mem_of_not_owned (w := w) (g := g) ho hg
    have hlt : i < w'.net.clients.length := by
      obtain ⟨b', hb', hn⟩ | ⟨hb', _⟩ := hn
      · cases hb'
        obtain ⟨l, hl, _⟩ := Net.step_send.mp hn
        exact Nat.lt_of_lt_of_le (List.getElem?_eq_some_iff.mp hl).1 hgrow
      · cases hb'
    refine ⟨?_, ?_, ?_, ?_⟩ <;> rw [hgs]
    · intro g hg j hj
      obtain hg | hg := List.mem_append.mp hg
      · exact Nat.lt_of_lt_of_le (hs.inRange g hg j hj) hgrow
      · rw [List.mem_singleton.mp hg] at hj
        rwa [List.mem_singleton.mp hj]
    · intro p q g h j hg hh hj hj'
      obtain hg | ⟨rfl, rfl⟩ := getElem?_concat hg
      · obtain hh | ⟨rfl, rfl⟩ := getElem?_concat hh
        · exact hs.apart p q g h j hg hh hj hj'
        · rw [List.mem_singleton.mp hj'] at hj
          exact absurd hj (hnew g (List.mem_of_getElem? hg))
      · obtain hh | ⟨rfl, rfl⟩ := getElem?_concat hh
        · rw [List.mem_singleton.mp hj] at hj'
          exact absurd hj' (hnew h (List.mem_of_getElem? hh))
        · rfl
    · intro g hg
      obtain hg | hg := List.mem_append.mp hg
      · exact hs.client g hg
      · rw [List.mem_singleton.mp hg]
        exact List.mem_singleton_self _
    · intro g hg j hj
      obtain hg | hg := List.mem_append.mp hg
      · exact hs.renew g hg j hj
      · rw [List.mem_singleton.mp hg] at hj
        cases hj
  · have hmem : g ∈ w.guards := List.mem_of_getElem? hg
    -- the connections of the guard, old and new
    have hconn : ∀ j ∈ g'.connections, j ∈ g.connections ∨
        (j = w.net.clients.length ∧ w.net.clients.length < w'.net.clients.length) := by
      intro j hj
      obtain ⟨_, he, _⟩ | ⟨hbc, he, _⟩ := hst.connections
      · exact Or.inl (he ▸ hj)
      · rw [he] at hj
        refine (List.mem_append.mp hj).imp_right (fun hj => ⟨List.mem_singleton.mp hj, ?_⟩)
        obtain ⟨b', hb', hn⟩ | ⟨hb', _⟩ := hn
        · obtain rfl := Option.some.inj (hbc.symm.trans hb')
          obtain ⟨_, hlen⟩ | ⟨hne, _⟩ := Net.step_length hn
          · omega
          · exact absurd rfl hne
        · rw [hbc] at hb'
          cases hb'
    have hkeep : ∀ j ∈ g.connections, j ∈ g'.connections := by
      intro j hj
      obtain ⟨_, he, _⟩ | ⟨_, he, _⟩ := hst.connections
      · exact he ▸ hj
      · exact he ▸ List.mem_append_left _ hj
    have hmine : ∀ q h j, q ≠ p → w.guards[q]? = some h → j ∈ h.connections →
        j ∉ g'.connections := by
      intro q h j hq hh hj hj'
      obtain hj' | ⟨rfl, _⟩ := hconn j hj'
      · exact hq (hs.apart q p h g j hh hg hj hj')
      · exact absurd (hs.inRange h (List.mem_of_getElem? hh) _ hj) (Nat.lt_irrefl _)
    refine ⟨?_, ?_, ?_, ?_⟩ <;> rw [hgs]
    · intro g₁ hg₁ j hj
      obtain hg₁ | rfl := List.mem_or_eq_of_mem_set hg₁
      · exact Nat.lt_of_lt_of_le (hs.inRange g₁ hg₁ j hj) hgrow
      · obtain hj | ⟨rfl, hlt⟩ := hconn j hj
        · exact Nat.lt_of_lt_of_le (hs.inRange g hmem j hj) hgrow
        · exact hlt
    · intro q r g₁ g₂ j h₁ h₂ hj hj'
      obtain ⟨hq, hg₁⟩ | ⟨hq, rfl⟩ := getElem?_set_cases h₁
      · obtain ⟨_, hg₂⟩ | ⟨_, rfl⟩ := getElem?_set_cases h₂
        · exact hs.apart q r g₁ g₂ j hg₁ hg₂ hj hj'
        · exact absurd hj' (hmine q g₁ j hq hg₁ hj)
      · obtain ⟨hr, hg₂⟩ | ⟨hr, _⟩ := getElem?_set_cases h₂
        · exact absurd hj (hmine r g₂ j hr hg₂ hj')
        · rw [hq, hr]
    · intro g₁ hg₁
      obtain hg₁ | rfl := List.mem_or_eq_of_mem_set hg₁
      · exact hs.client g₁ hg₁
      · obtain he | ⟨he, _⟩ := hst.client
        · rw [he]
          exact hkeep _ (hs.client g hmem)
        · exact hkeep _ (hs.renew g hmem _ he)
    · intro g₁ hg₁ j hj
      obtain hg₁ | rfl := List.mem_or_eq_of_mem_set hg₁
      · exact hs.renew g₁ hg₁ j hj
      · obtain ⟨_, _, he | he⟩ | ⟨_, he, hj'⟩ := hst.connections
        · exact hkeep j (hs.renew g hmem j (he ▸ hj))
        · rw [he] at hj
          cases hj
        · rw [hj'] at hj
          rw [he, ← Option.some.inj hj]
          exact List.mem_append_right _ (List.mem_singleton_self _)

def Apart (w : GuardedNet) : Prop := ∀ g ∈ w.guards, g.renew.conn ≠ some g.client

theorem apart_step (hs : Separate w) (ha : Apart w) (h : step cfg fromStr w a = some w') :
    Apart w' := by
  obtain ⟨b, hb, _⟩ := step_acts h
  obtain ⟨_, _, hgs, _⟩ | ⟨i, sid, path, ttl, pid, _, _, hgs, _⟩ | ⟨p, a', _, _, rfl, _⟩ :=
    acts_guards hb
  · rw [Apart, hgs]
    exact ha
  · intro g hg
    rw [hgs] at hg
    obtain hg | hg := List.mem_append.mp hg
    · exact ha g hg
    · rw [List.mem_singleton.mp hg]
      nofun
  · obtain ⟨g, b, g', hg, hst, hgs⟩ := step_guard h
    have hmem := List.mem_of_getElem? hg
    intro g₁ hg₁
    rw [hgs] at hg₁
    obtain hg₁ | rfl := List.mem_or_eq_of_mem_set hg₁
    · exact ha g₁ hg₁
    · exact ClaimGuard.conn_ne_client hst (hs.inRange g hmem _ (hs.client g hmem)) (ha g hmem)

theorem guard_step (h : step cfg fromStr w a = some w') (hg : w.guards[p]? = some g) :
    (w'.guards[p]? = some g ∧ ∀ a', a ≠ .guard p a') ∨
      ∃ a' b g', a = .guard p a' ∧ w'.guards[p]? = some g' ∧ ClaimGuard.Steps w.net g a' b g' ∧
        ((∃ b', b = some b' ∧ w.net.step cfg fromStr b' = some w'.net) ∨
          (b = none ∧ w'.net = w.net)) := by
  have hlt : p < w.guards.length := (List.getElem?_eq_some_iff.mp hg).1
  obtain ⟨b, hb, hn⟩ := step_acts h
  obtain ⟨a', rfl, hgs, _, _⟩ | ⟨i, sid, path, ttl, pid, now, rfl, hgs, _, _, _⟩ |
    ⟨q, a', g₁, g', rfl, hg₁, hgs, hst⟩ := acts_guards hb
  · exact Or.inl ⟨by rw [hgs, hg], nofun⟩
  · exact Or.inl ⟨by rw [hgs, List.getElem?_append_left hlt, hg], nofun⟩
  · rw [hgs]
    by_cases hq : q = p
    · subst hq
      obtain rfl : g = g₁ := Option.some.inj (hg.symm.trans hg₁)
      exact Or.inr ⟨a', b, g', rfl, List.getElem?_set_self hlt, hst, hn⟩
    · refine Or.inl ⟨(List.getElem?_set_ne hq).trans hg, fun a'' he => hq ?_⟩
      injection he

/-- What a step does to a client of a guard: only the guard itself sends on it. -/
inductive ClientStep (cfg : Config) (fromStr : String → Option ClientMessage) (w w' : GuardedNet)
    (a : GuardedAction) (p i : Nat) (g : ClaimGuard) (l : Client) : Client → Prop
  | served {b : Action} (hb : b = .connect ∨ a = .net (.serve b))
      (ht : w.net.daemon.step cfg fromStr b = some w'.net.daemon)
      (hfit : l.fits fromStr b = true) :
      ClientStep cfg fromStr w w' a p i g l (l.served w.net.daemon b)
  | same (hd : w'.net.daemon = w.net.daemon) : ClientStep cfg fromStr w w' a p i g l l
  | read {x : OutLine} {xs : List OutLine} (hd : w'.net.daemon = w.net.daemon)
      (hx : l.incoming = x :: xs) :
      ClientStep cfg fromStr w w' a p i g l { l with incoming := xs }
  | sent {a' : GuardAction} {m : ClientMessage} (hd : w'.net.daemon = w.net.daemon)
      (ha : a = .guard p a') (hm : g.message a' = some (i, m)) :
      ClientStep cfg fromStr w w' a p i g l { l with outgoing := l.outgoing ++ [m] }

theorem ClientStep.outgoing {l' : Client} (hatt : ∀ c, l.conn = some c →
    ∃ k, w.net.daemon.conns[c]? = some k) (h : ClientStep cfg fromStr w w' a p i g l l') :
    l'.outgoing = l.outgoing ∨
      (∃ c m, a.takes = some c ∧ l.conn = some c ∧ l.outgoing = m :: l'.outgoing) ∨
      ∃ a' m, a = .guard p a' ∧ g.message a' = some (i, m) ∧ l'.outgoing = l.outgoing ++ [m] := by
  cases h with
  | @served b hb ht hfit =>
    cases hc : l.conn with
    | none => exact Or.inl (by simp [Client.served, hc])
    | some c =>
      obtain ⟨k, hk⟩ := hatt c hc
      obtain ⟨_, ho⟩ | ⟨k', _, _, ⟨ho, _⟩ | ⟨text, now, m, rfl, _, ho, _⟩⟩ :=
        Client.served_conn hc hk hfit ht
      · exact Or.inl ho
      · exact Or.inl ho
      · refine Or.inr (Or.inl ⟨c, m, ?_, rfl, ho⟩)
        obtain hb | rfl := hb
        · cases hb
        · rfl
  | same hd => exact Or.inl rfl
  | read hd hx => exact Or.inl rfl
  | sent hd ha hm => exact Or.inr (Or.inr ⟨_, _, ha, hm, rfl⟩)

theorem message_of_send (hs : Separate w) {m : ClientMessage}
    (h : w.acts a = some (some (.send i m), w'.guards)) (hg : w.guards[p]? = some g)
    (hi : i ∈ g.connections) : ∃ a', a = .guard p a' ∧ g.message a' = some (i, m) := by
  obtain ⟨a', rfl, _, he, ho⟩ | ⟨j, sid, path, ttl, pid, now, rfl, _, _, ho, he⟩ |
    ⟨q, a', g₁, g', rfl, hg₁, _, hst⟩ := acts_guards h
  · cases he
    exact absurd hi (not_mem_of_not_owned ho (List.mem_of_getElem? hg))
  · cases he
    exact absurd hi (not_mem_of_not_owned ho (List.mem_of_getElem? hg))
  · obtain he | ⟨_, he, _⟩ | ⟨j, m', he, hm⟩ | he := hst.action <;> cases he
    have hi₁ : i ∈ g₁.connections := by
      obtain rfl | hj := ClaimGuard.message_client hm
      · exact hs.client g₁ (List.mem_of_getElem? hg₁)
      · exact hs.renew g₁ (List.mem_of_getElem? hg₁) i hj
    obtain rfl : p = q := hs.apart p q g g₁ i hg hg₁ hi hi₁
    obtain rfl : g = g₁ := Option.some.inj (hg.symm.trans hg₁)
    exact ⟨a', rfl, hm⟩

theorem client_step (hs : Separate w) (h : step cfg fromStr w a = some w')
    (hg : w.guards[p]? = some g) (hi : i ∈ g.connections) (hl : w.net.clients[i]? = some l) :
    ∃ l', w'.net.clients[i]? = some l' ∧ ClientStep cfg fromStr w w' a p i g l l' := by
  obtain ⟨b, hb, ⟨b', rfl, hn⟩ | ⟨rfl, hn⟩⟩ := step_acts h
  · obtain ⟨l', hl', hst⟩ := Net.client_step hn hl
    refine ⟨l', hl', ?_⟩
    cases hst with
    | served hd ht hfit =>
      refine .served ?_ ht hfit
      obtain ⟨a', rfl, _, he, _⟩ | ⟨_, _, _, _, _, _, _, _, _, _, he⟩ |
        ⟨_, _, _, _, _, _, _, hst⟩ := acts_guards hb
      · cases he
        cases b' <;> cases hd
        · exact Or.inr rfl
        · exact Or.inl rfl
      · cases he
        cases hd
      · obtain he | ⟨_, he, _⟩ | ⟨_, _, he, _⟩ | he := hst.action <;> cases he <;> cases hd
        exact Or.inl rfl
    | other _ hd => exact .same hd
    | read hd hx => exact .read hd hx
    | sent hd =>
      obtain ⟨a', ha, hm⟩ := message_of_send hs hb hg hi
      exact .sent hd ha hm
  · rw [hn]
    exact ⟨l, hl, .same (by rw [hn])⟩

theorem connections_step (hs : Separate w) (h : step cfg fromStr w a = some w')
    (hg : w.guards[p]? = some g) {g' : ClaimGuard} (hg' : w'.guards[p]? = some g')
    (hi : i ∈ g'.connections) {l' : Client} (hl' : w'.net.clients[i]? = some l') :
    (i ∈ g.connections ∧ ∃ l, w.net.clients[i]? = some l ∧
      ClientStep cfg fromStr w w' a p i g l l') ∨
    (i = w.net.clients.length ∧ l' = ⟨some w.net.daemon.conns.length, [], []⟩ ∧
      w'.net.daemon.conns = w.net.daemon.conns ++ [.fresh]) := by
  have old (hi : i ∈ g.connections) : i ∈ g.connections ∧ ∃ l, w.net.clients[i]? = some l ∧
      ClientStep cfg fromStr w w' a p i g l l' := by
    have hl := List.getElem?_eq_getElem (hs.inRange g (List.mem_of_getElem? hg) i hi)
    obtain ⟨l₁, hl₁, hst⟩ := client_step hs h hg hi hl
    obtain rfl : l₁ = l' := Option.some.inj (hl₁.symm.trans hl')
    exact ⟨hi, _, hl, hst⟩
  obtain ⟨hg₁, _⟩ | ⟨a', b, g₁, rfl, hg₁, hst, hn⟩ := guard_step h hg
  · obtain rfl : g = g' := Option.some.inj (hg₁.symm.trans hg')
    exact Or.inl (old hi)
  · obtain rfl : g₁ = g' := Option.some.inj (hg₁.symm.trans hg')
    obtain ⟨_, he, _⟩ | ⟨rfl, he, _⟩ := hst.connections
    · exact Or.inl (old (he ▸ hi))
    · rw [he] at hi
      obtain hi | hi := List.mem_append.mp hi
      · exact Or.inl (old hi)
      · obtain rfl := List.mem_singleton.mp hi
        obtain ⟨b', hb', hn⟩ | ⟨hb', _⟩ := hn
        · cases hb'
          obtain ⟨t, ht, hn⟩ := Net.step_connect.mp hn
          obtain ⟨_, rfl⟩ := Daemon.step_connect.mp ht
          rw [← hn] at hl' ⊢
          obtain rfl : _ = l' := by simpa using hl'
          exact Or.inr ⟨rfl, rfl, rfl⟩
        · cases hb'

/-- The session of a guard is announced on its connections before anything else is sent. -/
def Introduces (w : GuardedNet) : Prop :=
  ∀ g ∈ w.guards, ∀ i ∈ g.connections, ∀ l, w.net.clients[i]? = some l →
    l.Introduced w.net.daemon g.sessionId ∨ (l.Silent w.net.daemon ∧ ¬ g.Speaks i)

structure Sound (w : GuardedNet) : Prop where
  wired : w.net.Wired
  separate : Separate w
  introduces : Introduces w

theorem sound_start (file : DurableState) (log : List BroadcastMsg) (now : Nat) :
    Sound (start file log now) := by
  refine ⟨Net.wired_start file log now, ⟨?_, ?_, ?_, ?_⟩, ?_⟩
  · exact fun g hg => absurd hg List.not_mem_nil
  · exact fun p q g h i hg => nomatch hg
  · exact fun g hg => absurd hg List.not_mem_nil
  · exact fun g hg => absurd hg List.not_mem_nil
  · exact fun g hg => absurd hg List.not_mem_nil

theorem introduced_client (hw : w.net.Wired) (hl : w.net.clients[i]? = some l) {l' : Client}
    (hi : l.Introduced w.net.daemon g.sessionId ∨ (l.Silent w.net.daemon ∧ ¬ g.Speaks i))
    (h : ClientStep cfg fromStr w w' a p i g l l') :
    l'.Introduced w'.net.daemon g.sessionId ∨ (l'.Silent w'.net.daemon ∧ ¬ g.Speaks i) := by
  have hatt := hw.attached l (List.mem_of_getElem? hl)
  cases h with
  | served hb ht hfit =>
    obtain hi | ⟨hi, hsp⟩ := hi
    · exact Or.inl (Client.introduced_served hi hatt hfit ht)
    · exact Or.inr ⟨Client.silent_served hi hatt hfit ht, hsp⟩
  | same hd =>
    rw [hd]
    exact hi
  | read hd hx =>
    rw [hd]
    exact hi
  | sent hd ha hm =>
    rw [hd]
    obtain hi | ⟨hi, hsp⟩ := hi
    · exact Or.inl (hi.send _)
    · obtain rfl | hm := ClaimGuard.message_speaks hm
      · exact Or.inl (hi.introduce _ _ _ _ _)
      · exact absurd hm hsp

theorem introduces_step (hs : Sound w) (h : step cfg fromStr w a = some w') : Introduces w' := by
  -- a guard that was there, and how it has gone on
  have old {p i : Nat} {g g' : ClaimGuard} {l' : Client} (hg : w.guards[p]? = some g)
      (hg' : w'.guards[p]? = some g') (hsid : g'.sessionId = g.sessionId)
      (hi : i ∈ g'.connections) (hl' : w'.net.clients[i]? = some l')
      (hspeaks : g'.Speaks i → g.Speaks i ∨ l'.Introduced w'.net.daemon g.sessionId) :
      l'.Introduced w'.net.daemon g'.sessionId ∨ (l'.Silent w'.net.daemon ∧ ¬ g'.Speaks i) := by
    have hmem := List.mem_of_getElem? hg
    have quiet (hno : ¬ g.Speaks i) (hsil : l'.Silent w'.net.daemon) :
        l'.Introduced w'.net.daemon g'.sessionId ∨
          (l'.Silent w'.net.daemon ∧ ¬ g'.Speaks i) := by
      by_cases hsp : g'.Speaks i
      · exact Or.inl (hsid ▸ (hspeaks hsp).resolve_left hno)
      · exact Or.inr ⟨hsil, hsp⟩
    obtain ⟨hi, l, hl, hst⟩ | ⟨rfl, rfl, hconns⟩ := connections_step hs.separate h hg hg' hi hl'
    · obtain hin | ⟨hsil, hno⟩ :=
        introduced_client hs.wired hl (hs.introduces g hmem i hi l hl) hst
      · exact Or.inl (hsid ▸ hin)
      · exact quiet hno hsil
    · refine quiet (fun hsp => ?_) ?_
      · have hin : w.net.clients.length ∈ g.connections := by
          obtain he | ⟨he, _⟩ := hsp
          · exact he ▸ hs.separate.client g hmem
          · exact hs.separate.renew g hmem _ he
        exact absurd (hs.separate.inRange g hmem _ hin) (Nat.lt_irrefl _)
      · intro c k hc hk
        cases hc
        rw [hconns] at hk
        obtain rfl : Conn.fresh = k := by simpa using hk
        exact ⟨rfl, rfl⟩
  obtain ⟨b, hb, hn⟩ := step_acts h
  intro g' hg' i hi l' hl'
  obtain ⟨q, hq⟩ := List.mem_iff_getElem?.mp hg'
  cases hg : w.guards[q]? with
  | some g =>
    obtain ⟨hg₁, _⟩ | ⟨a', b, g₁, rfl, hg₁, hst, hn⟩ := guard_step h hg
    · obtain rfl : g = g' := Option.some.inj (hg₁.symm.trans hq)
      exact old hg hq rfl hi hl' Or.inl
    · obtain rfl : g₁ = g' := Option.some.inj (hg₁.symm.trans hq)
      refine old hg hq hst.session hi hl' (fun hsp => (hst.speaks i hsp).imp_right ?_)
      -- the announce has just been sent
      rintro rfl
      obtain ⟨b', hb', hn⟩ | ⟨hb', _⟩ := hn
      · cases hb'
        obtain ⟨l, hl, _, hn⟩ := Net.step_send.mp hn
        rw [← hn, Net.getElem?_setClient hl] at hl'
        cases hl'
        rw [← hn]
        have hi : i ∈ g.connections := by
          obtain ⟨_, he, _⟩ | ⟨he, _⟩ := hst.connections
          · exact he ▸ hi
          · cases he
        obtain hin | ⟨hin, _⟩ := hs.introduces g (List.mem_of_getElem? hg) i hi l hl
        · exact hin.send _
        · exact hin.introduce _ _ _ _ _
      · cases hb'
  | none =>
    -- whoever calls `hold` has announced the session
    obtain ⟨a', rfl, hgs, _, _⟩ | ⟨j, sid, path, ttl, pid, now, rfl, hgs, hsess, _, rfl⟩ |
      ⟨p, a', g, g₁, rfl, hg₁, hgs, hst⟩ := acts_guards hb
    · rw [hgs, hg] at hq
      cases hq
    · rw [hgs] at hq
      obtain hq | ⟨_, rfl⟩ := getElem?_concat hq
      · rw [hg] at hq
        cases hq
      obtain rfl := List.mem_singleton.mp hi
      obtain ⟨b', hb', hn⟩ | ⟨hb', _⟩ := hn
      · cases hb'
        obtain ⟨l, hl, _, hn⟩ := Net.step_send.mp hn
        rw [← hn, Net.getElem?_setClient hl] at hl'
        cases hl'
        refine Or.inl (fun c k hc hk => Or.inl ?_)
        rw [← hn] at hk
        have hk : w.net.daemon.conns[c]? = some k := hk
        have hc : l.conn = some c := hc
        change k.sessionId = some sid
        simpa [session, hl, hc, hk] using hsess
      · cases hb'
    · rw [hgs] at hq
      obtain ⟨_, hq⟩ | ⟨rfl, _⟩ := getElem?_set_cases hq
      · rw [hg] at hq
        cases hq
      · rw [hg] at hg₁
        cases hg₁

theorem sound_step (hs : Sound w) (h : step cfg fromStr w a = some w') : Sound w' :=
  ⟨net_invariant (fun _ _ _ hn hb => Net.wired_step hn hb) h hs.wired, separate_step hs.separate h,
    introduces_step hs h⟩

end GuardedNet

end Agorabus
