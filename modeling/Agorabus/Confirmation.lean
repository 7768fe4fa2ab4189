import Agorabus.Correlation
import Agorabus.Release

namespace Agorabus

open StepSystem

namespace Confirmation

open GuardedNet Release
open Correlation (Exchange heard heard_nil heard_line)

def exchange (cfg : Config) (fromStr : String → Option ClientMessage) (p : Nat) (w : GuardedNet) :
    GuardedAction → List Exchange
  | .net (.serve b) => (do
      let g ← w.guards[p]?
      let l ← w.net.clients[g.client]?
      some (heard cfg fromStr w.net.daemon l b)).getD []
  | .guard q .sendRelease =>
      if q = p then (do
        let g ← w.guards[p]?
        let _ ← w.net.trySend g.client (.claimRelease g.path)
        some [Exchange.asked (.claimRelease g.path)]).getD []
      else []
  | _ => []

/-- If `release` returns `Ok`, then the daemon has answered its request, and nothing else since it
was sent, and what is read is that answer: no other is on its way. -/
def Confirmed (p : Nat) (xs : List Exchange) (w : GuardedNet) (a : GuardedAction) : Prop :=
  a.ofGuard p = some .releaseReply → ∀ g ∈ w.guards[p]?, ∀ x ∈ w.net.readReply g.client, ∀ r ∈ x.2,
    [.asked (.claimRelease g.path), .answered (.claimRelease g.path) r] <:+ xs ∧
      ∀ l ∈ w.net.clients[g.client]?, replies (l.flight w.net.daemon) = [r]

/-- No reply is on its way to the client when `release` sends its request, and the daemon has taken
all that has been sent on it, or does not take any more. -/
def SentAlone (p : Nat) (w : GuardedNet) (a : GuardedAction) : Prop :=
  a.ofGuard p = some .sendRelease → ∀ g ∈ w.guards[p]?, ∀ l ∈ w.net.clients[g.client]?,
    l.alive w.net.daemon = true → replies (l.flight w.net.daemon) = [] ∧
      (l.outgoing = [] ∨ l.Gone w.net.daemon)

instance (p : Nat) (w : GuardedNet) (a : GuardedAction) : Decidable (SentAlone p w a) :=
  inferInstanceAs (Decidable (_ → _))

inductive Phase (s : Daemon) (l : Client) (m : ClientMessage) (xs : List Exchange) : Prop
  | sent (ho : l.outgoing = [m]) (hr : replies (l.flight s) = []) (hx : [.asked m] <:+ xs)
  | answered (r : Reply) (ho : l.outgoing = []) (hr : replies (l.flight s) <+: [r])
      (hx : [.asked m, .answered m r] <:+ xs)
  | gone (hg : l.Gone s) (hr : replies (l.flight s) = [])

variable {cfg : Config} {fromStr : String → Option ClientMessage}

theorem phase_carries {s t : Daemon} {a : Action} {l : Client} {m : ClientMessage}
    {xs : List Exchange} (h : Phase s l m xs) (hfit : l.fits fromStr a = true)
    (hc : Client.Carries cfg fromStr s t a l (l.served s a)) :
    Phase t (l.served s a) m (xs ++ heard cfg fromStr s l a) := by
  cases hc with
  | same ho hf hg =>
    rw [heard_nil hfit ho, List.append_nil]
    cases h with
    | sent ho' hr hx => exact .sent (ho.trans ho') (hf ▸ hr) hx
    | answered r ho' hr hx => exact .answered r (ho.trans ho') (hf ▸ hr) hx
    | gone hgone hr => exact .gone (hg hgone) (hf ▸ hr)
  | @took c now text m' r ha hc hm ho hr hf hg =>
    subst ha
    rw [heard_line hc ho hr]
    cases h with
    | sent ho' hr' hx =>
      obtain ⟨rfl, hout⟩ := List.cons.inj (ho.symm.trans ho')
      obtain ⟨ys, rfl⟩ := hx
      refine .answered r hout ?_ ⟨ys, by simp⟩
      rw [hf, replies_append, hr']
      exact List.prefix_refl _
    | answered _ ho' => rw [ho'] at ho; cases ho
    | gone hgone => exact absurd hgone hg
  | @event c e ha hc he ho hf hg =>
    rw [heard_nil hfit ho, List.append_nil]
    have hreplies : replies ((l.served s a).flight t) = replies (l.flight s) := by
      rw [hf, replies_append]
      exact List.append_nil _
    cases h with
    | sent ho' hr hx => exact .sent (ho.trans ho') (hreplies.trans hr) hx
    | answered r ho' hr hx => exact .answered r (ho.trans ho') (hreplies ▸ hr) hx
    | gone hgone => exact absurd hgone hg
  | leaves ho hg hf =>
    rw [heard_nil hfit ho, List.append_nil]
    obtain ⟨ns, hnr, _, hpre⟩ := hf
    have hreplies : replies ((l.served s a).flight t) <+: replies (l.flight s) := by
      have hreplies : replies (l.flight s ++ ns) = replies (l.flight s) := by
        rw [replies_append, hnr, List.append_nil]
      rw [← hreplies]
      exact hpre.filterMap _
    cases h with
    | sent _ hr => exact .gone hg (List.prefix_nil.mp (hr ▸ hreplies))
    | answered r ho' hr hx => exact .answered r (ho.trans ho') (hreplies.trans hr) hx
    | gone _ hr => exact .gone hg (List.prefix_nil.mp (hr ▸ hreplies))

theorem phase_read {s : Daemon} {l : Client} {m : ClientMessage} {xs : List Exchange}
    (h : Phase s l m xs) {y : OutLine} {ys : List OutLine} (hy : l.incoming = y :: ys) :
    Phase s { l with incoming := ys } m xs := by
  have hf : replies (l.flight s) =
      replies [y] ++ replies (Client.flight s { l with incoming := ys }) := by
    rw [Client.flight_read hy, ← replies_append]
    rfl
  cases h with
  | sent ho hr hx => exact .sent ho (List.append_eq_nil_iff.mp (hf ▸ hr)).2 hx
  | answered r ho hr hx =>
    refine .answered r ho ?_ hx
    rw [hf] at hr
    cases hone : replies [y] with
    | nil =>
      rw [hone] at hr
      exact hr
    | cons r' rs =>
      rw [hone] at hr
      obtain ⟨_, hnil⟩ := List.cons_prefix_cons.mp hr
      rw [(List.append_eq_nil_iff.mp (List.prefix_nil.mp hnil)).2]
      exact List.nil_prefix
  | gone hg hr => exact .gone hg (List.append_eq_nil_iff.mp (hf ▸ hr)).2

variable {w w' : GuardedNet} {a : GuardedAction} {p : Nat} {g g' : ClaimGuard}

theorem phase_client {l l' : Client} {m : ClientMessage} {xs : List Exchange}
    (h : Phase w.net.daemon l m xs) (hw : w.net.Wired) (hl : l ∈ w.net.clients)
    (hst : ClientStep cfg fromStr w w' a p g.client g l l') (ha : a.serves = none)
    (hno : ∀ a' m', a = .guard p a' → g.message a' ≠ some (g.client, m')) :
    Phase w'.net.daemon l' m xs := by
  cases hst with
  | @served b hb ht hfit =>
    obtain rfl | rfl := hb
    · have hc := phase_carries h hfit
        (Client.carries hw.notices (hw.attached l hl) hfit ht)
      rwa [show heard cfg fromStr w.net.daemon l .connect = [] from rfl, List.append_nil] at hc
    · cases ha
  | same hd =>
    rw [hd]
    exact h
  | read hd hx =>
    rw [hd]
    exact phase_read h hx
  | sent hd ha' hm => exact absurd hm (hno _ _ ha')

structure Waits (p : Nat) (w : GuardedNet) (xs : List Exchange) : Prop where
  sound : Sound w
  apart : Apart w
  phase : ∀ g, w.guards[p]? = some g → g.owner = .awaiting →
    ∃ l, w.net.clients[g.client]? = some l ∧ Phase w.net.daemon l (.claimRelease g.path) xs

theorem phase_step {xs : List Exchange} (hi : Waits p w xs)
    (h : step cfg fromStr w a = some w') (hg : w.guards[p]? = some g) (ho : g.owner = .awaiting) :
    ∃ l, w'.net.clients[g.client]? = some l ∧
      Phase w'.net.daemon l (.claimRelease g.path) (xs ++ exchange cfg fromStr p w a) := by
  obtain ⟨hs, hapart, hphase⟩ := hi
  have hmem := List.mem_of_getElem? hg
  have hlocked : g.locked = true := by rw [ClaimGuard.locked, ho]
  obtain ⟨l, hl, hp⟩ := hphase g hg ho
  by_cases hb : ∃ b, a = .net (.serve b)
  · obtain ⟨b, rfl⟩ := hb
    obtain ⟨ht, hfit, hl'⟩ := step_serve h hl
    refine ⟨_, hl', ?_⟩
    have hx : exchange cfg fromStr p w (.net (.serve b)) = heard cfg fromStr w.net.daemon l b := by
      simp [exchange, hg, hl]
    rw [hx]
    exact phase_carries hp hfit (Client.carries hs.wired.notices
      (hs.wired.attached l (List.mem_of_getElem? hl)) hfit ht)
  · obtain ⟨l', hl', hst⟩ := client_step hs.separate h hg (hs.separate.client g hmem) hl
    have hserves : a.serves = none := by
      cases hsv : a.serves with
      | none => rfl
      | some b => exact absurd ⟨b, serves_eq hsv⟩ hb
    have own {a' : GuardAction} (ha : a = .guard p a') :
        a' ≠ .sendRelease ∧ ∀ m, g.message a' ≠ some (g.client, m) := by
      subst ha
      obtain ⟨g₁, b, g', hg₁, hst, _⟩ := step_guard h
      obtain rfl : g = g₁ := Option.some.inj (hg.symm.trans hg₁)
      refine ⟨fun ha => ?_, fun m hm => ?_⟩
      · rw [(ClaimGuard.steps hst).releasing ha] at ho
        cases ho
      · obtain hl | hc := ClaimGuard.message_unlocked hst hm
        · rw [hlocked] at hl
          cases hl
        · exact hapart g hmem hc
    have hx : exchange cfg fromStr p w a = [] := by
      cases a with
      | net a =>
        cases a with
        | serve b => cases hserves
        | _ => rfl
      | hold => rfl
      | guard q a' =>
        by_cases hq : q = p
        · subst hq
          have hne := (own rfl).1
          cases a' with
          | sendRelease => exact absurd rfl hne
          | _ => rfl
        · cases a' with
          | sendRelease => exact if_neg hq
          | _ => rfl
    rw [hx, List.append_nil]
    exact ⟨l', hl', phase_client hp hs.wired (List.mem_of_getElem? hl) hst hserves
      (fun a' m' ha => (own ha).2 m')⟩

theorem waits_step {xs : List Exchange} (hi : Waits p w xs) (hq : SentAlone p w a)
    (h : step cfg fromStr w a = some w') : Waits p w' (xs ++ exchange cfg fromStr p w a) := by
  refine ⟨sound_step hi.sound h, apart_step hi.sound.separate hi.apart h, fun g' hg' ho => ?_⟩
  obtain ⟨g, hg⟩ := guard_before h hg' (by rw [ho]; nofun)
  obtain ⟨hg₁, _⟩ | ⟨a', b, g₁, rfl, hg₁, hst, hn⟩ := guard_step h hg
  · obtain rfl : g = g' := Option.some.inj (hg₁.symm.trans hg')
    exact phase_step hi h hg ho
  · obtain rfl : g₁ = g' := Option.some.inj (hg₁.symm.trans hg')
    obtain ho | ⟨rfl, rfl, hclient⟩ := hst.awaiting ho
    · have hclient : g₁.client = g.client := by
        refine hst.client.resolve_right (fun hc => ?_)
        rw [ClaimGuard.locked, ho] at hc
        cases hc.2
      rw [hclient, hst.path]
      exact phase_step hi h hg ho
    · -- the request has just been sent
      obtain ⟨b', hb', hn⟩ | ⟨hb', _⟩ := hn
      · cases hb'
        obtain ⟨l, hl, halive, hn⟩ := Net.step_send.mp hn
        obtain ⟨hr, hout⟩ := hq (if_pos rfl) g hg l hl halive
        have hx : exchange cfg fromStr p w (.guard p .sendRelease) =
            [.asked (.claimRelease g.path)] := by
          simp [exchange, hg, Net.trySend, hl, halive]
        rw [hclient, hst.path, hx, ← hn]
        refine ⟨_, Net.getElem?_setClient hl _, ?_⟩
        obtain hout | hgone := hout
        · exact .sent (by rw [hout]; rfl) hr (List.suffix_append _ _)
        · exact .gone hgone hr
      · cases hb'

theorem confirmed_of_waits {xs : List Exchange} (hi : Waits p w xs)
    (h : step cfg fromStr w a = some w') : Confirmed p xs w a := by
  intro ha g hg x hx r hr
  obtain rfl : a = .guard p .releaseReply := by
    cases a with
    | guard q a' =>
      obtain ⟨rfl, he⟩ := Option.ite_none_right_eq_some.mp ha
      rw [Option.some.inj he]
    | _ => cases ha
  obtain ⟨g₁, b, g', hg₁, hst, _⟩ := step_guard h
  obtain rfl : g = g₁ := Option.some.inj (Eq.trans (Eq.symm hg) hg₁)
  simp only [ClaimGuard.step, Option.ite_none_right_eq_some] at hst
  obtain ⟨l, hl, hp⟩ := hi.phase g hg hst.1
  obtain ⟨b', r'⟩ := x
  obtain rfl : r' = some r := hr
  obtain ⟨_, l₁, ys, hl₁, hin⟩ := Net.readReply_some hx
  obtain rfl : l = l₁ := Option.some.inj (hl.symm.trans hl₁)
  have hf : replies (l.flight w.net.daemon) =
      r :: replies (Client.flight w.net.daemon { l with incoming := ys }) := by
    rw [Client.flight_read hin]
    rfl
  cases hp with
  | sent _ hr' => rw [hr'] at hf; cases hf
  | gone _ hr' => rw [hr'] at hf; cases hf
  | answered r' _ hr' hx' =>
    rw [hf] at hr'
    obtain ⟨rfl, hnil⟩ := List.cons_prefix_cons.mp hr'
    refine ⟨hx', fun l₂ hl₂ => ?_⟩
    obtain rfl : l = l₂ := Option.some.inj (hl.symm.trans hl₂)
    rw [hf, List.prefix_nil.mp hnil]

/-- A `release` whose request is sent on a client with nothing under way returns `Ok` only on the
daemon's reply to it, wherever the renew task was when it was aborted. -/
theorem release_confirmed (cfg : Config) (fromStr : String → Option ClientMessage)
    (file : DurableState) (log : List BroadcastMsg) (now : Nat) (as : List GuardedAction) (p : Nat)
    (hq : Along (step cfg fromStr) (SentAlone p) (start file log now) as) :
    AlongHistory (step cfg fromStr) (exchange cfg fromStr p) (Confirmed p) (start file log now)
      as := by
  refine AlongHistory.of_invariant (I := Waits p) ?_ ?_ ?_ hq
  · exact fun u a v xs hu ha h => waits_step hu ha h
  · exact fun u a v xs hu _ h => confirmed_of_waits hu h
  · exact ⟨sound_start file log now, fun g hg => absurd hg List.not_mem_nil, nofun⟩

deriving instance DecidableEq for Exchange

instance (p : Nat) (xs : List Exchange) (w : GuardedNet) (a : GuardedAction) :
    Decidable (Confirmed p xs w a) :=
  inferInstanceAs (Decidable (_ → ∀ _ ∈ _, ∀ _ ∈ _, ∀ _ ∈ _, _))

def renewActions : List GuardedAction :=
  announceActions 0 ++ [.hold 0 "s1" "/x" 60 7 3] ++ serveActions 0 (guardLine "claim-guard") ++
    [.guard 0 .holdReply, .guard 0 (.wake 3), .guard 0 .sendRenewal] ++
    serveActions 0 (guardLine "claim-guard-renew") ++
    [.guard 0 .renewalReply, .guard 0 (.wake 3)]

def confirmActions : List GuardedAction :=
  renewActions ++ [.guard 0 .release, .guard 0 .sendRelease, .guard 0 .cancel] ++
    serveActions 0 releaseLine ++ [.guard 0 .releaseReply]

/-- The renew task is aborted when it has sent its acquire and has not read the reply. -/
def abortActions : List GuardedAction :=
  renewActions ++ [.guard 0 .sendRenewal] ++ serveActions 0 (guardLine "claim-guard-renew") ++
    [.guard 0 .release, .guard 0 .cancel, .guard 0 .sendRelease]

theorem release_confirmed_renewed : AlongHistory (step guardConfig guardLines)
      (exchange guardConfig guardLines 0) (Confirmed 0) (start .default [] 0) confirmActions ∧
    ∃ w g, run (step guardConfig guardLines) (start .default [] 0) confirmActions = some w ∧
      w.guards[0]? = some g ∧ g.owner = .released := by
  obtain ⟨h, hp⟩ : (run (step guardConfig guardLines) (start .default [] 0) confirmActions).bind
        (fun w => w.guards[0]?.map (fun g => g.owner)) = some .released ∧
      Along (step guardConfig guardLines) (SentAlone 0) (start .default [] 0)
        confirmActions := by decide +kernel
  obtain ⟨w, hw, h⟩ := Option.bind_eq_some_iff.mp h
  obtain ⟨g, hg, h⟩ := Option.map_eq_some_iff.mp h
  exact ⟨release_confirmed guardConfig guardLines .default [] 0 confirmActions 0 hp, w, g, hw, hg,
    h⟩

/-- `release` takes the reply to the renewal for its own, and the daemon has not seen its
request. -/
theorem stale_reply_confirms : ¬ AlongHistory (step guardConfig guardLines)
    (exchange guardConfig guardLines 0) (Confirmed 0) (start .default [] 0)
    (abortActions ++ [.guard 0 .releaseReply]) := by
  intro hc
  have h : (run (step guardConfig guardLines) (start .default [] 0) abortActions).bind (fun u =>
      (step guardConfig guardLines u (.guard 0 .releaseReply)).map (fun _ =>
        decide (Confirmed 0 (trace (step guardConfig guardLines)
          (exchange guardConfig guardLines 0) (start .default [] 0) abortActions) u
          (.guard 0 .releaseReply)))) = some false := by decide +kernel
  obtain ⟨u, hu, h⟩ := Option.bind_eq_some_iff.mp h
  obtain ⟨t, ht, h⟩ := Option.map_eq_some_iff.mp h
  exact of_decide_eq_false h (hc abortActions (.guard 0 .releaseReply) [] u t rfl hu ht)

end Confirmation

end Agorabus
