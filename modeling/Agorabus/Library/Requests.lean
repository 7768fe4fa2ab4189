import Mathlib.Logic.Basic

namespace Requests

variable {Q R α β : Type}

/-- A program that asks one question after the other, and goes on by the answers. -/
inductive Program (Q R α : Type) where
  | done (a : α)
  | fail (e : String)
  | ask (q : Q) (next : R → Program Q R α)

namespace Program

protected def bind : Program Q R α → (α → Program Q R β) → Program Q R β
  | done a, f => f a
  | fail e, _ => fail e
  | ask q next, f => ask q (fun r => (next r).bind f)

instance : Monad (Program Q R) where
  pure := done
  bind := Program.bind

def request (q : Q) : Program Q R R := ask q done

def ofExcept : Except String α → Program Q R α
  | .ok a => done a
  | .error e => fail e

inductive Reaches : Program Q R α → List (Q × R) → Program Q R α → Prop
  | refl (p : Program Q R α) : Reaches p [] p
  | ask {q : Q} {r : R} {next : R → Program Q R α} {xs : List (Q × R)} {p : Program Q R α}
      (h : Reaches (next r) xs p) : Reaches (ask q next) ((q, r) :: xs) p

def question : Program Q R α → Option Q
  | ask q _ => some q
  | _ => none

def Opens (p : Program Q R α) (qs : List Q) : Prop :=
  ∃ xs p', Reaches p xs p' ∧ qs <+: xs.map Prod.fst ++ p'.question.toList

inductive Asks : Program Q R α → List Q → Prop
  | done (a : α) : Asks (done a) []
  | fail (e : String) : Asks (fail e) []
  | ask {q : Q} {next : R → Program Q R α} {qs : List Q} (h : ∀ r, Asks (next r) qs) :
      Asks (ask q next) (q :: qs)

/-- With answers as they may be given, the program does not fail, and its result, if it comes to
one, is as it should be. -/
inductive Post (given : Q → R → Prop) (good : α → Prop) : Program Q R α → Prop
  | done {a : α} (h : good a) : Post given good (done a)
  | ask {q : Q} {next : R → Program Q R α} (h : ∀ r, given q r → Post given good (next r)) :
      Post given good (ask q next)

inductive Uses (allowed : Q → Prop) : Program Q R α → Prop
  | done (a : α) : Uses allowed (done a)
  | fail (e : String) : Uses allowed (fail e)
  | ask {q : Q} {next : R → Program Q R α} (hq : allowed q) (h : ∀ r, Uses allowed (next r)) :
      Uses allowed (ask q next)

variable {given : Q → R → Prop} {good : α → Prop} {good' : β → Prop} {allowed : Q → Prop}
  {p : Program Q R α} {f : α → Program Q R β}

theorem Reaches.snoc {q : Q} {r : R} {next : R → Program Q R α} {xs : List (Q × R)}
    (h : Reaches p xs (.ask q next)) : Reaches p (xs ++ [(q, r)]) (next r) := by
  generalize hp : Program.ask q next = p' at h
  induction h with
  | refl p =>
    subst hp
    exact .ask (.refl _)
  | ask _ ih => exact .ask (ih hp)

theorem Reaches.uses {xs : List (Q × R)} {p' : Program Q R α} (h : Reaches p xs p')
    (hp : Uses allowed p) : Uses allowed p' := by
  induction h with
  | refl p => exact hp
  | ask _ ih =>
    cases hp with
    | ask _ hnext => exact ih (hnext _)

theorem Reaches.post {xs : List (Q × R)} {p' : Program Q R α} (h : Reaches p xs p')
    (hxs : ∀ x ∈ xs, given x.1 x.2) (hp : Post given good p) : Post given good p' := by
  induction h with
  | refl p => exact hp
  | ask _ ih =>
    cases hp with
    | ask hnext =>
      obtain ⟨hx, hxs⟩ := List.forall_mem_cons.mp hxs
      exact ih hxs (hnext _ hx)

theorem Reaches.result {xs : List (Q × R)} {a : α} (h : Reaches p xs (.done a))
    (hxs : ∀ x ∈ xs, given x.1 x.2) (hp : Post given good p) : good a := by
  cases h.post hxs hp with
  | done ha => exact ha

theorem Post.bind (hp : Post given good p) (hf : ∀ a, good a → Post given good' (f a)) :
    Post given good' (p >>= f) := by
  induction hp with
  | done h => exact hf _ h
  | ask _ ih => exact .ask ih

theorem Post.request {q : Q} {good : R → Prop} (h : ∀ r, given q r → good r) :
    Post given good (request q) :=
  .ask (fun r hr => .done (h r hr))

theorem Post.ofExcept {x : Except String α} (h : ∃ a, x = .ok a ∧ good a) :
    Post given good (ofExcept x) := by
  obtain ⟨a, rfl, ha⟩ := h
  exact .done ha

theorem Opens.mono {qs qs' : List Q} (h : p.Opens qs) (hqs : qs' <+: qs) : p.Opens qs' := by
  obtain ⟨xs, p', hreach, hpre⟩ := h
  exact ⟨xs, p', hreach, hqs.trans hpre⟩

theorem Opens.first {q q' : Q} {next : R → Program Q R α} {qs : List Q}
    (h : (ask q next).Opens (q' :: qs)) : q' = q := by
  obtain ⟨xs, p', hreach, hpre⟩ := h
  cases hreach with
  | refl => exact (List.cons_prefix_cons.mp hpre).1
  | ask _ => exact (List.cons_prefix_cons.mp hpre).1

theorem Asks.uses {qs : List Q} (h : Asks p qs) (hqs : ∀ q ∈ qs, allowed q) : Uses allowed p := by
  induction h with
  | done a => exact .done a
  | fail e => exact .fail e
  | ask _ ih =>
    obtain ⟨hq, hqs⟩ := List.forall_mem_cons.mp hqs
    exact .ask hq (fun r => ih r hqs)

theorem Reaches.asks {xs : List (Q × R)} {p' : Program Q R α} (h : Reaches p xs p') {qs : List Q}
    (hp : Asks p qs) : ∃ rest, qs = xs.map Prod.fst ++ rest ∧ Asks p' rest := by
  induction h generalizing qs with
  | refl p => exact ⟨qs, rfl, hp⟩
  | ask _ ih =>
    cases hp with
    | ask hnext =>
      obtain ⟨rest, rfl, hrest⟩ := ih (hnext _)
      exact ⟨rest, rfl, hrest⟩

theorem Reaches.asked {xs : List (Q × R)} {p' : Program Q R α} (h : Reaches p xs p') {qs : List Q}
    (hp : Asks p qs) (hend : p'.question = none) : xs.map Prod.fst = qs := by
  obtain ⟨rest, rfl, hrest⟩ := h.asks hp
  cases hrest with
  | ask => cases hend
  | _ => exact (List.append_nil _).symm

theorem Opens.asked {qs qs' : List Q} (h : p.Opens qs') (hp : Asks p qs) : qs' <+: qs := by
  obtain ⟨xs, p', hreach, hpre⟩ := h
  obtain ⟨rest, rfl, hrest⟩ := hreach.asks hp
  refine hpre.trans ((List.prefix_append_right_inj _).mpr ?_)
  cases hrest with
  | ask _ => exact List.cons_prefix_cons.mpr ⟨rfl, List.nil_prefix⟩
  | _ => exact List.nil_prefix

theorem Asks.request (q : Q) : Asks (request q : Program Q R R) [q] :=
  .ask (fun r => .done r)

theorem Asks.ofExcept (x : Except String α) : Asks (ofExcept x : Program Q R α) [] := by
  cases x with
  | ok a => exact .done a
  | error e => exact .fail e

theorem Asks.bind {qs : List Q} (hp : Asks p qs) (hf : ∀ a, Asks (f a) []) :
    Asks (p >>= f) qs := by
  induction hp with
  | done a => exact hf a
  | fail e => exact .fail e
  | ask _ ih => exact .ask ih

end Program

end Requests
