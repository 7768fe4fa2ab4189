import Mathlib.Data.List.Infix

namespace Outbox

variable {V E : Type} (apply : V → E → V)

/-- What is seen of a store whose updates are told to the outside later than they are made:
an update, with the events told together with it, or the event of an update being told. -/
inductive Entry (E : Type) where
  | updated (early : List E) (e : E)
  | told (e : E)
  deriving DecidableEq

def Entry.event {E : Type} : Entry E → E
  | .updated _ e => e
  | .told e => e

def due (h : List (Entry E)) : List E :=
  h.filterMap (fun x => match x with
    | .updated _ e => some e
    | .told _ => none)

def toldEvents (h : List (Entry E)) : List E :=
  h.filterMap (fun x => match x with
    | .updated _ _ => none
    | .told e => some e)

def replay (v : V) (h : List (Entry E)) : V :=
  h.foldl (fun v x => match x with
    | .updated early _ => early.foldl apply v
    | .told e => apply v e) v

def InOrder (h : List (Entry E)) : Prop := ∀ g, g <+: h → toldEvents g <+: due g

instance [DecidableEq E] (h : List (Entry E)) : Decidable (InOrder h) :=
  decidable_of_iff (∀ g ∈ h.inits, toldEvents g <+: due g) (by simp only [List.mem_inits, InOrder])

/-- An event that is told early belongs to an update that leaves nothing of what was before. -/
def EarlyOverwritten (h : List (Entry E)) : Prop :=
  ∀ early e, .updated early e ∈ h → early = [] ∨ ∀ v w, apply v e = apply w e

@[simp] theorem due_updated (early : List E) (e : E) : due [.updated early e] = [e] := rfl

@[simp] theorem due_told (e : E) : due [.told e] = [] := rfl

@[simp] theorem toldEvents_updated (early : List E) (e : E) :
    toldEvents [.updated early e] = [] := rfl

@[simp] theorem toldEvents_told (e : E) : toldEvents [.told e] = [e] := rfl

theorem due_append (g h : List (Entry E)) : due (g ++ h) = due g ++ due h :=
  List.filterMap_append

theorem toldEvents_append (g h : List (Entry E)) :
    toldEvents (g ++ h) = toldEvents g ++ toldEvents h :=
  List.filterMap_append

theorem replay_append (v : V) (g h : List (Entry E)) :
    replay apply v (g ++ h) = replay apply (replay apply v g) h :=
  List.foldl_append

theorem InOrder.of_append {g h : List (Entry E)} (ho : InOrder (g ++ h)) : InOrder g :=
  fun f hf => ho f (hf.trans (List.prefix_append g h))

variable {apply}

theorem replay_due {h : List (Entry E)} (ho : InOrder h) (hearly : EarlyOverwritten apply h)
    (v : V) : ∃ rest, due h = toldEvents h ++ rest ∧
      rest.foldl apply (replay apply v h) = (due h).foldl apply v := by
  induction h using List.reverseRecOn with
  | nil => exact ⟨[], rfl, rfl⟩
  | append_singleton h x ih =>
    obtain ⟨rest, hdue, heq⟩ := ih ho.of_append
      (fun early e hm => hearly early e (List.mem_append_left _ hm))
    rw [due_append, toldEvents_append, replay_append]
    cases x with
    | updated early e =>
      refine ⟨rest ++ [e], ?_, ?_⟩
      · change due h ++ [e] = (toldEvents h ++ []) ++ (rest ++ [e])
        rw [hdue, List.append_nil, List.append_assoc]
      · change (rest ++ [e]).foldl apply (early.foldl apply (replay apply v h)) =
          (due h ++ [e]).foldl apply v
        rw [List.foldl_append, List.foldl_append, ← heq]
        obtain rfl | hconst := hearly early e (by simp)
        · rfl
        · exact hconst _ _
    | told e =>
      have hpre : toldEvents h ++ [e] <+: toldEvents h ++ rest := by
        have := ho (h ++ [.told e]) (List.prefix_refl _)
        rw [due_append, toldEvents_append, hdue] at this
        simpa using this
      obtain ⟨rest', hrest⟩ := (List.prefix_append_right_inj _).mp hpre
      refine ⟨rest', ?_, ?_⟩
      · change due h ++ [] = (toldEvents h ++ [e]) ++ rest'
        rw [hdue, ← hrest]
        simp
      · change rest'.foldl apply (apply (replay apply v h) e) = (due h ++ []).foldl apply v
        rw [List.append_nil, ← heq, ← hrest]
        rfl

theorem replay_eq_of_told {h : List (Entry E)} (ho : InOrder h)
    (hearly : EarlyOverwritten apply h) (hall : (due h).length = (toldEvents h).length) (v : V) :
    replay apply v h = (due h).foldl apply v := by
  obtain ⟨rest, hdue, heq⟩ := replay_due ho hearly v
  have hnil : rest = [] := by
    rw [hdue, List.length_append] at hall
    exact List.length_eq_zero_iff.mp (by omega)
  rw [hnil] at heq
  exact heq

end Outbox
