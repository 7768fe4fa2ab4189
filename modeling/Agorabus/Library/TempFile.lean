import Mathlib.Data.Fintype.Defs
import Mathlib.Data.List.Infix
import Mathlib.Logic.Function.Basic

namespace TempFile

variable {ι B : Type}

/-- The two directory entries of a file that is replaced by way of a temporary file, and the
contents of all inodes. The entries name different inodes that exist. -/
structure Disk (B : Type) where
  tmp : Option Nat
  target : Option Nat
  inodes : List (List B)
  tmp_lt : ∀ i, tmp = some i → i < inodes.length
  target_lt : ∀ i, target = some i → i < inodes.length
  distinct : ∀ i, tmp = some i → target ≠ some i

namespace Disk

def openTmp (d : Disk B) : Disk B × Nat :=
  match h : d.tmp with
  | some i =>
      ({ d with
        inodes := d.inodes.set i []
        tmp_lt := fun j hj => by rw [List.length_set]; exact d.tmp_lt j hj
        target_lt := fun j hj => by rw [List.length_set]; exact d.target_lt j hj }, i)
  | none =>
      ({ d with
        tmp := some d.inodes.length
        inodes := d.inodes ++ [[]]
        tmp_lt := fun j hj => by cases hj; simp
        target_lt := fun j hj => by
          rw [List.length_append]
          exact Nat.lt_add_right _ (d.target_lt j hj)
        distinct := fun j hj ht => by
          cases hj
          exact absurd (d.target_lt _ ht) (Nat.lt_irrefl _) }, d.inodes.length)

def write (d : Disk B) (fd : Nat) (bytes : List B) : Disk B :=
  { d with
    inodes := d.inodes.modify fd (fun old => bytes ++ old.drop bytes.length)
    tmp_lt := fun j hj => by rw [List.length_modify]; exact d.tmp_lt j hj
    target_lt := fun j hj => by rw [List.length_modify]; exact d.target_lt j hj }

def rename (d : Disk B) (i : Nat) (h : d.tmp = some i) : Disk B :=
  { d with
    tmp := none
    target := some i
    tmp_lt := nofun
    target_lt := fun j hj => by cases hj; exact d.tmp_lt i h
    distinct := nofun }

def content (d : Disk B) : Option (List B) := d.target.bind (fun i => d.inodes[i]?)

end Disk

inductive Phase where
  | idle
  | opened (fd : Nat)
  | written
  | modeSet
  deriving DecidableEq

def Phase.isOpened : Phase → Bool
  | .opened _ => true
  | _ => false

structure Store (ι B : Type) where
  disk : Disk B
  phase : ι → Phase
  saved : Bool

inductive Outcome where
  | going
  | failed
  | done
  deriving DecidableEq

/-- The next step of a writer's save: open, write, set the mode, rename. The last two fail
when the temporary file is gone. Opening and writing it do not fail here: a disk that is full or
taken away is not considered. -/
def Store.save [DecidableEq ι] (s : Store ι B) (w : ι) (bytes : List B) : Store ι B × Outcome :=
  match s.phase w with
  | .idle =>
      ({ s with
        disk := s.disk.openTmp.1
        phase := Function.update s.phase w (.opened s.disk.openTmp.2) }, .going)
  | .opened fd =>
      ({ s with
        disk := s.disk.write fd bytes
        phase := Function.update s.phase w .written }, .going)
  | .written =>
      if s.disk.tmp.isSome then
        ({ s with phase := Function.update s.phase w .modeSet }, .going)
      else ({ s with phase := Function.update s.phase w .idle }, .failed)
  | .modeSet =>
      match h : s.disk.tmp with
      | some i =>
          (⟨s.disk.rename i h, Function.update s.phase w .idle, true⟩, .done)
      | none => ({ s with phase := Function.update s.phase w .idle }, .failed)

/-- The writer does not open or rename the temporary file while another one has opened it and
not written yet. -/
def Undisturbed (s : Store ι B) (w : ι) : Prop :=
  s.phase w = .idle ∨ s.phase w = .modeSet → ∀ v fd, s.phase v ≠ .opened fd

theorem Phase.isOpened_eq_false (p : Phase) : p.isOpened = false ↔ ∀ fd, p ≠ .opened fd := by
  cases p <;> simp [isOpened]

instance [Fintype ι] (s : Store ι B) (w : ι) : Decidable (Undisturbed s w) :=
  decidable_of_iff
    (s.phase w = .idle ∨ s.phase w = .modeSet → ∀ v, (s.phase v).isOpened = false)
    (imp_congr_right fun _ => forall_congr' fun v => Phase.isOpened_eq_false (s.phase v))

/-- A property of complete contents is kept: at most one writer has the temporary file open and
empty, otherwise it is complete or nobody is about to rename it. -/
structure Sound (Good : List B → Prop) (s : Store ι B) : Prop where
  opened : ∀ w fd, s.phase w = .opened fd → s.disk.tmp = some fd ∧ s.disk.inodes[fd]? = some []
  single : ∀ v w fd fd', s.phase v = .opened fd → s.phase w = .opened fd' → v = w
  tmp : ∀ i, s.disk.tmp = some i → (∃ w fd, s.phase w = .opened fd) ∨ (∀ w, s.phase w = .idle) ∨
    ∃ bytes, s.disk.inodes[i]? = some bytes ∧ Good bytes
  target : s.saved = true → ∃ bytes, s.disk.content = some bytes ∧ Good bytes

theorem content_congr {d e : Disk B} (ht : e.target = d.target)
    (hi : ∀ j, d.target = some j → e.inodes[j]? = d.inodes[j]?) : e.content = d.content := by
  unfold Disk.content
  rw [ht]
  obtain hn | ⟨j, hj⟩ := Option.eq_none_or_eq_some d.target
  · rw [hn]
    rfl
  · rw [hj]
    exact hi j hj

theorem Sound.mono {Good Good' : List B → Prop} (h : ∀ bytes, Good bytes → Good' bytes)
    {s : Store ι B} (hs : Sound Good s) : Sound Good' s where
  opened := hs.opened
  single := hs.single
  tmp := fun i hi => (hs.tmp i hi).imp_right (Or.imp_right (fun ⟨b, hb, hg⟩ => ⟨b, hb, h b hg⟩))
  target := fun ht => (hs.target ht).imp (fun _ hb => ⟨hb.1, h _ hb.2⟩)

theorem openTmp_spec (d : Disk B) :
    d.openTmp.1.tmp = some d.openTmp.2 ∧ d.openTmp.1.inodes[d.openTmp.2]? = some [] ∧
      d.openTmp.1.content = d.content := by
  unfold Disk.openTmp
  split
  · rename_i i hi
    refine ⟨hi, List.getElem?_set_self (d.tmp_lt i hi), content_congr rfl (fun j hj => ?_)⟩
    exact List.getElem?_set_ne (fun he => d.distinct i hi (by rw [hj, he]))
  · refine ⟨rfl, by simp, content_congr rfl (fun j hj => ?_)⟩
    exact List.getElem?_append_left (d.target_lt j hj)

theorem write_spec (d : Disk B) {fd : Nat} (ht : d.tmp = some fd)
    (he : d.inodes[fd]? = some []) (bytes : List B) :
    (d.write fd bytes).inodes[fd]? = some bytes ∧ (d.write fd bytes).content = d.content := by
  refine ⟨by simp [Disk.write, he], content_congr rfl (fun j hj => ?_)⟩
  exact List.getElem?_modify_ne _ _ (fun h => d.distinct fd ht (by rw [hj, h]))

section Sound

variable [DecidableEq ι] {Good : List B → Prop} {s : Store ι B} {w : ι} {bytes : List B}

theorem opened_of_update {p : Phase} (hp : ∀ fd, p ≠ .opened fd) {v : ι} {fd : Nat}
    (h : Function.update s.phase w p v = .opened fd) : v ≠ w ∧ s.phase v = .opened fd := by
  by_cases hv : v = w
  · subst hv
    rw [Function.update_self] at h
    exact absurd h (hp fd)
  · rw [Function.update_of_ne hv] at h
    exact ⟨hv, h⟩

theorem sound_open (hs : Sound Good s) (hn : ∀ v fd, s.phase v ≠ .opened fd) :
    Sound Good { s with
      disk := s.disk.openTmp.1
      phase := Function.update s.phase w (.opened s.disk.openTmp.2) } := by
  obtain ⟨htmp, hempty, hcontent⟩ := openTmp_spec s.disk
  have self {v : ι} {fd : Nat}
      (h : Function.update s.phase w (.opened s.disk.openTmp.2) v = .opened fd) :
      v = w ∧ fd = s.disk.openTmp.2 := by
    by_cases hv : v = w
    · subst hv
      rw [Function.update_self] at h
      cases h
      exact ⟨rfl, rfl⟩
    · rw [Function.update_of_ne hv] at h
      exact absurd h (hn v fd)
  constructor
  · intro v fd h
    obtain ⟨_, rfl⟩ := self h
    exact ⟨htmp, hempty⟩
  · intro u v fd fd' hu hv
    rw [(self hu).1, (self hv).1]
  · intro i _
    exact Or.inl ⟨w, _, Function.update_self ..⟩
  · intro h
    obtain ⟨old, ho, hg⟩ := hs.target h
    exact ⟨old, hcontent.trans ho, hg⟩

theorem sound_write (hs : Sound Good s) {fd : Nat} (hw : s.phase w = .opened fd)
    (hg : Good bytes) :
    Sound Good { s with
      disk := s.disk.write fd bytes
      phase := Function.update s.phase w .written } := by
  obtain ⟨htmp, hempty⟩ := hs.opened w fd hw
  obtain ⟨hfull, hcontent⟩ := write_spec s.disk htmp hempty bytes
  have none' {v : ι} {fd' : Nat} (h : Function.update s.phase w .written v = .opened fd') :
      False := by
    obtain ⟨hv, h⟩ := opened_of_update (p := .written) nofun h
    exact hv (hs.single v w fd' fd h hw)
  constructor
  · intro v fd' h
    exact (none' h).elim
  · intro u v fd' fd'' h
    exact (none' h).elim
  · intro i hi
    obtain rfl : fd = i := Option.some.inj (htmp.symm.trans hi)
    exact Or.inr (Or.inr ⟨bytes, hfull, hg⟩)
  · intro h
    obtain ⟨old, ho, hg⟩ := hs.target h
    exact ⟨old, hcontent.trans ho, hg⟩

theorem sound_phase (hs : Sound Good s) {p : Phase} (hp : ∀ fd, p ≠ .opened fd)
    (hw : s.phase w = .written ∨ s.phase w = .modeSet) :
    Sound Good { s with phase := Function.update s.phase w p } := by
  constructor
  · intro v fd h
    exact hs.opened v fd (opened_of_update hp h).2
  · intro u v fd fd' hu hv
    exact hs.single u v fd fd' (opened_of_update hp hu).2 (opened_of_update hp hv).2
  · intro i hi
    obtain ⟨v, fd, hv⟩ | hidle | hgood := hs.tmp i hi
    · refine Or.inl ⟨v, fd, ?_⟩
      have hne : v ≠ w := by
        rintro rfl
        obtain hw | hw := hw <;> rw [hv] at hw <;> cases hw
      exact (Function.update_of_ne hne _ _).trans hv
    · obtain hw | hw := hw <;> rw [hidle w] at hw <;> cases hw
    · exact Or.inr (Or.inr hgood)
  · exact hs.target

theorem sound_rename (hs : Sound Good s) (hw : s.phase w = .modeSet)
    (hn : ∀ v fd, s.phase v ≠ .opened fd) {i : Nat} (ht : s.disk.tmp = some i) :
    Sound Good ⟨s.disk.rename i ht, Function.update s.phase w .idle, true⟩ := by
  have none' {v : ι} {fd : Nat} (h : Function.update s.phase w .idle v = .opened fd) : False :=
    hn v fd (opened_of_update (p := .idle) nofun h).2
  constructor
  · intro v fd h
    exact (none' h).elim
  · intro u v fd fd' h
    exact (none' h).elim
  · intro j hj
    cases hj
  · intro _
    obtain ⟨v, fd, hv⟩ | hidle | hgood := hs.tmp i ht
    · exact absurd hv (hn v fd)
    · rw [hidle w] at hw
      cases hw
    · exact hgood

theorem sound_save (hs : Sound Good s) (hu : Undisturbed s w) (hg : Good bytes) :
    Sound Good (s.save w bytes).1 := by
  cases hw : s.phase w with
  | idle =>
    simp only [Store.save, hw]
    exact sound_open hs (hu (Or.inl hw))
  | opened fd =>
    simp only [Store.save, hw]
    exact sound_write hs hw hg
  | written =>
    simp only [Store.save, hw]
    split
    · exact sound_phase hs nofun (Or.inl hw)
    · exact sound_phase hs nofun (Or.inl hw)
  | modeSet =>
    simp only [Store.save, hw]
    split
    · rename_i i hi
      exact sound_rename hs hw (hu (Or.inr hw)) hi
    · exact sound_phase hs nofun (Or.inr hw)

def Ready (Wants : List B → Prop) (d : Disk B) : Phase → Prop
  | .idle => True
  | .opened fd => d.tmp = some fd ∧ d.inodes[fd]? = some []
  | .written | .modeSet => ∃ i bytes, d.tmp = some i ∧ d.inodes[i]? = some bytes ∧ Wants bytes

def Steady (Wants : ι → List B → Prop) (s : Store ι B) : Prop :=
  ∀ w, Ready (Wants w) s.disk (s.phase w)

theorem ready_update {Wants : ι → List B → Prop} (hn : ∀ v, v ≠ w → s.phase v = .idle)
    {d : Disk B} {p : Phase} (h : Ready (Wants w) d p) (v : ι) :
    Ready (Wants v) d (Function.update s.phase w p v) := by
  by_cases hv : v = w
  · subst hv
    rw [Function.update_self]
    exact h
  · rw [Function.update_of_ne hv, hn v hv]
    trivial

theorem steady_save {Wants : ι → List B → Prop} (hs : Steady Wants s)
    (hn : ∀ v, v ≠ w → s.phase v = .idle) (hg : Wants w bytes) :
    (s.save w bytes).2 = .going ∧ Steady Wants (s.save w bytes).1 ∧
        (s.save w bytes).1.disk.content = s.disk.content ∨
      (s.save w bytes).2 = .done ∧ (∀ v, (s.save w bytes).1.phase v = .idle) ∧
        ∃ b, (s.save w bytes).1.disk.content = some b ∧ Wants w b := by
  have hw : Ready (Wants w) s.disk (s.phase w) := hs w
  cases hp : s.phase w with
  | idle =>
    obtain ⟨htmp, hempty, hcontent⟩ := openTmp_spec s.disk
    simp only [Store.save, hp]
    exact Or.inl ⟨trivial, ready_update hn ⟨htmp, hempty⟩, hcontent⟩
  | opened fd =>
    rw [hp] at hw
    obtain ⟨hfull, hcontent⟩ := write_spec s.disk hw.1 hw.2 bytes
    simp only [Store.save, hp]
    exact Or.inl ⟨trivial, ready_update hn ⟨fd, bytes, hw.1, hfull, hg⟩, hcontent⟩
  | written =>
    rw [hp] at hw
    obtain ⟨i, b, htmp, hb, hwants⟩ := hw
    simp only [Store.save, hp, htmp, Option.isSome_some, if_true]
    exact Or.inl ⟨trivial, ready_update hn ⟨i, b, htmp, hb, hwants⟩, trivial⟩
  | modeSet =>
    rw [hp] at hw
    obtain ⟨i, b, htmp, hb, hwants⟩ := hw
    simp only [Store.save, hp]
    split
    · rename_i j hj
      obtain rfl : i = j := Option.some.inj (htmp.symm.trans hj)
      refine Or.inr ⟨rfl, fun v => ?_, b, hb, hwants⟩
      change Function.update s.phase w .idle v = .idle
      by_cases hv : v = w
      · rw [hv, Function.update_self]
      · rw [Function.update_of_ne hv, hn v hv]
    · rename_i hnone
      rw [htmp] at hnone
      cases hnone

end Sound

end TempFile
