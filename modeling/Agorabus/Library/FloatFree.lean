import Agorabus.Library.JsonText

namespace Json

/-- Where a text has been scanned to: between strings and numbers, in a string, after a backslash,
or in a number, of which the characters so far are in reverse. -/
inductive Scan where
  | outside
  | inString
  | escaped
  | inNumber (token : List Char)

def isNumeric (c : Char) : Bool :=
  c.isDigit || c = '-' || c = '+' || c = '.' || c = 'e' || c = 'E'

/-- The numbers that are read as integers: those of 64 bits, signed or unsigned, without a fraction
or an exponent. A minus before a zero makes a float of it. -/
def isInteger : List Char → Bool
  | '-' :: ds =>
      ds.all Char.isDigit && decide (0 < Nat.ofDigitChars 10 ds 0) &&
        decide (Nat.ofDigitChars 10 ds 0 ≤ 2 ^ 63)
  | ds => ds.all Char.isDigit && decide (Nat.ofDigitChars 10 ds 0 < 2 ^ 64)

namespace Scan

def opened (c : Char) : Scan :=
  if c = '"' then inString else if c = '-' ∨ c.isDigit then inNumber [c] else outside

def next : Scan → Char → Option Scan
  | outside, c => some (opened c)
  | inString, c => some (if c = '"' then outside else if c = '\\' then escaped else inString)
  | escaped, _ => some inString
  | inNumber token, c =>
      if isNumeric c then some (inNumber (c :: token))
      else if isInteger token.reverse then some (opened c) else none

def ended : Scan → Bool
  | inNumber token => isInteger token.reverse
  | _ => true

def passes (s : Scan) (cs : List Char) : Bool := (cs.foldlM next s).any ended

end Scan

open Scan (passes)

/-- Every number that the text holds outside of its strings is read as an integer. -/
def FloatFree (text : String) : Prop := passes .outside text.toList = true

instance (text : String) : Decidable (FloatFree text) := inferInstanceAs (Decidable (_ = true))

/-- A reader that reads texts without floats as the other does. What it makes of other texts is left
open. -/
def ReadsAs {α : Type} (read model : String → Option α) : Prop :=
  ∀ text, FloatFree text → read text = model text

/-- The same of a reader that skips the fields it does not know without a look at what they hold:
only where the whole text can be read. -/
def SkimsAs {α : Type} (read model : String → Option α) : Prop :=
  ∀ text, FloatFree text → (parse text).isSome → read text = model text

theorem ReadsAs.skims {α : Type} {read model : String → Option α} (h : ReadsAs read model) :
    SkimsAs read model :=
  fun text hfree _ => h text hfree

theorem passes_cons (s : Scan) (c : Char) (cs : List Char) :
    passes s (c :: cs) = (s.next c).any (fun t => passes t cs) := by
  rw [passes, List.foldlM_cons]
  cases s.next c <;> rfl

theorem passes_outside {c : Char} (h : Scan.opened c = .outside) (cs : List Char) :
    passes .outside (c :: cs) = passes .outside cs := by
  rw [passes_cons, Scan.next, h]
  rfl

theorem passes_escape (c : Char) (cs : List Char) :
    passes .inString (escape c ++ cs) = passes .inString cs := by
  have hplain (d : Char) (hquote : d ≠ '"') (hslash : d ≠ '\\') (cs : List Char) :
      passes .inString (d :: cs) = passes .inString cs := by
    rw [passes_cons, Scan.next, if_neg hquote, if_neg hslash]
    rfl
  have hescaped (d : Char) (cs : List Char) :
      passes .inString ('\\' :: d :: cs) = passes .inString cs := by
    rw [passes_cons, Scan.next, if_neg (by decide), if_pos rfl, Option.any_some, passes_cons]
    rfl
  have hhex : ∀ n < 16, hexDigit n ≠ '"' ∧ hexDigit n ≠ '\\' := by decide
  unfold escape
  repeat' split
  · exact hescaped _ _
  · exact hescaped _ _
  · exact hescaped _ _
  · exact hescaped _ _
  · exact hescaped _ _
  · exact hescaped _ _
  · exact hescaped _ _
  · have hhigh := hhex (c.toNat / 16) (by omega)
    have hlow := hhex (c.toNat % 16) (by omega)
    rw [List.cons_append, List.cons_append, hescaped]
    simp only [List.cons_append, List.nil_append]
    rw [hplain '0' (by decide) (by decide), hplain '0' (by decide) (by decide),
      hplain _ hhigh.1 hhigh.2, hplain _ hlow.1 hlow.2]
  · rename_i hquote hslash _ _ _ _ _ _
    exact hplain c hquote hslash cs

theorem passes_printString (s : String) (rest : List Char) :
    passes .outside (printString s ++ rest) = passes .outside rest := by
  have hchars (cs : List Char) :
      passes .inString (cs.flatMap escape ++ '"' :: rest) = passes .outside rest := by
    induction cs with
    | nil =>
      rw [List.flatMap_nil, List.nil_append, passes_cons]
      rfl
    | cons c cs ih => rw [List.flatMap_cons, List.append_assoc, passes_escape, ih]
  rw [printString, List.cons_append, List.append_assoc, List.singleton_append, passes_cons]
  exact hchars s.toList

theorem passes_digits {ds : List Char} (hds : ∀ d ∈ ds, isNumeric d = true)
    (token rest : List Char) :
    passes (.inNumber token) (ds ++ rest) = passes (.inNumber (ds.reverse ++ token)) rest := by
  induction ds generalizing token with
  | nil => rfl
  | cons d ds ih =>
    rw [List.cons_append, passes_cons, Scan.next, if_pos (hds d List.mem_cons_self),
      Option.any_some, ih (fun e he => hds e (List.mem_cons_of_mem _ he)), List.reverse_cons,
      List.append_assoc]
    rfl

theorem passes_ends {token rest : List Char} (ht : isInteger token.reverse = true)
    (hr : Ends rest) : passes (.inNumber token) rest = passes .outside rest := by
  cases rest with
  | nil => exact ht
  | cons c cs =>
    have hc : isNumeric c = false := by
      obtain rfl | rfl | rfl := hr c rfl <;> rfl
    have hnext : (Scan.inNumber token).next c = some (Scan.opened c) := by
      rw [Scan.next, if_neg (by simp [hc]), if_pos ht]
    rw [passes_cons, passes_cons, hnext]
    rfl

theorem passes_printNumber {n : Int} (hn : -2 ^ 63 ≤ n ∧ n < 2 ^ 64) {rest : List Char}
    (hr : Ends rest) : passes .outside (printNumber n ++ rest) = passes .outside rest := by
  have hdigits (n : Nat) : ∀ d ∈ Nat.toDigits 10 n, d.isDigit = true :=
    fun d hd => Nat.isDigit_of_mem_toDigits (by decide) (by decide) hd
  have hnumeric (n : Nat) : ∀ d ∈ Nat.toDigits 10 n, isNumeric d = true :=
    fun d hd => by simp [isNumeric, hdigits n d hd]
  cases n with
  | ofNat n =>
    have htoken : isInteger (Nat.toDigits 10 n) = true := by
      have hall : (Nat.toDigits 10 n).all Char.isDigit = true := List.all_eq_true.mpr (hdigits n)
      unfold isInteger
      split
      · rename_i ds he
        rw [he] at hall
        cases hall
      · have hlt : (n : Int) < 2 ^ 64 := hn.2
        rw [hall, Nat.ofDigitChars_ten_toDigits, Bool.true_and, decide_eq_true_eq]
        omega
    rw [printNumber]
    cases hd : Nat.toDigits 10 n with
    | nil => exact absurd hd Nat.toDigits_ne_nil
    | cons c cs =>
      rw [hd] at htoken
      have hc : c.isDigit = true := hdigits n c (hd ▸ List.mem_cons_self)
      have hcs : ∀ d ∈ cs, isNumeric d = true :=
        fun d hm => hnumeric n d (hd ▸ List.mem_cons_of_mem _ hm)
      have hquote : c ≠ '"' := by
        rintro rfl
        cases hc
      rw [List.cons_append, passes_cons, Scan.next, Scan.opened, if_neg hquote,
        if_pos (Or.inr hc), Option.any_some, passes_digits hcs]
      exact passes_ends (by rw [List.reverse_append, List.reverse_reverse]; exact htoken) hr
  | negSucc n =>
    have htoken : isInteger ('-' :: Nat.toDigits 10 (n + 1)) = true := by
      rw [isInteger, List.all_eq_true.mpr (hdigits (n + 1)), Nat.ofDigitChars_ten_toDigits,
        Bool.true_and, Bool.and_eq_true, decide_eq_true_eq, decide_eq_true_eq]
      omega
    rw [printNumber, List.cons_append, passes_cons, Scan.next, Scan.opened, if_neg (by decide),
      if_pos (Or.inl rfl), Option.any_some, passes_digits (hnumeric (n + 1))]
    exact passes_ends (by rw [List.reverse_append, List.reverse_reverse]; exact htoken) hr

def Passed (v : Json) : Prop :=
  ∀ rest, Ends rest → passes .outside (print v ++ rest) = passes .outside rest

theorem ends_cons {c : Char} (h : c = ',' ∨ c = ']' ∨ c = '\x7d') (cs : List Char) :
    Ends (c :: cs) := by
  rintro d ⟨⟩
  exact h

theorem passed_array {xs : List Json} (h : ∀ x ∈ xs, Passed x) : Passed (.array xs) := by
  have hitems (rest : List Char) :
      passes .outside (printItems xs ++ ']' :: rest) = passes .outside rest := by
    induction xs with
    | nil => exact passes_outside rfl rest
    | cons x xs ih =>
      have hx := h x List.mem_cons_self
      by_cases hnil : xs = []
      · subst hnil
        rw [printItems, hx _ (ends_cons (Or.inr (Or.inl rfl)) _)]
        exact passes_outside rfl rest
      · rw [printItems_cons x hnil, List.append_assoc, List.cons_append,
          hx _ (ends_cons (Or.inl rfl) _), passes_outside rfl]
        exact ih (fun y hy => h y (List.mem_cons_of_mem _ hy))
  intro rest _
  rw [print, List.cons_append, List.append_assoc, List.singleton_append, passes_outside rfl]
  exact hitems rest

theorem passed_object {fs : List (String × Json)} (h : ∀ f ∈ fs, Passed f.2) :
    Passed (.object fs) := by
  have hfield (f : String × Json) (hf : Passed f.2) {rest : List Char} (hr : Ends rest) :
      passes .outside (printField f ++ rest) = passes .outside rest := by
    rw [printField, List.append_assoc, passes_printString, List.cons_append, passes_outside rfl]
    exact hf rest hr
  have hfields (rest : List Char) :
      passes .outside (printFields fs ++ '\x7d' :: rest) = passes .outside rest := by
    induction fs with
    | nil => exact passes_outside rfl rest
    | cons f fs ih =>
      have hf := h f List.mem_cons_self
      by_cases hnil : fs = []
      · subst hnil
        rw [printFields, hfield f hf (ends_cons (Or.inr (Or.inr rfl)) _)]
        exact passes_outside rfl rest
      · rw [printFields_cons f hnil, List.append_assoc, List.cons_append,
          hfield f hf (ends_cons (Or.inl rfl) _), passes_outside rfl]
        exact ih (fun g hg => h g (List.mem_cons_of_mem _ hg))
  intro rest _
  rw [print, List.cons_append, List.append_assoc, List.singleton_append, passes_outside rfl]
  exact hfields rest

theorem InRange.passed {v : Json} (hv : v.InRange) : Passed v := by
  induction v with
  | null => exact fun rest _ => rfl
  | bool b => cases b <;> exact fun rest _ => rfl
  | string s => exact fun rest _ => passes_printString s rest
  | number n =>
    cases hv with
    | number hn => exact fun rest hr => passes_printNumber hn hr
  | array xs ih =>
    cases hv with
    | array h => exact passed_array (fun x hx => ih x hx (h x hx))
  | object fs ih =>
    cases hv with
    | object h => exact passed_object (fun f hf => ih f hf (h f hf))

theorem InRange.floatFree_text {v : Json} (hv : v.InRange) : FloatFree v.text := by
  have hpass := hv.passed [] (by simp [Ends])
  rw [List.append_nil] at hpass
  rw [FloatFree, text, String.toList_ofList, hpass]
  rfl

/-- Floats, a minus zero and an integer that is too large; the last one stands in a string. -/
example : ["[1.5]", "1e5", "-0", "[18446744073709551616]", "[18446744073709551615,\"1.5\"]"].map
    (fun text => decide (FloatFree text)) = [false, false, false, false, true] := by
  decide +kernel

end Json
