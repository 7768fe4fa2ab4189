import Agorabus.Library.Json
import Mathlib.Data.List.TakeWhile

namespace Json

def hexDigit (n : Nat) : Char := if n < 10 then Char.ofNat (48 + n) else Char.ofNat (87 + n)

/-- How a character stands in a string: control characters, quotes and backslashes are escaped. -/
def escape (c : Char) : List Char :=
  if c = '"' then ['\\', '"']
  else if c = '\\' then ['\\', '\\']
  else if c = '\x08' then ['\\', 'b']
  else if c = '\t' then ['\\', 't']
  else if c = '\n' then ['\\', 'n']
  else if c = '\x0c' then ['\\', 'f']
  else if c = '\r' then ['\\', 'r']
  else if c.toNat < 32 then
    ['\\', 'u', '0', '0', hexDigit (c.toNat / 16), hexDigit (c.toNat % 16)]
  else [c]

def printString (s : String) : List Char := '"' :: (s.toList.flatMap escape ++ ['"'])

def printNumber : Int → List Char
  | .ofNat n => Nat.toDigits 10 n
  | .negSucc n => '-' :: Nat.toDigits 10 (n + 1)

mutual

def print : Json → List Char
  | .null => ['n', 'u', 'l', 'l']
  | .bool true => ['t', 'r', 'u', 'e']
  | .bool false => ['f', 'a', 'l', 's', 'e']
  | .number n => printNumber n
  | .string s => printString s
  | .array xs => '[' :: (printItems xs ++ [']'])
  | .object fs => '\x7b' :: (printFields fs ++ ['\x7d'])
termination_by structural v => v

def printItems : List Json → List Char
  | [] => []
  | [x] => print x
  | x :: y :: ys => print x ++ ',' :: printItems (y :: ys)
termination_by structural xs => xs

def printField : String × Json → List Char
  | (k, v) => printString k ++ ':' :: print v
termination_by structural f => f

def printFields : List (String × Json) → List Char
  | [] => []
  | [f] => printField f
  | f :: g :: gs => printField f ++ ',' :: printFields (g :: gs)
termination_by structural fs => fs

end

def isBlank (c : Char) : Bool := c = ' ' || c = '\n' || c = '\t' || c = '\r'

def skipBlank (cs : List Char) : List Char := cs.dropWhile isBlank

def hexVal? (c : Char) : Option Nat :=
  if '0' ≤ c ∧ c ≤ '9' then some (c.toNat - 48)
  else if 'a' ≤ c ∧ c ≤ 'f' then some (c.toNat - 87)
  else if 'A' ≤ c ∧ c ≤ 'F' then some (c.toNat - 55)
  else none

def hex4 : List Char → Option (Nat × List Char)
  | a :: b :: c :: d :: cs => do
    let n := (← hexVal? a) * 4096 + (← hexVal? b) * 256 + (← hexVal? c) * 16 + (← hexVal? d)
    return (n, cs)
  | _ => none

/-- What follows a backslash. A code unit past the basic plane comes as a pair of surrogates. -/
def unescape : List Char → Option (Char × List Char)
  | [] => none
  | c :: cs =>
    if c = '"' ∨ c = '\\' ∨ c = '/' then some (c, cs)
    else if c = 'b' then some ('\x08', cs)
    else if c = 'f' then some ('\x0c', cs)
    else if c = 'n' then some ('\n', cs)
    else if c = 'r' then some ('\r', cs)
    else if c = 't' then some ('\t', cs)
    else if c = 'u' then do
      let (n, cs) ← hex4 cs
      if 0xD800 ≤ n ∧ n < 0xDC00 then
        match cs with
        | '\\' :: 'u' :: cs =>
          let (m, cs) ← hex4 cs
          if 0xDC00 ≤ m ∧ m < 0xE000 then
            return (Char.ofNat (0x10000 + (n - 0xD800) * 1024 + (m - 0xDC00)), cs)
          else none
        | _ => none
      else if 0xDC00 ≤ n ∧ n < 0xE000 then none
      else return (Char.ofNat n, cs)
    else none

def parseChars : Nat → List Char → Option (List Char × List Char)
  | 0, _ => none
  | _ + 1, [] => none
  | fuel + 1, c :: cs =>
    if c = '"' then some ([], cs)
    else if c = '\\' then do
      let (e, cs) ← unescape cs
      let (s, cs) ← parseChars fuel cs
      return (e :: s, cs)
    else if c.toNat < 32 then none
    else do
      let (s, cs) ← parseChars fuel cs
      return (c :: s, cs)

def parseString (cs : List Char) : Option (String × List Char) :=
  (parseChars cs.length cs).map (fun r => (String.ofList r.1, r.2))

/-- The digits of a number: no leading zero, and neither a fraction nor an exponent after them. -/
def parseDigits (cs : List Char) : Option (Nat × List Char) :=
  let digits := cs.takeWhile Char.isDigit
  let rest := cs.dropWhile Char.isDigit
  if digits = [] ∨ (digits.head? = some '0' ∧ digits.length ≠ 1) ∨
      rest.head?.any (fun c => c = '.' ∨ c = 'e' ∨ c = 'E') then none
  else some (Nat.ofDigitChars 10 digits 0, rest)

/-- A number is an integer of 64 bits, signed or unsigned. `serde_json` makes a float of every other
number, of a minus before a zero as well, which is left out here: what is said of any text is said
of texts without one. -/
def parseNumber : List Char → Option (Json × List Char)
  | '-' :: cs => do
    let (n, cs) ← parseDigits cs
    if 0 < n ∧ n ≤ 2 ^ 63 then return (.number (-n), cs) else none
  | cs => do
    let (n, cs) ← parseDigits cs
    if n < 2 ^ 64 then return (.number n, cs) else none

/-- How deep arrays and objects may nest is one less. -/
def recursionLimit : Nat := 128

mutual

def parseValue : Nat → Nat → List Char → Option (Json × List Char)
  | 0, _, _ => none
  | fuel + 1, depth, cs =>
    match skipBlank cs with
    | [] => none
    | '"' :: cs => (parseString cs).map (fun r => (.string r.1, r.2))
    | '[' :: cs =>
      if depth ≤ 1 then none
      else match skipBlank cs with
        | ']' :: cs => some (.array [], cs)
        | cs => (parseItems fuel (depth - 1) cs).map (fun r => (.array r.1, r.2))
    | '\x7b' :: cs =>
      if depth ≤ 1 then none
      else match skipBlank cs with
        | '\x7d' :: cs => some (.object [], cs)
        | cs => (parseFields fuel (depth - 1) cs).map (fun r => (.object r.1, r.2))
    | 'n' :: 'u' :: 'l' :: 'l' :: cs => some (.null, cs)
    | 't' :: 'r' :: 'u' :: 'e' :: cs => some (.bool true, cs)
    | 'f' :: 'a' :: 'l' :: 's' :: 'e' :: cs => some (.bool false, cs)
    | cs => parseNumber cs

def parseItems : Nat → Nat → List Char → Option (List Json × List Char)
  | 0, _, _ => none
  | fuel + 1, depth, cs => do
    let (x, cs) ← parseValue fuel depth cs
    match skipBlank cs with
    | ',' :: cs =>
      let (xs, cs) ← parseItems fuel depth cs
      return (x :: xs, cs)
    | ']' :: cs => return ([x], cs)
    | _ => none

def parseFields : Nat → Nat → List Char → Option (List (String × Json) × List Char)
  | 0, _, _ => none
  | fuel + 1, depth, cs =>
    match skipBlank cs with
    | '"' :: cs => do
      let (k, cs) ← parseString cs
      match skipBlank cs with
      | ':' :: cs =>
        let (v, cs) ← parseValue fuel depth cs
        match skipBlank cs with
        | ',' :: cs =>
          let (fs, cs) ← parseFields fuel depth cs
          return ((k, v) :: fs, cs)
        | '\x7d' :: cs => return ([(k, v)], cs)
        | _ => none
      | _ => none
    | _ => none

end

/-- The value that the whole text is. -/
def parse (text : String) : Option Json := do
  let (v, cs) ← parseValue text.toList.length recursionLimit text.toList
  if skipBlank cs = [] then return v else none

def text (v : Json) : String := String.ofList (print v)

theorem hexVal?_hexDigit : ∀ n < 16, hexVal? (hexDigit n) = some n := by decide

theorem hexDigit_visible : ∀ n < 16, 32 ≤ (hexDigit n).toNat := by decide

theorem unescape_control {c : Char} (hc : c.toNat < 32) (cs : List Char) :
    unescape ('u' :: '0' :: '0' :: hexDigit (c.toNat / 16) :: hexDigit (c.toNat % 16) :: cs) =
      some (c, cs) := by
  have hhigh : c.toNat / 16 < 16 := by omega
  have hmod : c.toNat % 16 < 16 := by omega
  have hhex : hex4 ('0' :: '0' :: hexDigit (c.toNat / 16) :: hexDigit (c.toNat % 16) :: cs) =
      some (c.toNat, cs) := by
    rw [hex4, hexVal?_hexDigit _ hhigh, hexVal?_hexDigit _ hmod]
    have hzero : hexVal? '0' = some 0 := rfl
    simp only [hzero, Option.bind_eq_bind, Option.bind_some, pure]
    congr 2
    omega
  change (do
    let (n, cs) ← hex4 ('0' :: '0' :: hexDigit (c.toNat / 16) :: hexDigit (c.toNat % 16) :: cs)
    _) = _
  rw [hhex]
  simp only [Option.bind_eq_bind, Option.bind_some]
  rw [if_neg (by omega), if_neg (by omega), Char.ofNat_toNat]
  rfl

theorem escape_cases (c : Char) :
    (escape c = [c] ∧ c ≠ '"' ∧ c ≠ '\\' ∧ 32 ≤ c.toNat) ∨
    ∃ e, escape c = '\\' :: e ∧ (∀ cs, unescape (e ++ cs) = some (c, cs)) ∧
      ∀ d ∈ e, 32 ≤ d.toNat := by
  have short (d e : Char) (hd : 32 ≤ d.toNat)
      (h : ∀ cs, unescape (d :: cs) = some (e, cs)) (hc : c = e) (he : escape e = ['\\', d]) :
      ∃ e, escape c = '\\' :: e ∧ (∀ cs, unescape (e ++ cs) = some (c, cs)) ∧
        ∀ d ∈ e, 32 ≤ d.toNat := by
    subst hc
    exact ⟨[d], he, h, by simpa using hd⟩
  by_cases hquote : c = '"'
  · exact Or.inr (short '"' _ (by decide) (fun _ => rfl) hquote rfl)
  by_cases hslash : c = '\\'
  · exact Or.inr (short '\\' _ (by decide) (fun _ => rfl) hslash rfl)
  by_cases hb : c = '\x08'
  · exact Or.inr (short 'b' _ (by decide) (fun _ => rfl) hb rfl)
  by_cases ht : c = '\t'
  · exact Or.inr (short 't' _ (by decide) (fun _ => rfl) ht rfl)
  by_cases hn : c = '\n'
  · exact Or.inr (short 'n' _ (by decide) (fun _ => rfl) hn rfl)
  by_cases hf : c = '\x0c'
  · exact Or.inr (short 'f' _ (by decide) (fun _ => rfl) hf rfl)
  by_cases hr : c = '\r'
  · exact Or.inr (short 'r' _ (by decide) (fun _ => rfl) hr rfl)
  simp only [escape, hquote, hslash, hb, ht, hn, hf, hr, if_false]
  by_cases hlow : c.toNat < 32
  · rw [if_pos hlow]
    refine Or.inr ⟨_, rfl, unescape_control hlow, ?_⟩
    simp only [List.mem_cons, List.not_mem_nil, or_false]
    rintro d (rfl | rfl | rfl | rfl | rfl)
    · decide
    · decide
    · decide
    · exact hexDigit_visible _ (by omega)
    · exact hexDigit_visible _ (by omega)
  · rw [if_neg hlow]
    exact Or.inl ⟨rfl, hquote, hslash, by omega⟩

theorem parseChars_print {s rest : List Char} {fuel : Nat} (hf : s.length < fuel) :
    parseChars fuel (s.flatMap escape ++ '"' :: rest) = some (s, rest) := by
  induction s generalizing fuel with
  | nil =>
    obtain ⟨fuel, rfl⟩ := Nat.exists_eq_succ_of_ne_zero (Nat.ne_of_gt hf)
    rfl
  | cons c s ih =>
    obtain ⟨fuel, rfl⟩ := Nat.exists_eq_succ_of_ne_zero (Nat.ne_of_gt (Nat.zero_lt_of_lt hf))
    have ih := ih (Nat.lt_of_succ_lt_succ hf)
    rw [List.flatMap_cons, List.append_assoc]
    obtain ⟨he, hquote, hslash, hlow⟩ | ⟨e, he, hun, _⟩ := escape_cases c
    · rw [he, List.singleton_append, Nat.succ_eq_add_one, parseChars, if_neg hquote,
        if_neg hslash, if_neg (by omega), ih]
      rfl
    · rw [he, List.cons_append, Nat.succ_eq_add_one, parseChars, if_neg (by decide), if_pos rfl,
        hun]
      simp only [Option.bind_eq_bind, Option.bind_some, ih]
      rfl

theorem length_le_flatMap_escape (s : List Char) : s.length ≤ (s.flatMap escape).length := by
  induction s with
  | nil => exact Nat.le_refl _
  | cons c s ih =>
    have hpos : 1 ≤ (escape c).length := by
      obtain ⟨he, _⟩ | ⟨e, he, _⟩ := escape_cases c
      · rw [he]
        exact Nat.le_refl _
      · rw [he, List.length_cons]
        omega
    rw [List.flatMap_cons, List.length_append, List.length_cons]
    omega

theorem parseString_print (s : String) (rest : List Char) :
    parseString (s.toList.flatMap escape ++ '"' :: rest) = some (s, rest) := by
  have hlen := length_le_flatMap_escape s.toList
  rw [parseString, parseChars_print, Option.map_some, String.ofList_toList]
  rw [List.length_append, List.length_cons]
  omega

/-- What can follow a value in a text: a comma, the end of the array or object, or nothing. -/
def Ends (rest : List Char) : Prop := ∀ c ∈ rest.head?, c = ',' ∨ c = ']' ∨ c = '\x7d'

theorem toDigits_head {n : Nat} (hn : 0 < n) : (Nat.toDigits 10 n).head? ≠ some '0' := by
  induction n using Nat.strongRecOn with
  | ind n ih =>
    rw [Nat.toDigits_eq_if (by decide)]
    split
    · rename_i hlt
      have : ∀ m < 10, 0 < m → [m.digitChar].head? ≠ some '0' := by decide
      exact this n hlt hn
    · rename_i hge
      have ih := ih (n / 10) (by omega) (by omega)
      cases hd : Nat.toDigits 10 (n / 10) with
      | nil => exact absurd hd Nat.toDigits_ne_nil
      | cons c cs =>
        rw [hd] at ih
        exact ih

theorem parseDigits_print (n : Nat) {rest : List Char} (hr : Ends rest) :
    parseDigits (Nat.toDigits 10 n ++ rest) = some (n, rest) := by
  have hdigits : ∀ c ∈ Nat.toDigits 10 n, c.isDigit = true :=
    fun c hc => Nat.isDigit_of_mem_toDigits (by decide) (by decide) hc
  have hrest : ∀ c ∈ rest.head?, c.isDigit = false ∧ ¬ (c = '.' ∨ c = 'e' ∨ c = 'E') := by
    intro c hc
    obtain rfl | rfl | rfl := hr c hc <;> decide
  have hstop : rest.takeWhile Char.isDigit = [] ∧ rest.dropWhile Char.isDigit = rest := by
    cases rest with
    | nil => exact ⟨rfl, rfl⟩
    | cons c cs =>
      have hc := (hrest c rfl).1
      exact ⟨List.takeWhile_cons_of_neg (by simp [hc]), List.dropWhile_cons_of_neg (by simp [hc])⟩
  have htake : (Nat.toDigits 10 n ++ rest).takeWhile Char.isDigit = Nat.toDigits 10 n := by
    rw [List.takeWhile_append_of_pos hdigits, hstop.1, List.append_nil]
  have hdrop : (Nat.toDigits 10 n ++ rest).dropWhile Char.isDigit = rest := by
    rw [List.dropWhile_append_of_pos hdigits, hstop.2]
  have hzero : ¬ ((Nat.toDigits 10 n).head? = some '0' ∧ (Nat.toDigits 10 n).length ≠ 1) := by
    rintro ⟨hhead, hlen⟩
    obtain rfl | hn := Nat.eq_zero_or_pos n
    · exact hlen rfl
    · exact toDigits_head hn hhead
  have hno : rest.head?.any (fun c => c = '.' ∨ c = 'e' ∨ c = 'E') = false := by
    cases h : rest.head? with
    | none => rfl
    | some c => exact decide_eq_false (hrest c h).2
  rw [parseDigits]
  simp only [htake, hdrop, Nat.toDigits_ne_nil, hzero, hno, Bool.false_eq_true,
    or_self, if_false, Nat.ofDigitChars_ten_toDigits]

inductive InRange : Json → Prop
  | null : InRange .null
  | bool (b : Bool) : InRange (.bool b)
  | number {n : Int} (h : -2 ^ 63 ≤ n ∧ n < 2 ^ 64) : InRange (.number n)
  | string (s : String) : InRange (.string s)
  | array {xs : List Json} (h : ∀ x ∈ xs, InRange x) : InRange (.array xs)
  | object {fs : List (String × Json)} (h : ∀ f ∈ fs, InRange f.2) : InRange (.object fs)

theorem parseNumber_print {n : Int} (hn : -2 ^ 63 ≤ n ∧ n < 2 ^ 64) {rest : List Char}
    (hr : Ends rest) : parseNumber (printNumber n ++ rest) = some (.number n, rest) := by
  cases n with
  | negSucc n =>
    rw [printNumber, List.cons_append, parseNumber, parseDigits_print _ hr]
    simp only [Option.bind_eq_bind, Option.bind_some]
    rw [if_pos (by omega)]
    rfl
  | ofNat n =>
    have hparse := parseDigits_print n hr
    rw [printNumber]
    cases hd : Nat.toDigits 10 n with
    | nil => exact absurd hd Nat.toDigits_ne_nil
    | cons c cs =>
      have hc : c.isDigit = true := Nat.isDigit_of_mem_toDigits (by decide) (by decide)
        (show c ∈ Nat.toDigits 10 n by rw [hd]; exact List.mem_cons_self)
      have hminus : c ≠ '-' := fun h => by
        rw [h] at hc
        exact absurd hc (by decide)
      rw [hd, List.cons_append] at hparse
      rw [List.cons_append, parseNumber.eq_def]
      split
      · rename_i he
        cases he
        exact absurd rfl hminus
      · have hlt : (n : Int) < 2 ^ 64 := hn.2
        rw [hparse]
        simp only [Option.bind_eq_bind, Option.bind_some]
        rw [if_pos (by omega)]
        rfl

mutual

def depth : Json → Nat
  | .array xs => depthItems xs + 1
  | .object fs => depthFields fs + 1
  | .null | .bool _ | .number _ | .string _ => 0
termination_by structural v => v

def depthItems : List Json → Nat
  | [] => 0
  | x :: xs => max (depth x) (depthItems xs)
termination_by structural xs => xs

def depthField : String × Json → Nat
  | (_, v) => depth v
termination_by structural f => f

def depthFields : List (String × Json) → Nat
  | [] => 0
  | f :: fs => max (depthField f) (depthFields fs)
termination_by structural fs => fs

end

def opens (c : Char) : Bool :=
  c = '"' || c = '[' || c = '\x7b' || c = 'n' || c = 't' || c = 'f' || c = '-' || c.isDigit

theorem printNumber_cons (n : Int) :
    ∃ c cs, printNumber n = c :: cs ∧ (c = '-' ∨ c.isDigit = true) := by
  cases n with
  | negSucc n => exact ⟨'-', _, rfl, Or.inl rfl⟩
  | ofNat n =>
    cases hd : Nat.toDigits 10 n with
    | nil => exact absurd hd Nat.toDigits_ne_nil
    | cons c cs =>
      exact ⟨c, cs, hd, Or.inr (Nat.isDigit_of_mem_toDigits (by decide) (by decide)
        (show c ∈ Nat.toDigits 10 n by rw [hd]; exact List.mem_cons_self))⟩

theorem print_cons (v : Json) : ∃ c cs, print v = c :: cs ∧ opens c = true := by
  cases v with
  | null | string | array | object => exact ⟨_, _, rfl, rfl⟩
  | bool b => cases b <;> exact ⟨_, _, rfl, rfl⟩
  | number n =>
    obtain ⟨c, cs, hn, hc⟩ := printNumber_cons n
    refine ⟨c, cs, hn, ?_⟩
    obtain rfl | hc := hc
    · rfl
    · simp [opens, hc]

theorem skipBlank_cons {c : Char} {cs : List Char} (h : isBlank c = false) :
    skipBlank (c :: cs) = c :: cs := by
  rw [skipBlank, List.dropWhile_cons, h]
  rfl

theorem not_blank_of_opens {c : Char} (h : opens c = true) : isBlank c = false := by
  rw [Bool.eq_false_iff]
  intro hb
  simp only [isBlank, Bool.or_eq_true, decide_eq_true_eq, or_assoc] at hb
  obtain rfl | rfl | rfl | rfl := hb <;> exact absurd h (by decide)

def Parses (v : Json) : Prop := ∀ fuel depth rest, v.depth < depth → (print v).length ≤ fuel →
  Ends rest → parseValue fuel depth (print v ++ rest) = some (v, rest)

theorem printItems_cons (x : Json) {xs : List Json} (h : xs ≠ []) :
    printItems (x :: xs) = print x ++ ',' :: printItems xs := by
  cases xs with
  | nil => exact absurd rfl h
  | cons y ys => rfl

theorem parseItems_print {xs : List Json} (hne : xs ≠ []) (h : ∀ x ∈ xs, Parses x)
    {fuel depth : Nat} {rest : List Char} (hd : depthItems xs < depth)
    (hf : (printItems xs).length < fuel) :
    parseItems fuel depth (printItems xs ++ ']' :: rest) = some (xs, rest) := by
  induction xs generalizing fuel with
  | nil => exact absurd rfl hne
  | cons x xs ih =>
    obtain ⟨fuel, rfl⟩ := Nat.exists_eq_succ_of_ne_zero (Nat.ne_of_gt (Nat.zero_lt_of_lt hf))
    have hx : x.depth < depth := Nat.lt_of_le_of_lt (Nat.le_max_left _ _) hd
    have hxs : depthItems xs < depth := Nat.lt_of_le_of_lt (Nat.le_max_right _ _) hd
    by_cases hnil : xs = []
    · subst hnil
      have hends : Ends (']' :: rest) := by
        rintro c ⟨⟩
        exact Or.inr (Or.inl rfl)
      have hparse := h x List.mem_cons_self fuel depth (']' :: rest) hx (by
        rw [printItems] at hf
        omega) hends
      rw [printItems, Nat.succ_eq_add_one, parseItems, hparse]
      rfl
    · have hends : Ends (',' :: (printItems xs ++ ']' :: rest)) := by
        rintro c ⟨⟩
        exact Or.inl rfl
      rw [printItems_cons x hnil] at hf ⊢
      rw [List.length_append, List.length_cons] at hf
      have hparse := h x List.mem_cons_self fuel depth _ hx (by omega) hends
      have hrest := ih hnil (fun y hy => h y (List.mem_cons_of_mem _ hy)) hxs
        (show (printItems xs).length < fuel by omega)
      rw [List.append_assoc, List.cons_append, Nat.succ_eq_add_one, parseItems, hparse]
      simp only [Option.bind_eq_bind, Option.bind_some,
        skipBlank_cons (show isBlank ',' = false from rfl), hrest]
      rfl

theorem printFields_cons (f : String × Json) {fs : List (String × Json)} (h : fs ≠ []) :
    printFields (f :: fs) = printField f ++ ',' :: printFields fs := by
  cases fs with
  | nil => exact absurd rfl h
  | cons g gs => rfl

theorem skipBlank_printField (k : String) (v : Json) (rest : List Char) :
    skipBlank (printField (k, v) ++ rest) =
      '"' :: (k.toList.flatMap escape ++ '"' :: ':' :: (print v ++ rest)) := by
  rw [printField, printString]
  simp only [List.cons_append, List.append_assoc, List.nil_append]
  exact skipBlank_cons rfl

theorem parseFields_comma {k : String} {v : Json} {fuel depth : Nat} {cs : List Char}
    (hv : parseValue fuel depth (print v ++ ',' :: cs) = some (v, ',' :: cs)) :
    parseFields (fuel + 1) depth (printField (k, v) ++ ',' :: cs) =
      (parseFields fuel depth cs).map (fun r => ((k, v) :: r.1, r.2)) := by
  rw [parseFields, skipBlank_printField]
  simp only [parseString_print, Option.bind_eq_bind, Option.bind_some,
    skipBlank_cons (show isBlank ':' = false from rfl), hv,
    skipBlank_cons (show isBlank ',' = false from rfl)]
  cases parseFields fuel depth cs <;> rfl

theorem parseFields_last {k : String} {v : Json} {fuel depth : Nat} {cs : List Char}
    (hv : parseValue fuel depth (print v ++ '\x7d' :: cs) = some (v, '\x7d' :: cs)) :
    parseFields (fuel + 1) depth (printField (k, v) ++ '\x7d' :: cs) = some ([(k, v)], cs) := by
  rw [parseFields, skipBlank_printField]
  simp only [parseString_print, Option.bind_eq_bind, Option.bind_some,
    skipBlank_cons (show isBlank ':' = false from rfl), hv,
    skipBlank_cons (show isBlank '\x7d' = false from rfl)]
  rfl

theorem parseFields_print {fs : List (String × Json)} (hne : fs ≠ [])
    (h : ∀ f ∈ fs, Parses f.2) {fuel depth : Nat} {rest : List Char}
    (hd : depthFields fs < depth) (hf : (printFields fs).length < fuel) :
    parseFields fuel depth (printFields fs ++ '\x7d' :: rest) = some (fs, rest) := by
  induction fs generalizing fuel with
  | nil => exact absurd rfl hne
  | cons f fs ih =>
    obtain ⟨k, v⟩ := f
    obtain ⟨fuel, rfl⟩ := Nat.exists_eq_succ_of_ne_zero (Nat.ne_of_gt (Nat.zero_lt_of_lt hf))
    have hv : Parses v := h (k, v) List.mem_cons_self
    have hdv : v.depth < depth := Nat.lt_of_le_of_lt (Nat.le_max_left _ _) hd
    have hfs : depthFields fs < depth := Nat.lt_of_le_of_lt (Nat.le_max_right _ _) hd
    have hlen : (print v).length < (printField (k, v)).length := by
      rw [printField, List.length_append, List.length_cons]
      omega
    by_cases hnil : fs = []
    · subst hnil
      rw [printFields] at hf ⊢
      have hends : Ends ('\x7d' :: rest) := by
        rintro c ⟨⟩
        exact Or.inr (Or.inr rfl)
      exact parseFields_last (hv fuel depth _ hdv (by omega) hends)
    · have hends : Ends (',' :: (printFields fs ++ '\x7d' :: rest)) := by
        rintro c ⟨⟩
        exact Or.inl rfl
      rw [printFields_cons _ hnil] at hf ⊢
      rw [List.length_append, List.length_cons] at hf
      rw [List.append_assoc, List.cons_append, Nat.succ_eq_add_one,
        parseFields_comma (hv fuel depth _ hdv (by omega) hends),
        ih hnil (fun g hg => h g (List.mem_cons_of_mem _ hg)) hfs (by omega)]
      rfl

theorem parseValue_number {fuel depth : Nat} {c : Char} {cs : List Char}
    (h : c = '-' ∨ c.isDigit = true) :
    parseValue (fuel + 1) depth (c :: cs) = parseNumber (c :: cs) := by
  have hblank : isBlank c = false := not_blank_of_opens (by
    obtain rfl | h := h
    · rfl
    · simp [opens, h])
  have hne (d : Char) (hd : d ≠ '-' ∧ d.isDigit = false) : c ≠ d := by
    rintro rfl
    obtain h | h := h
    · exact hd.1 h
    · rw [hd.2] at h
      cases h
  rw [parseValue, skipBlank_cons hblank]
  split
  · rename_i he
    cases he
  all_goals
    first
      | rfl
      | rename_i he
        exact absurd (List.cons.inj he).1 (hne _ (by decide))

theorem parseValue_string {fuel depth : Nat} {cs : List Char} :
    parseValue (fuel + 1) depth ('"' :: cs) =
      (parseString cs).map (fun r => (.string r.1, r.2)) := by
  rw [parseValue, skipBlank_cons (show isBlank '"' = false from rfl)]
  rfl

theorem parseValue_array {fuel depth : Nat} {cs : List Char} (hd : 1 < depth) :
    parseValue (fuel + 1) depth ('[' :: cs) = match skipBlank cs with
      | ']' :: cs => some (.array [], cs)
      | cs => (parseItems fuel (depth - 1) cs).map (fun r => (.array r.1, r.2)) := by
  rw [parseValue, skipBlank_cons (show isBlank '[' = false from rfl)]
  exact if_neg (by omega)

theorem parseValue_object {fuel depth : Nat} {cs : List Char} (hd : 1 < depth) :
    parseValue (fuel + 1) depth ('\x7b' :: cs) = match skipBlank cs with
      | '\x7d' :: cs => some (.object [], cs)
      | cs => (parseFields fuel (depth - 1) cs).map (fun r => (.object r.1, r.2)) := by
  rw [parseValue, skipBlank_cons (show isBlank '\x7b' = false from rfl)]
  exact if_neg (by omega)

theorem printItems_opens {xs : List Json} (hne : xs ≠ []) :
    ∃ c cs, printItems xs = c :: cs ∧ opens c = true := by
  obtain ⟨x, xs, rfl⟩ := List.exists_cons_of_ne_nil hne
  obtain ⟨c, cs, hx, hc⟩ := print_cons x
  cases xs with
  | nil => exact ⟨c, cs, hx, hc⟩
  | cons y ys => exact ⟨c, _, by rw [printItems, hx, List.cons_append], hc⟩

theorem printFields_opens {fs : List (String × Json)} (hne : fs ≠ []) :
    ∃ cs, printFields fs = '"' :: cs := by
  obtain ⟨⟨k, v⟩, fs, rfl⟩ := List.exists_cons_of_ne_nil hne
  cases fs with
  | nil => exact ⟨_, rfl⟩
  | cons g gs => exact ⟨_, rfl⟩

theorem parses_array {xs : List Json} (h : ∀ x ∈ xs, Parses x) : Parses (.array xs) := by
  intro fuel levels rest hd hf _
  obtain ⟨fuel, rfl⟩ := Nat.exists_eq_succ_of_ne_zero (show fuel ≠ 0 by rintro rfl; cases hf)
  rw [depth] at hd
  rw [print, List.length_cons, List.length_append, List.length_singleton] at hf
  rw [print, List.cons_append, List.append_assoc, List.singleton_append, Nat.succ_eq_add_one,
    parseValue_array (by omega)]
  by_cases hnil : xs = []
  · subst hnil
    rfl
  · obtain ⟨c, cs, hc, hopen⟩ := printItems_opens hnil
    have hitems : parseItems fuel (levels - 1) (printItems xs ++ ']' :: rest) =
        some (xs, rest) := parseItems_print hnil h (by omega) (by omega)
    rw [hc, List.cons_append] at hitems ⊢
    rw [skipBlank_cons (not_blank_of_opens hopen)]
    split
    · rename_i he
      rw [(List.cons.inj he).1] at hopen
      cases hopen
    · rw [hitems]
      rfl

theorem parses_object {fs : List (String × Json)} (h : ∀ f ∈ fs, Parses f.2) :
    Parses (.object fs) := by
  intro fuel levels rest hd hf _
  obtain ⟨fuel, rfl⟩ := Nat.exists_eq_succ_of_ne_zero (show fuel ≠ 0 by rintro rfl; cases hf)
  rw [depth] at hd
  rw [print, List.length_cons, List.length_append, List.length_singleton] at hf
  rw [print, List.cons_append, List.append_assoc, List.singleton_append, Nat.succ_eq_add_one,
    parseValue_object (by omega)]
  by_cases hnil : fs = []
  · subst hnil
    rfl
  · obtain ⟨cs, hc⟩ := printFields_opens hnil
    have hfields : parseFields fuel (levels - 1) (printFields fs ++ '\x7d' :: rest) =
        some (fs, rest) := parseFields_print hnil h (by omega) (by omega)
    rw [hc, List.cons_append] at hfields ⊢
    rw [skipBlank_cons (show isBlank '"' = false from rfl)]
    exact congrArg (Option.map (fun r => (Json.object r.1, r.2))) hfields

theorem InRange.parses {v : Json} (hv : v.InRange) : Parses v := by
  induction v with
  | null =>
    intro fuel levels rest _ hf _
    obtain ⟨fuel, rfl⟩ := Nat.exists_eq_succ_of_ne_zero (show fuel ≠ 0 by rintro rfl; cases hf)
    rfl
  | bool b =>
    intro fuel levels rest _ hf _
    obtain ⟨fuel, rfl⟩ := Nat.exists_eq_succ_of_ne_zero
      (show fuel ≠ 0 by rintro rfl; cases b <;> cases hf)
    cases b <;> rfl
  | string s =>
    intro fuel levels rest _ hf _
    obtain ⟨fuel, rfl⟩ := Nat.exists_eq_succ_of_ne_zero (show fuel ≠ 0 by rintro rfl; cases hf)
    rw [print, printString, List.cons_append, List.append_assoc, List.singleton_append,
      Nat.succ_eq_add_one, parseValue_string, parseString_print, Option.map_some]
  | number n =>
    intro fuel levels rest _ hf hr
    cases hv with
    | number hn =>
      obtain ⟨c, cs, hc, hopen⟩ := printNumber_cons n
      rw [print, hc, List.length_cons] at hf
      obtain ⟨fuel, rfl⟩ := Nat.exists_eq_succ_of_ne_zero (show fuel ≠ 0 by omega)
      rw [← parseNumber_print hn hr, print, hc, List.cons_append]
      exact parseValue_number hopen
  | array xs ih =>
    cases hv with
    | array h => exact parses_array (fun x hx => ih x hx (h x hx))
  | object fs ih =>
    cases hv with
    | object h => exact parses_object (fun f hf => ih f hf (h f hf))

theorem parse_text {v : Json} (hv : v.InRange) (hd : v.depth < recursionLimit) :
    parse v.text = some v := by
  have hparse := hv.parses (print v).length recursionLimit [] hd (Nat.le_refl _) (by simp [Ends])
  rw [List.append_nil] at hparse
  rw [parse, text, String.toList_ofList, hparse]
  rfl

def Visible (cs : List Char) : Prop := ∀ c ∈ cs, 32 ≤ c.toNat

theorem visible_append {cs ds : List Char} : Visible (cs ++ ds) ↔ Visible cs ∧ Visible ds :=
  List.forall_mem_append

theorem visible_cons {c : Char} {cs : List Char} :
    Visible (c :: cs) ↔ 32 ≤ c.toNat ∧ Visible cs :=
  List.forall_mem_cons

theorem visible_nil : Visible [] := List.forall_mem_nil _

theorem visible_printString (s : String) : Visible (printString s) := by
  rw [printString, visible_cons, visible_append]
  refine ⟨by decide, ?_, visible_cons.mpr ⟨by decide, visible_nil⟩⟩
  intro d hd
  obtain ⟨c, _, hd⟩ := List.mem_flatMap.mp hd
  obtain ⟨he, _, _, hlow⟩ | ⟨e, he, _, hlow⟩ := escape_cases c
  · rw [he, List.mem_singleton] at hd
    rw [hd]
    exact hlow
  · rw [he] at hd
    obtain rfl | hd := List.mem_cons.mp hd
    · decide
    · exact hlow d hd

theorem visible_toDigits (n : Nat) : Visible (Nat.toDigits 10 n) := by
  intro c hc
  have hdigit : c.isDigit = true := Nat.isDigit_of_mem_toDigits (by decide) (by decide) hc
  rw [Char.isDigit, Bool.and_eq_true, decide_eq_true_eq] at hdigit
  have := UInt32.le_iff_toNat_le.mp hdigit.1
  exact Nat.le_trans (by decide) this

theorem visible_printNumber (n : Int) : Visible (printNumber n) := by
  cases n with
  | ofNat n => exact visible_toDigits n
  | negSucc n => exact visible_cons.mpr ⟨by decide, visible_toDigits (n + 1)⟩

theorem visible_printItems {xs : List Json} (h : ∀ x ∈ xs, Visible (print x)) :
    Visible (printItems xs) := by
  induction xs with
  | nil => exact visible_nil
  | cons x xs ih =>
    have hx := h x List.mem_cons_self
    by_cases hnil : xs = []
    · subst hnil
      exact hx
    · rw [printItems_cons x hnil, visible_append, visible_cons]
      exact ⟨hx, by decide, ih (fun y hy => h y (List.mem_cons_of_mem _ hy))⟩

theorem visible_printFields {fs : List (String × Json)} (h : ∀ f ∈ fs, Visible (print f.2)) :
    Visible (printFields fs) := by
  induction fs with
  | nil => exact visible_nil
  | cons f fs ih =>
    have hf : Visible (printField f) := by
      rw [printField, visible_append, visible_cons]
      exact ⟨visible_printString f.1, by decide, h f List.mem_cons_self⟩
    by_cases hnil : fs = []
    · subst hnil
      exact hf
    · rw [printFields_cons f hnil, visible_append, visible_cons]
      exact ⟨hf, by decide, ih (fun g hg => h g (List.mem_cons_of_mem _ hg))⟩

theorem visible_print (v : Json) : Visible (print v) := by
  induction v with
  | null => simp [print, visible_cons, visible_nil]
  | bool b => cases b <;> simp [print, visible_cons, visible_nil]
  | number n => exact visible_printNumber n
  | string s => exact visible_printString s
  | array xs ih =>
    rw [print, visible_cons, visible_append, visible_cons]
    exact ⟨by decide, visible_printItems ih, by decide, visible_nil⟩
  | object fs ih =>
    rw [print, visible_cons, visible_append, visible_cons]
    exact ⟨by decide, visible_printFields ih, by decide, visible_nil⟩

end Json
