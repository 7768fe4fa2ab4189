import Mathlib.Algebra.Ring.Int.Defs
import Mathlib.Algebra.Ring.Nat

/-- A `serde_json::Value` without floats. An object lists its fields in the
order of their keys. -/
inductive Json where
  | null
  | bool (b : Bool)
  | number (n : Int)
  | string (s : String)
  | array (xs : List Json)
  | object (fields : List (String × Json))

mutual

def Json.decEq : (v w : Json) → Decidable (v = w)
  | .null, .null => isTrue rfl
  | .bool a, .bool b => decidable_of_iff (a = b) (by simp)
  | .number m, .number n => decidable_of_iff (m = n) (by simp)
  | .string s, .string t => decidable_of_iff (s = t) (by simp)
  | .array xs, .array ys =>
    have := Json.decEqArray xs ys
    decidable_of_iff (xs = ys) (by simp)
  | .object fs, .object gs =>
    have := Json.decEqFields fs gs
    decidable_of_iff (fs = gs) (by simp)
  | .null, .bool _ | .null, .number _ | .null, .string _ | .null, .array _ | .null, .object _
  | .bool _, .null | .bool _, .number _ | .bool _, .string _ | .bool _, .array _
  | .bool _, .object _ | .number _, .null | .number _, .bool _ | .number _, .string _
  | .number _, .array _ | .number _, .object _ | .string _, .null | .string _, .bool _
  | .string _, .number _ | .string _, .array _ | .string _, .object _ | .array _, .null
  | .array _, .bool _ | .array _, .number _ | .array _, .string _ | .array _, .object _
  | .object _, .null | .object _, .bool _ | .object _, .number _ | .object _, .string _
  | .object _, .array _ => isFalse nofun
termination_by structural v => v

def Json.decEqArray : (xs ys : List Json) → Decidable (xs = ys)
  | [], [] => isTrue rfl
  | x :: xs, y :: ys =>
    have := Json.decEq x y
    have := Json.decEqArray xs ys
    decidable_of_iff (x = y ∧ xs = ys) (by simp)
  | [], _ :: _ | _ :: _, [] => isFalse nofun
termination_by structural xs => xs

def Json.decEqField : (f g : String × Json) → Decidable (f = g)
  | (k, v), (l, w) =>
    have := Json.decEq v w
    decidable_of_iff (k = l ∧ v = w) (by simp)
termination_by structural f => f

def Json.decEqFields : (fs gs : List (String × Json)) → Decidable (fs = gs)
  | [], [] => isTrue rfl
  | f :: fs, g :: gs =>
    have := Json.decEqField f g
    have := Json.decEqFields fs gs
    decidable_of_iff (f = g ∧ fs = gs) (by simp)
  | [], _ :: _ | _ :: _, [] => isFalse nofun
termination_by structural fs => fs

end

instance : DecidableEq Json := Json.decEq

def Json.get? (key : String) : Json → Option Json
  | .object fields => (fields.find? (fun f => f.1 == key)).map Prod.snd
  | _ => none

def Json.asStr? : Json → Option String
  | .string s => some s
  | _ => none

def Json.asU64? : Json → Option Nat
  | .number (.ofNat n) => some n
  | _ => none

def Json.nat (n : Nat) : Json := .number n

def Json.insert (o : Json) (key : String) (v : Json) : Json :=
  match o with
  | .object fields =>
      .object (fields.filter (fun f => f.1 < key) ++ (key, v) ::
        fields.filter (fun f => key < f.1))
  | o => o

@[elab_as_elim, induction_eliminator]
theorem Json.induction {P : Json → Prop} (null : P .null) (bool : ∀ b, P (.bool b))
    (number : ∀ n, P (.number n)) (string : ∀ s, P (.string s))
    (array : ∀ xs, (∀ x ∈ xs, P x) → P (.array xs))
    (object : ∀ fs, (∀ f ∈ fs, P f.2) → P (.object fs)) (v : Json) : P v := by
  refine @Json.rec P (fun xs => ∀ x ∈ xs, P x) (fun fs => ∀ f ∈ fs, P f.2) (fun f => P f.2)
    null bool number string array object ?_ ?_ ?_ ?_ ?_ v
  · simp
  · intro x xs hx hxs y hy
    obtain rfl | hy := List.mem_cons.mp hy
    · exact hx
    · exact hxs y hy
  · simp
  · intro f fs hf hfs g hg
    obtain rfl | hg := List.mem_cons.mp hg
    · exact hf
    · exact hfs g hg
  · exact fun k v hv => hv
