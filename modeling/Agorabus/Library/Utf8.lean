import Mathlib.Data.List.Basic

namespace Utf8

def encode (s : String) : List UInt8 := s.toList.flatMap String.utf8EncodeChar

def isContinuation (b : UInt8) : Bool := 0x80 ≤ b && b ≤ 0xBF

/-- The bytes that may come second in a character of three or four bytes. -/
def isSecond (b c : UInt8) : Bool :=
  if b = 0xE0 then 0xA0 ≤ c && c ≤ 0xBF
  else if b = 0xED then 0x80 ≤ c && c ≤ 0x9F
  else if b = 0xF0 then 0x90 ≤ c && c ≤ 0xBF
  else if b = 0xF4 then 0x80 ≤ c && c ≤ 0x8F
  else isContinuation c

def charOf (lead : Nat) (tail : List UInt8) : Char :=
  Char.ofNat (tail.foldl (fun n c => n * 64 + c.toNat % 64) lead)

/-- The first character of what begins with the byte, or nothing where the bytes are invalid, and
the bytes that follow it. What is invalid ends before the first byte that cannot be a part of a
character begun so. -/
def decodeFirst (b : UInt8) (bs : List UInt8) : Option Char × List UInt8 :=
  if b < 0x80 then (some (Char.ofNat b.toNat), bs)
  else if 0xC2 ≤ b && b ≤ 0xDF then
    match bs with
    | c :: rest =>
      if isContinuation c then (some (charOf (b.toNat % 32) [c]), rest) else (none, bs)
    | [] => (none, [])
  else if 0xE0 ≤ b && b ≤ 0xEF then
    match bs with
    | c :: d :: rest =>
      if isSecond b c then
        if isContinuation d then (some (charOf (b.toNat % 16) [c, d]), rest) else (none, d :: rest)
      else (none, bs)
    | [c] => if isSecond b c then (none, []) else (none, bs)
    | [] => (none, [])
  else if 0xF0 ≤ b && b ≤ 0xF4 then
    match bs with
    | c :: d :: e :: rest =>
      if isSecond b c then
        if isContinuation d then
          if isContinuation e then (some (charOf (b.toNat % 8) [c, d, e]), rest)
          else (none, e :: rest)
        else (none, d :: e :: rest)
      else (none, bs)
    | [c, d] =>
      if isSecond b c then if isContinuation d then (none, []) else (none, [d])
      else (none, bs)
    | [c] => if isSecond b c then (none, []) else (none, bs)
    | [] => (none, [])
  else (none, bs)

def chunks : Nat → List UInt8 → List (Option Char)
  | 0, _ | _, [] => []
  | fuel + 1, b :: bs => (decodeFirst b bs).1 :: chunks fuel (decodeFirst b bs).2

def decode? (bs : List UInt8) : Option String :=
  ((chunks bs.length bs).mapM id).map String.ofList

def lossy (bs : List UInt8) : String :=
  String.ofList ((chunks bs.length bs).map (fun c => c.getD '\uFFFD'))

end Utf8
