import SteinerTrees.Text.Quoted

/-! # UTF-8

A code point is encoded by one to four bytes. The first of several tells how many follow and how far the second one
may range, so that every code point has one encoding and surrogates have none. Bytes are read one at a time; the first
that does not fit decides what is wrong, together with the bytes that were read for the same code point. -/

namespace SteinerTrees.Text.Utf8

/-- How bytes fail to encode a code point. -/
inductive Flaw where
  | start
  | continuation
  | cut
  deriving DecidableEq, Repr

def Flaw.reason : Flaw → String
  | start => "invalid start byte"
  | continuation => "invalid continuation byte"
  | cut => "unexpected end of data"

/-- Bytes that encode nothing, by their positions; `byte` is the first of them. -/
structure Fault where
  flaw : Flaw
  byte : UInt8
  first : Nat
  last : Nat
  deriving DecidableEq, Repr

def Fault.message (fault : Fault) : String :=
  "'utf-8' codec can't decode " ++
    (if fault.first = fault.last then
      "byte 0x" ++ String.ofList (hex 2 fault.byte.toNat) ++ s!" in position {fault.first}"
    else s!"bytes in position {fault.first}-{fault.last}") ++ ": " ++ fault.flaw.reason

/-- A code point under way: its first byte, what its bytes gave so far, how many are missing, and the range of the
next one. -/
structure Pending where
  byte : UInt8
  code : Nat
  missing : Nat
  low : Nat := 0x80
  high : Nat := 0xBF
  deriving DecidableEq, Repr

/-- The code point that starts with a byte, unless it is the only one. -/
def pending? (byte : UInt8) : Option Pending :=
  let n := byte.toNat
  if n < 0xC2 then none
  else if n < 0xE0 then some { byte, code := n - 0xC0, missing := 1 }
  else if n = 0xE0 then some { byte, code := 0, missing := 2, low := 0xA0 }
  else if n = 0xED then some { byte, code := 0xD, missing := 2, high := 0x9F }
  else if n < 0xF0 then some { byte, code := n - 0xE0, missing := 2 }
  else if n = 0xF0 then some { byte, code := 0, missing := 3, low := 0x90 }
  else if n < 0xF4 then some { byte, code := n - 0xF0, missing := 3 }
  else if n = 0xF4 then some { byte, code := 4, missing := 3, high := 0x8F }
  else none

/-- The code point after one more byte. -/
def Pending.next (pending : Pending) (n : Nat) : Pending :=
  { pending with code := pending.code * 64 + (n - 0x80), missing := pending.missing - 1, low := 0x80, high := 0xBF }

/-- Reads bytes from a position on. The code points so far are reversed, and `start` is the position of the one under
way. -/
def decodeFrom (position start : Nat) (found : List Nat) : Option Pending → List UInt8 → Except Fault (List Nat)
  | none, [] => .ok found.reverse
  | some pending, [] => .error ⟨.cut, pending.byte, start, position - 1⟩
  | none, byte :: rest =>
    if byte.toNat < 0x80 then decodeFrom (position + 1) start (byte.toNat :: found) none rest
    else match pending? byte with
      | some pending => decodeFrom (position + 1) position found (some pending) rest
      | none => .error ⟨.start, byte, position, position⟩
  | some pending, byte :: rest =>
    if pending.low ≤ byte.toNat ∧ byte.toNat ≤ pending.high then
      let pending := pending.next byte.toNat
      if pending.missing = 0 then decodeFrom (position + 1) start (pending.code :: found) none rest
      else decodeFrom (position + 1) start found (some pending) rest
    else .error ⟨.continuation, pending.byte, start, position - 1⟩

/-- The code points that bytes encode. -/
def decode (bytes : List UInt8) : Except Fault (List Nat) := decodeFrom 0 0 [] none bytes

end SteinerTrees.Text.Utf8
