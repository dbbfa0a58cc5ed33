import ClassUsage.Text.Quoted

/-!
UTF-8, read one octet at a time. A fault names the octets of the broken character read so far, or
the octet that starts none, and says what is wrong with the next.
-/
namespace ClassUsage.Text.Utf8

inductive Flaw where
  | startByte
  | continuationByte
  | endOfData
  deriving DecidableEq, Repr

def Flaw.message : Flaw → String
  | .startByte => "invalid start byte"
  | .continuationByte => "invalid continuation byte"
  | .endOfData => "unexpected end of data"

/-- The flaw, the place of the first octet at fault, that octet, and how many are at fault. -/
structure Fault where
  flaw : Flaw
  start : Nat
  lead : UInt8
  count : Nat
  deriving DecidableEq, Repr

def Fault.message (f : Fault) : String :=
  let place :=
    if f.count = 1 then s!"byte 0x{hex 2 f.lead.toNat} in position {f.start}"
    else s!"bytes in position {f.start}-{f.start + f.count - 1}"
  s!"'utf-8' codec can't decode {place}: {f.flaw.message}"

/-- A character whose first octets have been read: how many octets it still needs, the range of the
next one, and the value so far. -/
structure Pending where
  start : Nat
  lead : UInt8
  missing : Nat
  low : UInt8 := 0x80
  high : UInt8 := 0xbf
  value : Nat
  deriving DecidableEq, Repr

/-- What an octet beyond ASCII starts, if anything. -/
def startPending (start : Nat) (b : UInt8) : Option Pending :=
  if 0xc2 ≤ b && b ≤ 0xdf then some ⟨start, b, 1, 0x80, 0xbf, b.toNat % 32⟩
  else if b = 0xe0 then some ⟨start, b, 2, 0xa0, 0xbf, 0⟩
  else if b = 0xed then some ⟨start, b, 2, 0x80, 0x9f, 13⟩
  else if 0xe1 ≤ b && b ≤ 0xef then some ⟨start, b, 2, 0x80, 0xbf, b.toNat % 16⟩
  else if b = 0xf0 then some ⟨start, b, 3, 0x90, 0xbf, 0⟩
  else if 0xf1 ≤ b && b ≤ 0xf3 then some ⟨start, b, 3, 0x80, 0xbf, b.toNat % 8⟩
  else if b = 0xf4 then some ⟨start, b, 3, 0x80, 0x8f, 4⟩
  else none

/-- Read on from `place`, with the characters before it in reverse. -/
def decodeFrom (place : Nat) (done : List Char) :
    Option Pending → List UInt8 → Except Fault String
  | none, [] => .ok (String.ofList done.reverse)
  | some p, [] => .error ⟨.endOfData, p.start, p.lead, place - p.start⟩
  | none, b :: rest =>
    if b < 0x80 then decodeFrom (place + 1) (Char.ofNat b.toNat :: done) none rest
    else match startPending place b with
      | some p => decodeFrom (place + 1) done (some p) rest
      | none => .error ⟨.startByte, place, b, 1⟩
  | some p, b :: rest =>
    if p.low ≤ b && b ≤ p.high then
      let value := p.value * 64 + b.toNat % 64
      if p.missing ≤ 1 then decodeFrom (place + 1) (Char.ofNat value :: done) none rest
      else
        let p := ⟨p.start, p.lead, p.missing - 1, 0x80, 0xbf, value⟩
        decodeFrom (place + 1) done (some p) rest
    else .error ⟨.continuationByte, p.start, p.lead, place - p.start⟩

def decode (bytes : List UInt8) : Except Fault String :=
  decodeFrom 0 [] none bytes

end ClassUsage.Text.Utf8
