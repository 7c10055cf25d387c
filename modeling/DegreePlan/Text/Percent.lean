import DegreePlan.Text.Digit

/-!
# Percent encoding

In an address a byte may be written as a percent sign and two hexadecimal digits. The bytes are read
as UTF-8; a sequence that is no character becomes one replacement character.
-/

namespace DegreePlan.Text

/-- The bytes that a text stands for; an incomplete escape stands for itself. -/
def percentBytes (cs : List Char) : List UInt8 :=
  match cs with
  | [] => []
  | '%' :: a :: b :: rest =>
    match hexValue? a, hexValue? b with
    | some x, some y => UInt8.ofNat (x * 16 + y) :: percentBytes rest
    | _, _ => 0x25 :: percentBytes (a :: b :: rest)
  | c :: rest => String.utf8EncodeChar c ++ percentBytes rest

/-- A character of which some bytes are still to come. -/
structure PartialChar where
  /-- The bits so far. -/
  value : Nat
  missing : Nat
  /-- The bounds of the next byte. -/
  low : Nat := 0x80
  high : Nat := 0xBF
deriving DecidableEq, Inhabited

/-- What stands for a sequence of bytes that is no character. -/
def replacement : Char := '\uFFFD'

/-- Reads a byte at the beginning of a character. -/
def decodeFirst (b : Nat) : List Char × Option PartialChar :=
  if b < 0x80 then ([Char.ofNat b], none)
  else if 0xC2 ≤ b && b ≤ 0xDF then ([], some { value := b - 0xC0, missing := 1 })
  else if 0xE0 ≤ b && b ≤ 0xEF then
    ([], some { value := b - 0xE0, missing := 2
                low := if b == 0xE0 then 0xA0 else 0x80
                high := if b == 0xED then 0x9F else 0xBF })
  else if 0xF0 ≤ b && b ≤ 0xF4 then
    ([], some { value := b - 0xF0, missing := 3
                low := if b == 0xF0 then 0x90 else 0x80
                high := if b == 0xF4 then 0x8F else 0xBF })
  else ([replacement], none)

/-- Reads a byte. -/
def decodeByte (waiting : Option PartialChar) (b : Nat) : List Char × Option PartialChar :=
  match waiting with
  | none => decodeFirst b
  | some p =>
    if p.low ≤ b && b ≤ p.high then
      let value := p.value * 64 + (b - 0x80)
      if p.missing == 1 then ([Char.ofNat value], none)
      else ([], some { value, missing := p.missing - 1 })
    else
      let (cs, next) := decodeFirst b
      (replacement :: cs, next)

/-- Reads bytes as characters. -/
def decodeBytes (waiting : Option PartialChar) : List UInt8 → List Char
  | [] => if waiting.isSome then [replacement] else []
  | b :: bs =>
    let (cs, next) := decodeByte waiting b.toNat
    cs ++ decodeBytes next bs

/-- The text that an address stands for. -/
def percentDecode (cs : List Char) : List Char := decodeBytes none (percentBytes cs)

end DegreePlan.Text
