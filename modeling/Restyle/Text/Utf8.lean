import Restyle.Text.Quoted

/-!
# Bytes and text

Text is written to files in UTF-8.  Reading stops at the first sequence that
is not the form of a character, and says which bytes are at fault.
-/

namespace Restyle.Text

/-- What is wrong with a sequence of bytes. -/
inductive EncodingCause where
  /-- No character starts with this byte. -/
  | invalidStart
  /-- A byte inside a character is not one that may stand there. -/
  | invalidContinuation
  /-- The bytes end inside a character. -/
  | unexpectedEnd
  deriving DecidableEq, Repr

/-- The bytes that are not the form of a character. -/
structure EncodingFault where
  /-- The first byte at fault. -/
  lead : UInt8
  /-- Its offset. -/
  offset : Nat
  /-- How many bytes are at fault. -/
  count : Nat
  cause : EncodingCause
  deriving DecidableEq, Repr

def EncodingCause.message : EncodingCause → String
  | .invalidStart => "invalid start byte"
  | .invalidContinuation => "invalid continuation byte"
  | .unexpectedEnd => "unexpected end of data"

def EncodingFault.message (fault : EncodingFault) : String :=
  let place :=
    if fault.count = 1 then
      "byte 0x" ++ String.ofList (hex 2 fault.lead.toNat) ++ " in position " ++
        toString fault.offset
    else
      "bytes in position " ++ toString fault.offset ++ "-" ++
        toString (fault.offset + fault.count - 1)
  "'utf-8' codec can't decode " ++ place ++ ": " ++ fault.cause.message

/-- The bytes of a text. -/
def encode (text : List Char) : List UInt8 :=
  text.flatMap String.utf8EncodeChar

/-- How many bytes follow the first byte of a character, and the bounds of the
second. -/
def continuation? (lead : Nat) : Option (Nat × Nat × Nat) :=
  if lead < 0x80 then some (0, 0x80, 0xBF)
  else if lead < 0xC2 then none
  else if lead < 0xE0 then some (1, 0x80, 0xBF)
  else if lead = 0xE0 then some (2, 0xA0, 0xBF)
  else if lead = 0xED then some (2, 0x80, 0x9F)
  else if lead < 0xF0 then some (2, 0x80, 0xBF)
  else if lead = 0xF0 then some (3, 0x90, 0xBF)
  else if lead < 0xF4 then some (3, 0x80, 0xBF)
  else if lead = 0xF4 then some (3, 0x80, 0x8F)
  else none

/-- The bits of a first byte that belong to the code point. -/
def leadBits (lead following : Nat) : Nat :=
  match following with
  | 0 => lead
  | 1 => lead % 0x20
  | 2 => lead % 0x10
  | _ => lead % 0x08

/-- Reads the remaining bytes of a character.  `low` and `high` bound the next
byte; `taken` counts the bytes read. -/
def continueCharacter (code taken : Nat) :
    (following low high : Nat) → List UInt8 →
      Except (Nat × EncodingCause) (Nat × List UInt8)
  | 0, _, _, bytes => .ok (code, bytes)
  | _ + 1, _, _, [] => .error (taken, .unexpectedEnd)
  | following + 1, low, high, byte :: rest =>
      if low ≤ byte.toNat && byte.toNat ≤ high then
        continueCharacter (code * 0x40 + byte.toNat % 0x40) (taken + 1) following
          0x80 0xBF rest
      else .error (taken, .invalidContinuation)

/-- Reads characters from `offset` on.  Each uses at least one byte, so the
number of bytes bounds the number of rounds. -/
def decodeFrom (offset : Nat) :
    (fuel : Nat) → List UInt8 → Except EncodingFault (List Char)
  | 0, _ => .ok []
  | _ + 1, [] => .ok []
  | fuel + 1, lead :: rest =>
      match continuation? lead.toNat with
      | none => .error ⟨lead, offset, 1, .invalidStart⟩
      | some (following, low, high) =>
          match continueCharacter (leadBits lead.toNat following) 1 following low high rest with
          | .error (count, cause) => .error ⟨lead, offset, count, cause⟩
          | .ok (code, later) =>
              match decodeFrom (offset + 1 + following) fuel later with
              | .error fault => .error fault
              | .ok text => .ok (Char.ofNat code :: text)

/-- The text whose bytes are given. -/
def decode (bytes : List UInt8) : Except EncodingFault (List Char) :=
  decodeFrom 0 bytes.length bytes

end Restyle.Text
