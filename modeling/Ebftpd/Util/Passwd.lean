import Ebftpd.Util.String

/-!
# Ebftpd.Util.Passwd

Stored passwords (`util/util/passwd.cpp`). The hash itself is OpenSSL's PBKDF2 and a parameter
wherever a password is checked.
-/

namespace Ebftpd
namespace Util
namespace Passwd

def hexDigit (n : Nat) : Char := if n < 10 then Char.ofNat (48 + n) else Char.ofNat (55 + n)

def hexValue (c : Char) : Option Nat :=
  if c.isDigit then some (c.toNat - 48)
  else if 'A' ≤ c ∧ c ≤ 'F' then some (c.toNat - 55)
  else if 'a' ≤ c ∧ c ≤ 'f' then some (c.toNat - 87)
  else none

/-- `HexEncode`: two upper case digits for each byte. -/
def hexEncode (s : Str) : Str := s.flatMap fun c => [hexDigit (c.toNat / 16), hexDigit (c.toNat % 16)]

/-- What `is >> std::hex >> ch` makes of two characters, as a byte: white space and a sign may stand
before the digit, and what is no number is zero. -/
def hexByte (a b : Char) : Nat :=
  match hexValue a, hexValue b with
  | some m, some n => 16 * m + n
  | some m, none => m
  | none, some n => if isSpace a || a == '+' then n else if a == '-' then (256 - n) % 256 else 0
  | none, none => 0

/-- `HexDecode`; an odd character at the end is dropped. -/
def hexDecode : Str → Str
  | a :: b :: s => Char.ofNat (hexByte a b) :: hexDecode s
  | _ => []

end Passwd
end Util
end Ebftpd
