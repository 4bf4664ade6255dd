import Ebftpd.Acl.Setters
import Ebftpd.Ftp.Client

/-!
# Ebftpd.Acl.Password

Passwords that are stored and checked again (`src/acl/user.cpp`, `util/util/passwd.cpp`). Hash and
salt are arbitrary bytes; they are written to the database as hexadecimal digits, through a stream
whose width goes back to 0 after each number.

* `hexEncode_printed`: what the stream prints of a byte is two upper case digits, leading zero
  included.
* `hexDecode_encode`: any bytes come back as they were.
* `setPassword_verifies`: so a password that was set verifies, and no other unless it has the
  same hash.
-/

namespace Ebftpd
namespace Util
namespace Passwd

/-- A `std::string` of any bytes. -/
def ofBytes (bytes : List UInt8) : Str := bytes.map fun b => Char.ofNat b.toNat

/-- An output stream with `std::hex` and `std::uppercase` set, and what was printed to it. -/
structure HexStream where
  fill : Char
  width : Nat
  printed : Str

def HexStream.setw (os : HexStream) (width : Nat) : HexStream := { os with width := width }

/-- Prints a number without leading zeros, filled up on the left to the width, which is used up. -/
def HexStream.put (os : HexStream) (n : Nat) : HexStream :=
  let digits := (Nat.toDigits 16 n).map Char.toUpper
  { os with
    width := 0
    printed := os.printed ++ List.replicate (os.width - digits.length) os.fill ++ digits }

/-- The loop of `HexEncode`. -/
def HexStream.encode (s : Str) : HexStream :=
  s.foldl (fun os ch => (os.setw 2).put ch.toNat) ⟨'0', 0, []⟩

/-! ## The codec -/

set_option maxRecDepth 10000 in
theorem byte_printed : ∀ n < 256,
    List.replicate (2 - ((Nat.toDigits 16 n).map Char.toUpper).length) '0' ++ (Nat.toDigits 16 n).map Char.toUpper =
      [hexDigit (n / 16), hexDigit (n % 16)] := by
  decide

set_option maxRecDepth 10000 in
theorem toNat_ofNat_byte : ∀ n < 256, (Char.ofNat n).toNat = n := by decide

theorem ofNat_byte (b : UInt8) : (Char.ofNat b.toNat).toNat = b.toNat := toNat_ofNat_byte _ b.toNat_lt

theorem hexEncode_printed (bytes : List UInt8) :
    (HexStream.encode (ofBytes bytes)).printed = hexEncode (ofBytes bytes) := by
  have hloop : ∀ (bytes : List UInt8) (os : HexStream), os.fill = '0' →
      ((ofBytes bytes).foldl (fun os ch => (os.setw 2).put ch.toNat) os).printed =
        os.printed ++ hexEncode (ofBytes bytes) := by
    intro bytes
    induction bytes with
    | nil => intro os _; simp [ofBytes, hexEncode]
    | cons b bytes ih =>
      intro os hfill
      have hput : ((os.setw 2).put (Char.ofNat b.toNat).toNat).printed =
          os.printed ++ [hexDigit (b.toNat / 16), hexDigit (b.toNat % 16)] := by
        simp only [HexStream.put, HexStream.setw, hfill, ofNat_byte, List.append_assoc]
        rw [byte_printed b.toNat b.toNat_lt]
      rw [ofBytes, List.map_cons, List.foldl_cons]
      refine (ih ((os.setw 2).put (Char.ofNat b.toNat).toNat) hfill).trans ?_
      rw [hput, hexEncode, hexEncode, ofBytes, List.flatMap_cons, ofNat_byte, List.append_assoc]
  exact hloop bytes ⟨'0', 0, []⟩ rfl

theorem hexValue_hexDigit : ∀ n < 16, hexValue (hexDigit n) = some n := by decide

theorem hexDecode_encode (bytes : List UInt8) : hexDecode (hexEncode (ofBytes bytes)) = ofBytes bytes := by
  induction bytes with
  | nil => rfl
  | cons b bytes ih =>
    have hb := b.toNat_lt
    have hbyte : hexByte (hexDigit (b.toNat / 16)) (hexDigit (b.toNat % 16)) = b.toNat := by
      rw [hexByte, hexValue_hexDigit _ (by omega), hexValue_hexDigit _ (by omega)]
      exact Nat.div_add_mod b.toNat 16
    rw [ofBytes, List.map_cons, hexEncode, List.flatMap_cons, ofNat_byte, List.cons_append,
      List.cons_append, List.nil_append, hexDecode, hbyte]
    exact congrArg _ ih

theorem ofBytes_injective : Function.Injective ofBytes := by
  refine List.map_injective_iff.mpr fun a b h => UInt8.toNat_inj.mp ?_
  rw [← ofNat_byte a, ← ofNat_byte b]
  exact congrArg Char.toNat h

theorem hexEncode_inj {a b : List UInt8} : hexEncode (ofBytes a) = hexEncode (ofBytes b) ↔ a = b := by
  constructor
  · intro h
    refine ofBytes_injective ?_
    rw [← hexDecode_encode a, h, hexDecode_encode]
  · exact congrArg fun bytes => hexEncode (ofBytes bytes)

end Passwd
end Util

namespace Acl

open Util Util.Passwd Lib Lib.Prog

/-- The stored hash and salt verify a password if and only if it has the hash that was stored. -/
theorem verifyPassword_set (hash : Str → Str → List UInt8) (user : User) (p q : Str) (salt : List UInt8) :
    Ftp.verifyPassword (fun password salt => ofBytes (hash password salt))
        (user.setPassword (fun password salt => ofBytes (hash password salt)) p (ofBytes salt)) q = true ↔
      hash q (ofBytes salt) = hash p (ofBytes salt) := by
  simp only [Ftp.verifyPassword, User.setPassword, beq_iff_eq, hexDecode_encode]
  exact hexEncode_inj

/-- Any bytes are decoded to what was encoded. So whatever the hash is, whatever the salt and whether
the save writes or fails, a password verifies after `SetPassword` if and only if its hash with that
salt is that of the password set, and the password set does. -/
theorem setPassword_verifies :
    (∀ bytes : List UInt8, hexDecode (hexEncode (ofBytes bytes)) = ofBytes bytes) ∧
    ∀ (hash : Str → Str → List UInt8) (i : Image User) (saves : List SaveOutcome) (p : Str) (salt : List UInt8)
      (r : Ran User),
      r = UserSetters.setPassword (fun password salt => ofBytes (hash password salt)) p (ofBytes salt) i saves →
      r.threw = false →
      Ftp.verifyPassword (fun password salt => ofBytes (hash password salt)) r.image.mem p = true ∧
      ∀ q, Ftp.verifyPassword (fun password salt => ofBytes (hash password salt)) r.image.mem q = true ↔
        hash q (ofBytes salt) = hash p (ofBytes salt) := by
  refine ⟨hexDecode_encode, ?_⟩
  rintro hash i saves p salt r rfl hok
  rw [UserSetters.setPassword, setter_mem hok]
  exact ⟨(verifyPassword_set hash i.mem p p salt).mpr rfl, fun q => verifyPassword_set hash i.mem p q salt⟩

def plainHash (password salt : Str) : List UInt8 := (password ++ salt).map fun c => UInt8.ofNat c.toNat

def aliceSet : Ran User :=
  UserSetters.setPassword (fun password salt => ofBytes (plainHash password salt)) "secret".toList
    (ofBytes [0, 255, 32]) ⟨{ id := 1, name := "alice".toList }, { id := 1, name := "alice".toList }⟩ []

theorem alice_verifies :
    Ftp.verifyPassword (fun password salt => ofBytes (plainHash password salt)) aliceSet.image.mem
        "secret".toList = true ∧
      ¬ Ftp.verifyPassword (fun password salt => ofBytes (plainHash password salt)) aliceSet.image.mem
        "Secret".toList = true := by
  obtain ⟨hset, hother⟩ := setPassword_verifies.2 plainHash _ [] "secret".toList [0, 255, 32] aliceSet rfl
    (by rw [aliceSet, UserSetters.setPassword, setter_okay rfl])
  exact ⟨hset, fun h => absurd ((hother _).mp h) (by decide)⟩

end Acl
end Ebftpd
