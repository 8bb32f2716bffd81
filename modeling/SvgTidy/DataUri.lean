/-!
# Data URIs

A text of an image as a URI that holds it: in base64, with the characters that have a meaning in
URIs escaped, or as it is. The first two work on the bytes of the text in UTF-8.
-/

namespace SvgTidy

/-- The ways to put an image into a URI. -/
inductive DataUri where
  | base64
  /-- Escaped like a component of a URI. -/
  | enc
  /-- As it is. -/
  | unenc
  deriving DecidableEq, Repr

namespace DataUri

/-- The bytes of a text in UTF-8. -/
def utf8 (text : String) : List UInt8 :=
  text.toList.flatMap String.utf8EncodeChar

/-! ## Base64 -/

/-- The sixty-four digits. -/
def alphabet : List Char :=
  "ABCDEFGHIJKLMNOPQRSTUVWXYZabcdefghijklmnopqrstuvwxyz0123456789+/".toList

/-- The digit for a number below sixty-four. -/
def digit (n : Nat) : Char :=
  alphabet.getD n 'A'

/-- Four digits for three bytes; fewer bytes at the end are filled up with zero bits, and the group
of four with equals signs. -/
def base64Digits : List UInt8 → List Char
  | [] => []
  | [a] =>
    let n := a.toNat * 16
    [digit (n / 64), digit (n % 64), '=', '=']
  | [a, b] =>
    let n := (a.toNat * 256 + b.toNat) * 4
    [digit (n / 4096), digit (n / 64 % 64), digit (n % 64), '=']
  | a :: b :: c :: rest =>
    let n := (a.toNat * 256 + b.toNat) * 256 + c.toNat
    digit (n / 262144) :: digit (n / 4096 % 64) :: digit (n / 64 % 64) :: digit (n % 64)
      :: base64Digits rest

/-! ## Escaping -/

/-- The byte of an ASCII letter, a digit, or one of the nine marks without a meaning in URIs. -/
def isUnreserved (byte : UInt8) : Bool :=
  let c := Char.ofNat byte.toNat
  c.isAlphanum || "-_.!~*'()".toList.contains c

/-- A hexadecimal digit in upper case. -/
def hexDigit (n : Nat) : Char :=
  "0123456789ABCDEF".toList.getD n '0'

/-- A byte as it stands in a component of a URI. -/
def escapeByte (byte : UInt8) : List Char :=
  if isUnreserved byte then [Char.ofNat byte.toNat]
  else ['%', hexDigit (byte.toNat / 16), hexDigit (byte.toNat % 16)]

/-! ## The URI -/

/-- What stands before the image. -/
def scheme : DataUri → String
  | .base64 => "data:image/svg+xml;base64,"
  | .enc | .unenc => "data:image/svg+xml,"

/-- What stands for the image. -/
def payload : DataUri → String → String
  | .base64, text => String.ofList (base64Digits (utf8 text))
  | .enc, text => String.ofList ((utf8 text).flatMap escapeByte)
  | .unenc, text => text

/-- The URI that holds an image. -/
def encode (kind : DataUri) (text : String) : String :=
  kind.scheme ++ kind.payload text

end DataUri

end SvgTidy
