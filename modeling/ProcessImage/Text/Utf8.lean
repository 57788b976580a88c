/-!
# Text as bytes

Text is stored as UTF-8.  Bytes are read back leniently: every longest run of
bytes that begins a character but does not complete it, and every byte that
begins none, is replaced by one U+FFFD.
-/

namespace ProcessImage.Text

/-- The bytes of a text. -/
def encode (text : String) : List UInt8 :=
  text.toList.flatMap String.utf8EncodeChar

/-- The character that stands for bytes that are no text. -/
def replacement : Char := '\uFFFD'

/-- What the first byte of a character announces. -/
inductive Lead where
  | one
  | two
  | three
  | four
  | invalid
deriving DecidableEq, Repr

/-- Class of a byte as the first one of a character. -/
def Lead.ofByte (byte : UInt8) : Lead :=
  if byte < 0x80 then .one
  else if 0xC2 ≤ byte ∧ byte ≤ 0xDF then .two
  else if 0xE0 ≤ byte ∧ byte ≤ 0xEF then .three
  else if 0xF0 ≤ byte ∧ byte ≤ 0xF4 then .four
  else .invalid

/-- Whether a byte continues a character. -/
def isContinuation (byte : UInt8) : Bool :=
  0x80 ≤ byte && byte ≤ 0xBF

/-- Whether a byte may follow a first byte.  The narrower ranges keep out long
forms of short characters, surrogates and numbers beyond the last character. -/
def mayFollow (lead byte : UInt8) : Bool :=
  if lead = 0xE0 then 0xA0 ≤ byte && byte ≤ 0xBF
  else if lead = 0xED then 0x80 ≤ byte && byte ≤ 0x9F
  else if lead = 0xF0 then 0x90 ≤ byte && byte ≤ 0xBF
  else if lead = 0xF4 then 0x80 ≤ byte && byte ≤ 0x8F
  else isContinuation byte

/-- The payload bits of a continuation byte. -/
def payload (byte : UInt8) : Nat := byte.toNat % 64

/-- The characters of bytes that are meant as text. -/
def decodeLossy : List UInt8 → List Char
  | [] => []
  | lead :: tail =>
      match Lead.ofByte lead with
      | .one => Char.ofNat lead.toNat :: decodeLossy tail
      | .invalid => replacement :: decodeLossy tail
      | .two =>
          match tail with
          | [] => [replacement]
          | second :: rest =>
              if mayFollow lead second then
                Char.ofNat (lead.toNat % 32 * 64 + payload second) :: decodeLossy rest
              else replacement :: decodeLossy (second :: rest)
      | .three =>
          match tail with
          | [] => [replacement]
          | second :: rest =>
              if mayFollow lead second then
                match rest with
                | [] => [replacement]
                | third :: rest =>
                    if isContinuation third then
                      Char.ofNat
                          ((lead.toNat % 16 * 64 + payload second) * 64 + payload third) ::
                        decodeLossy rest
                    else replacement :: decodeLossy (third :: rest)
              else replacement :: decodeLossy (second :: rest)
      | .four =>
          match tail with
          | [] => [replacement]
          | second :: rest =>
              if mayFollow lead second then
                match rest with
                | [] => [replacement]
                | third :: rest =>
                    if isContinuation third then
                      match rest with
                      | [] => [replacement]
                      | fourth :: rest =>
                          if isContinuation fourth then
                            Char.ofNat
                                (((lead.toNat % 8 * 64 + payload second) * 64 +
                                  payload third) * 64 + payload fourth) ::
                              decodeLossy rest
                          else replacement :: decodeLossy (fourth :: rest)
                    else replacement :: decodeLossy (third :: rest)
              else replacement :: decodeLossy (second :: rest)

/-- The text of bytes that are meant as text. -/
def decode (bytes : List UInt8) : String :=
  String.ofList (decodeLossy bytes)

end ProcessImage.Text
