import HeaderMake.Text

/-!
# UTF-8

Files hold bytes.  A text is written as its UTF-8 encoding; bytes are read back
either strictly, where one ill-formed byte makes the whole reading fail, or lossily,
where each ill-formed piece becomes one replacement character.

`Utf8.pieces` is the one decoder behind both readings.  It cuts the bytes into
well-formed sequences and maximal ill-formed pieces: an ill-formed piece is either the
longest proper beginning of a well-formed sequence that stands at that place, or a
single byte that begins no sequence.
-/

namespace HeaderMake

/-- The contents of a file. -/
abbrev Bytes := List UInt8

namespace Utf8

/-- The bytes of a text. -/
def encode (text : Text) : Bytes :=
  text.flatMap String.utf8EncodeChar

theorem encode_cons (c : Char) (text : Text) :
    encode (c :: text) = String.utf8EncodeChar c ++ encode text :=
  List.flatMap_cons

theorem encode_append (text rest : Text) :
    encode (text ++ rest) = encode text ++ encode rest :=
  List.flatMap_append

/-- The bytes that may follow a lead byte and are not the first to follow it. -/
def isContinuation (byte : UInt8) : Bool :=
  0x80 ≤ byte && byte ≤ 0xBF

/-- The bytes that may stand second after the lead byte `lead`.  The narrower ranges
leave out overlong forms, surrogates and what lies above the last scalar value. -/
def mayFollow (lead byte : UInt8) : Bool :=
  if lead = 0xE0 then 0xA0 ≤ byte && byte ≤ 0xBF
  else if lead = 0xED then 0x80 ≤ byte && byte ≤ 0x9F
  else if lead = 0xF0 then 0x90 ≤ byte && byte ≤ 0xBF
  else if lead = 0xF4 then 0x80 ≤ byte && byte ≤ 0x8F
  else isContinuation byte

/-- The scalar value whose bits are spread over a lead byte, of which `mark` is the
fixed part, and the continuation bytes. -/
def scalar (mark lead : UInt8) (continuation : List UInt8) : Char :=
  Char.ofNat (continuation.foldl (fun value byte => value * 64 + (byte.toNat - 0x80))
    (lead.toNat - mark.toNat))

/-- The bytes as characters, with `none` for each maximal ill-formed piece. -/
def pieces : Bytes → List (Option Char)
  | [] => []
  | b₀ :: rest₀ =>
    if b₀ < 0x80 then some (Char.ofNat b₀.toNat) :: pieces rest₀
    else if b₀ < 0xC2 || 0xF4 < b₀ then none :: pieces rest₀
    else match rest₀ with
      | [] => [none]
      | b₁ :: rest₁ =>
        if !mayFollow b₀ b₁ then none :: pieces (b₁ :: rest₁)
        else if b₀ < 0xE0 then some (scalar 0xC0 b₀ [b₁]) :: pieces rest₁
        else match rest₁ with
          | [] => [none]
          | b₂ :: rest₂ =>
            if !isContinuation b₂ then none :: pieces (b₂ :: rest₂)
            else if b₀ < 0xF0 then some (scalar 0xE0 b₀ [b₁, b₂]) :: pieces rest₂
            else match rest₂ with
              | [] => [none]
              | b₃ :: rest₃ =>
                if !isContinuation b₃ then none :: pieces (b₃ :: rest₃)
                else some (scalar 0xF0 b₀ [b₁, b₂, b₃]) :: pieces rest₃

/-- The replacement character stands for what is not UTF-8. -/
def replacement : Char := '\uFFFD'

/-- The text of the bytes, each maximal ill-formed piece read as one replacement
character. -/
def decodeLossy (bytes : Bytes) : Text :=
  (pieces bytes).map (·.getD replacement)

/-- The text of the bytes, if they are UTF-8 throughout. -/
def decode? (bytes : Bytes) : Option Text :=
  (pieces bytes).mapM id

end Utf8

/-- The number of bytes that a text takes in a file. -/
def Text.byteLength : Text → Nat
  | [] => 0
  | c :: text => c.utf8Size + byteLength text

/-- A text takes no fewer bytes than it has characters. -/
theorem Text.length_le_byteLength (text : Text) : text.length ≤ text.byteLength := by
  induction text with
  | nil => simp
  | cons c text ih =>
    have hc : 0 < c.utf8Size := c.utf8Size_pos
    simp only [byteLength, List.length_cons]
    omega

theorem Utf8.length_encode (text : Text) : (encode text).length = text.byteLength := by
  induction text with
  | nil => rfl
  | cons c text ih =>
    rw [encode_cons, List.length_append, ih, String.length_utf8EncodeChar, Text.byteLength]

end HeaderMake
