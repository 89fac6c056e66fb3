import Brenlib.Bren.StdLibrary

/-!
# `base64decode` and `base64encode`

The model follows `hdr/bren/Base64.hpp`.  The element type `T` is `char` or
`unsigned char`.  A value of it is a byte, which is promoted to `int` before an operator
is applied and converted back when it is stored: for `char` the sign is extended, and
`>>` shifts the sign bit in.

* `decodeFrom`: the loop of the decoder over the characters left.
* `encodeQuads`, `encodeTail`: the loop of the encoder and the `switch` behind it.
-/

namespace Brenlib
namespace Bren
namespace Base64

/-- The choices for `T`. -/
inductive ElementType where
  | char
  | unsignedChar
deriving DecidableEq, Repr

namespace ElementType

/-- A value of type `T` as an `int`. -/
def promote : ElementType → Byte → Int32
  | .char, x => x.toInt8.toInt32
  | .unsignedChar, x => x.toUInt32.toInt32

/-- An `int` stored in a `T`: its low byte. -/
def ofInt (n : Int32) : Byte :=
  n.toInt8.toUInt8

end ElementType

open ElementType

/-- The table `b64`. -/
def b64 : Bytes :=
  literal "ABCDEFGHIJKLMNOPQRSTUVWXYZabcdefghijklmnopqrstuvwxyz0123456789+/"

section Decode

/-- The variables of `base64decode` that live across the loop. -/
structure Decoder where
  data : Bytes
  offset : UInt8
  b : Byte
deriving DecidableEq, Repr

namespace Decoder

def start : Decoder :=
  { data := [], offset := 0, b := 0x00 }

/-- The `switch` over `offset`: the data and the byte to build up behind it. -/
def buildUp (T : ElementType) (v : Byte) (s : Decoder) : Except StdException (Bytes × Byte) :=
  if s.offset = 3 then
    .ok (s.data ++ [ofInt (promote T s.b ||| (promote T v &&& 0x3F))], 0x00)
  else if s.offset = 2 then
    .ok (s.data ++ [ofInt (promote T s.b ||| ((promote T v >>> 2) &&& 0x0F))],
      ofInt ((promote T v <<< 6) &&& 0xC0))
  else if s.offset = 1 then
    .ok (s.data ++ [ofInt (promote T s.b ||| ((promote T v >>> 4) &&& 0x03))],
      ofInt ((promote T v <<< 4) &&& 0xF0))
  else if s.offset = 0 then
    .ok (s.data, ofInt ((promote T v <<< 2) &&& 0xFC))
  else
    .error ⟨.logicError, "Internal Base64 quad offset is not 0, 1, 2 or 3"⟩

/-- The body of the loop behind the look-up of the value `v`. -/
def take (T : ElementType) (v : Byte) (s : Decoder) : Except StdException Decoder := do
  if promote T v &&& 0xC0 ≠ 0 then
    throw ⟨.logicError, "Base64 character has index value larger than 64?"⟩
  let (data, b) ← s.buildUp T v
  return { data := data, offset := (s.offset + 1) % 4, b := b }

end Decoder

/-- The loop over `i`, with the characters from position `i` on. -/
def decodeFrom (T : ElementType) (i : Nat) (s : Decoder) : Bytes → Except StdException Bytes
  | [] => return s.data
  | c :: rest =>
      match index b64 c with
      | none =>
          if c = Byte.cr ∨ c = Byte.lf then
            decodeFrom T (i + 1) s rest
          else if c = Byte.backslash then
            decodeFrom T (i + 1) s rest
          else if c = Byte.equalSign then
            if s.offset = 0 ∨ s.offset = 1 then
              throw ⟨.runtimeError, "Equal sign encountered while decoding first or second" ++
                " character in base64 quad"⟩
            else
              return s.data
          else
            throw ⟨.runtimeError, "Unknown Base64 character \"" ++ Bytes.text [c] ++
              s!"\" encountered at position {i}"⟩
      | some v => do
          let s' ← s.take T (UInt8.ofNat v)
          decodeFrom T (i + 1) s' rest

def base64decode (T : ElementType) (b64_i : Bytes) : Except StdException Bytes :=
  decodeFrom T 0 .start b64_i

end Decode

section Encode

/-- `b64[n]`. -/
def letter (n : Int32) : Byte :=
  b64.getD n.toNatClampNeg 0x00

/-- `data_i[i]` as an `int`. -/
def read (T : ElementType) (data_i : Bytes) (i : Nat) : Int32 :=
  promote T (data_i.getD i 0x00)

/-- The loop over `i`: what it leaves in `out` and in `i`. -/
def encodeQuads (T : ElementType) (data_i : Bytes) (len_i : Nat) (out : Bytes) (i : Nat) :
    Bytes × Nat :=
  if i + 2 < len_i then
    encodeQuads T data_i len_i
      (out ++ [
        letter ((read T data_i i >>> 2) &&& 0x3F),
        letter (((read T data_i i &&& 0x03) <<< 4) |||
          ((read T data_i (i + 1) >>> 4) &&& 0x0F)),
        letter (((read T data_i (i + 1) &&& 0x0F) <<< 2) |||
          ((read T data_i (i + 2) >>> 6) &&& 0x03)),
        letter (read T data_i (i + 2) &&& 0x3F)])
      (i + 3)
  else
    (out, i)
termination_by len_i - i

/-- The `switch` over `len_i - i`. -/
def encodeTail (T : ElementType) (data_i : Bytes) (len_i : Nat) (out : Bytes) (i : Nat) :
    Except StdException Bytes :=
  match len_i - i with
  | 0 => return out
  | 1 =>
      return out ++ [
        letter ((read T data_i i >>> 2) &&& 0x3F),
        letter ((read T data_i i &&& 0x03) <<< 4),
        Byte.equalSign,
        Byte.equalSign]
  | 2 =>
      return out ++ [
        letter ((read T data_i i >>> 2) &&& 0x3F),
        letter (((read T data_i i &&& 0x03) <<< 4) |||
          ((read T data_i (i + 1) >>> 4) &&& 0x0F)),
        letter ((read T data_i (i + 1) &&& 0x0F) <<< 2),
        Byte.equalSign]
  | _ =>
      throw ⟨.logicError, "Failure in length calculation, please contact author with input" ++
        " string"⟩

def base64encode (T : ElementType) (data_i : Bytes) (len_i : Nat) :
    Except StdException Bytes :=
  if len_i = 0 then
    return []
  else
    let (out, i) := encodeQuads T data_i len_i [] 0
    encodeTail T data_i len_i out i

end Encode

end Base64
end Bren
end Brenlib
