import DocFilter.Text

/-!
New document ids: random UUIDs of version 4.
-/

set_option autoImplicit false

namespace DocFilter.Uuid

open Text (byte)

/-- Marks sixteen random bytes as a UUID of version 4 of the common variant. -/
def stamp (bytes : List UInt8) : List UInt8 :=
  bytes.zipIdx.map fun (b, i) =>
    if i == 6 then (b &&& 0x0F) ||| 0x40 else if i == 8 then (b &&& 0x3F) ||| 0x80 else b

/-- Bytes in hexadecimal digits. -/
def digits (bytes : List UInt8) : Text := bytes.flatMap fun b => Text.hex 2 b.toNat

/-- The UUID of sixteen random bytes, in groups of 8, 4, 4, 4 and 12 digits. -/
def ofRandom (bytes : List UInt8) : Text :=
  let b := stamp bytes
  Text.join "-"
    [digits (b.take 4), digits ((b.drop 4).take 2), digits ((b.drop 6).take 2),
      digits ((b.drop 8).take 2), digits (b.drop 10)]

end DocFilter.Uuid
