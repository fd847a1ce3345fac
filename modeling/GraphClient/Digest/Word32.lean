/-!
# Byte strings as blocks of 32-bit words

Both digests of this library pad a message to whole blocks of sixteen words: a byte `0x80`, zeros,
and the length of the message in bits as the last eight bytes. They differ in which byte of a word
comes first.
-/

namespace GraphClient.Digest

inductive ByteOrder where
  | leastFirst
  | mostFirst

def wordOfBytes (order : ByteOrder) (a b c d : UInt8) : UInt32 :=
  match order with
  | .leastFirst => a.toUInt32 ||| b.toUInt32 <<< 8 ||| c.toUInt32 <<< 16 ||| d.toUInt32 <<< 24
  | .mostFirst => d.toUInt32 ||| c.toUInt32 <<< 8 ||| b.toUInt32 <<< 16 ||| a.toUInt32 <<< 24

def bytesOfWord (order : ByteOrder) (w : UInt32) : List UInt8 :=
  let least := [w.toUInt8, (w >>> 8).toUInt8, (w >>> 16).toUInt8, (w >>> 24).toUInt8]
  match order with
  | .leastFirst => least
  | .mostFirst => least.reverse

def lengthBytes (order : ByteOrder) (size : Nat) : List UInt8 :=
  let least := (List.range 8).map fun i => UInt8.ofNat (8 * size / Nat.pow 256 i)
  match order with
  | .leastFirst => least
  | .mostFirst => least.reverse

/-- The message with its padding: a whole number of blocks of 64 bytes. -/
def pad (order : ByteOrder) (message : List UInt8) : List UInt8 :=
  let size := message.length
  message ++ 0x80 :: (List.replicate ((119 - size % 64) % 64) 0 ++ lengthBytes order size)

/-- The words of a list of bytes; fewer than four bytes at the end are dropped. -/
def words (order : ByteOrder) : List UInt8 → List UInt32
  | a :: b :: c :: d :: rest => wordOfBytes order a b c d :: words order rest
  | _ => []

def blocks (order : ByteOrder) (message : List UInt8) : List (Array UInt32) :=
  let all := (words order (pad order message)).toArray
  (List.range (all.size / 16)).map fun i => all.extract (16 * i) (16 * i + 16)

def rotateLeft (w : UInt32) (n : UInt32) : UInt32 := w <<< n ||| w >>> (32 - n)

def rotateRight (w : UInt32) (n : UInt32) : UInt32 := w >>> n ||| w <<< (32 - n)

/-- Lower-case hexadecimal digits, two for a byte. -/
def hex (bytes : List UInt8) : String :=
  String.ofList (bytes.flatMap fun b => [Nat.digitChar (b.toNat / 16), Nat.digitChar (b.toNat % 16)])

def hexValue (c : Char) : Nat := if c.isDigit then c.toNat - 48 else c.toLower.toNat - 87

def unhex : List Char → List UInt8
  | high :: low :: rest => UInt8.ofNat (hexValue high * 16 + hexValue low) :: unhex rest
  | _ => []

end GraphClient.Digest
