import Formulary.Error

namespace Formulary

/-!
# Byte formats

A `Wire` says how values of a type are laid out in bytes: how they are written,
and how one is read from the front of a list of bytes.  Numbers are written in
groups of seven bits, the lowest first; sequences and texts are written behind
their length; a choice is written behind the number of its alternative.
-/

/-- Reading a value from the front of bytes gives it and the bytes after it. -/
abbrev ByteReader
    (α : Type) :=
  List UInt8 → Except SnapshotFault (α × List UInt8)

/-- A byte format for values of a type. -/
structure Wire (α : Type) where
  write : α → List UInt8
  read : ByteReader α

namespace Wire

/--
A number in groups of seven bits; every byte but the last has its high bit set.
-/
def writeVarint (n : Nat) : List UInt8 :=
  if n < 128 then [UInt8.ofNat n]
  else UInt8.ofNat (n % 128 + 128) :: writeVarint (n / 128)
termination_by n
decreasing_by omega

/--
Read a number of at most `allowed` bytes, where the last byte that is allowed
may not exceed `lastMost`.  Groups of zero bits at the end are accepted.
-/
def readVarint (lastMost : Nat) : Nat → ByteReader Nat
  | 0, _ => .error .longVarint
  | _ + 1, [] => .error .endOfBytes
  | allowed + 1, byte :: rest =>
      if byte.toNat < 128 then
        if allowed = 0 ∧ lastMost < byte.toNat then .error .longVarint
        else .ok (byte.toNat, rest)
      else
        match readVarint lastMost allowed rest with
        | .ok (high, rest) => .ok (byte.toNat - 128 + 128 * high, rest)
        | .error fault => .error fault

/-- Numbers below `2 ^ 64`. -/
def nat : Wire Nat where
  write := writeVarint
  read := readVarint 1 10

/-- Numbers of alternatives, below `2 ^ 32`. -/
def tag : Wire Nat where
  write := writeVarint
  read := readVarint 15 5

/-- Integers with the sign in the lowest bit. -/
def zigzag (n : Int) : Nat :=
  if 0 ≤ n then 2 * n.toNat else 2 * (-n).toNat - 1

/-- The integer of a number with the sign in the lowest bit. -/
def unzigzag (n : Nat) : Int :=
  if n % 2 = 0 then (n / 2 : Nat) else -((n / 2 + 1 : Nat) : Int)

def int : Wire Int64 where
  write n := nat.write (zigzag n.toInt)
  read bytes :=
    match nat.read bytes with
    | .ok (n, rest) => .ok (Int64.ofInt (unzigzag n), rest)
    | .error fault => .error fault

/-- Read a number of bytes. -/
def readBytes (count : Nat) : ByteReader (List UInt8) := fun bytes =>
  if bytes.length < count then .error .endOfBytes
  else .ok (bytes.take count, bytes.drop count)

/-- Bytes of a word, the lowest first. -/
def wordBytes (word : Nat) : Nat → List UInt8
  | 0 => []
  | count + 1 => UInt8.ofNat (word % 256) :: wordBytes (word / 256) count

/-- The word of bytes, the lowest first. -/
def bytesWord : List UInt8 → Nat
  | [] => 0
  | byte :: rest => byte.toNat + 256 * bytesWord rest

/-- The pattern of a double in eight bytes. -/
def double : Wire Double where
  write x := wordBytes x.bits.toNat 8
  read bytes :=
    match readBytes 8 bytes with
    | .ok (word, rest) => .ok (⟨UInt64.ofNat (bytesWord word)⟩, rest)
    | .error fault => .error fault

/-- A truth value in one byte. -/
def bool : Wire Bool where
  write truth := [if truth then 1 else 0]
  read
    | [] => .error .endOfBytes
    | byte :: rest =>
        if byte = 0 then .ok (false, rest)
        else if byte = 1 then .ok (true, rest)
        else .error .badBool

/-- A text in UTF-8 behind the number of its bytes. -/
def string : Wire String where
  write text := nat.write text.utf8ByteSize ++ text.toUTF8.toList
  read bytes :=
    match nat.read bytes with
    | .error fault => .error fault
    | .ok (count, rest) =>
        match readBytes count rest with
        | .error fault => .error fault
        | .ok (encoded, rest) =>
            match String.fromUTF8? ⟨encoded.toArray⟩ with
            | some text => .ok (text, rest)
            | none => .error .badText

/-- Two values, one after the other. -/
def pair (first : Wire α) (second : Wire β) : Wire (α × β) where
  write value := first.write value.1 ++ second.write value.2
  read bytes :=
    match first.read bytes with
    | .error fault => .error fault
    | .ok (a, rest) =>
        match second.read rest with
        | .error fault => .error fault
        | .ok (b, rest) => .ok ((a, b), rest)

/-- Read a number of values. -/
def readItems (item : Wire α) : Nat → ByteReader (List α)
  | 0, bytes => .ok ([], bytes)
  | count + 1, bytes =>
      match item.read bytes with
      | .error fault => .error fault
      | .ok (first, rest) =>
          match readItems item count rest with
          | .error fault => .error fault
          | .ok (others, rest) => .ok (first :: others, rest)

/-- Values behind their number. -/
def list (item : Wire α) : Wire (List α) where
  write values := nat.write values.length ++ values.flatMap item.write
  read bytes :=
    match nat.read bytes with
    | .error fault => .error fault
    | .ok (count, rest) => readItems item count rest

/--
Values in the format of another type, refused when they have no counterpart.
-/
def via (inner : Wire α) (encode : β → α) (decode : α → Option β) : Wire β where
  write value := inner.write (encode value)
  read bytes :=
    match inner.read bytes with
    | .error fault => .error fault
    | .ok (a, rest) =>
        match decode a with
        | some b => .ok (b, rest)
        | none => .error .refused

/-- One of a list of values, written as its place in the list. -/
def enum [DecidableEq α] (values : List α) : Wire α :=
  via tag (fun value => values.idxOf value) (fun place => values[place]?)

/-- Read what follows the number of an alternative. -/
def alternative (inner : Wire α) (build : α → β) : ByteReader β := fun bytes =>
  match inner.read bytes with
  | .ok (a, rest) => .ok (build a, rest)
  | .error fault => .error fault

/-- Read the number of an alternative and then what it stands for. -/
def readTagged
    (alternatives : Nat → Option (ByteReader α)) :
    ByteReader α := fun bytes =>
  match tag.read bytes with
  | .error fault => .error fault
  | .ok (number, rest) =>
      match alternatives number with
      | some reader => reader rest
      | none => .error .refused

end Wire

end Formulary
