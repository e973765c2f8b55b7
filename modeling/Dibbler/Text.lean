import Dibbler.Entities
import Dibbler.CString

/-! Text forms of the snapshot's values. Decimal numbers are what `ostream <<` prints for
`unsigned long`, `uint64_t` and `int`. The rest is modelled from the spec (§3, §4.2, §6),
since `TIPv6Addr`, `TDUID` and `hex.h` are not under `src/`: an IPv6 address is printed in
its canonical form (RFC 5952 §4: lowercase hexadecimal groups without leading zeros, the
first longest run of at least two zero groups written `::`) and parsed from the hexadecimal
forms with at most one `::`, a text that does not parse giving no address; a DUID is printed
as two hexadecimal digits per byte separated by colons, a reconfigure key as two digits per
byte, and both are read back two digits per byte with colons skipped. -/

namespace Dibbler

/-- `ostream << n` for an unsigned integer. -/
def decimal (n : Nat) : List Char :=
  Nat.toDigits 10 n

/-- `ostream << v` for an `int`. -/
def signedDecimal (v : BitVec 32) : List Char :=
  if v.toInt < 0 then '-' :: decimal v.toInt.natAbs else decimal v.toNat

/-- The value of a hexadecimal digit, either case. -/
def hexValue (c : Char) : Option Nat :=
  if '0' ≤ c ∧ c ≤ '9' then some (c.toNat - '0'.toNat)
  else if 'a' ≤ c ∧ c ≤ 'f' then some (c.toNat - 'a'.toNat + 10)
  else if 'A' ≤ c ∧ c ≤ 'F' then some (c.toNat - 'A'.toNat + 10)
  else none

/-- Two hexadecimal digits for a byte. -/
def hexByte (b : UInt8) : List Char :=
  [Nat.digitChar (b.toNat / 16), Nat.digitChar (b.toNat % 16)]

/-- `TDUID::getPlain()`: `00:01:...`. -/
def Duid.plain (d : Duid) : List Char :=
  ":".toList.intercalate (d.bytes.map hexByte)

/-- `hexToText`: the key's bytes, two digits each. -/
def hexToText (bytes : List UInt8) : List Char :=
  (bytes.map hexByte).flatten

/-- Two digits per byte, an unpaired last digit a byte of its own; a character that is not a
hexadecimal digit counts as `0`. -/
def hexPairs : List Char → List UInt8
  | a :: b :: rest => UInt8.ofNat (((hexValue a).getD 0) * 16 + (hexValue b).getD 0) :: hexPairs rest
  | [a] => [UInt8.ofNat ((hexValue a).getD 0)]
  | [] => []

/-- `textToHex` and `TDUID(const char *)`: colons are skipped. -/
def textToHex (text : List Char) : List UInt8 :=
  hexPairs (text.filter (· ≠ ':'))

/-- `TDUID(const char *)`. -/
def Duid.ofText (text : List Char) : Duid :=
  ⟨textToHex text⟩

/-- One group of an IPv6 address as `inet_ntop` prints it. -/
def hexGroup (g : UInt16) : List Char :=
  Nat.toDigits 16 g.toNat

/-- The length of the run of zero groups starting at `i`. -/
def zeroRunAt (gs : List UInt16) (i : Nat) : Nat :=
  ((gs.drop i).takeWhile (· = 0)).length

/-- The first longest run of at least two zero groups: its start and length. -/
def zeroRun (gs : List UInt16) : Option (Nat × Nat) :=
  (List.range gs.length).foldl
    (fun best i =>
      let len := zeroRunAt gs i
      match best with
      | some (_, l) => if l < len then some (i, len) else best
      | none => if 2 ≤ len then some (i, len) else none)
    none

/-- Groups joined by colons. -/
def joinGroups (gs : List UInt16) : List Char :=
  ":".toList.intercalate (gs.map hexGroup)

/-- `TIPv6Addr::getPlain()`: the canonical text form. -/
def IPv6Addr.plain (a : IPv6Addr) : List Char :=
  match zeroRun a.groups with
  | none => joinGroups a.groups
  | some (i, len) => joinGroups (a.groups.take i) ++ "::".toList ++ joinGroups (a.groups.drop (i + len))

/-- One to four hexadecimal digits. -/
def parseGroup (s : List Char) : Option UInt16 :=
  if s.length = 0 ∨ 4 < s.length then none
  else (s.mapM hexValue).map fun ds => UInt16.ofNat (ds.foldl (fun n d => 16 * n + d) 0)

/-- Colon-separated groups; the empty text has none. -/
def parseGroups (s : List Char) : Option (List UInt16) :=
  if s = [] then some [] else (s.splitOn ':').mapM parseGroup

/-- `TIPv6Addr(const char *, true)`: eight groups, or fewer around one `::` that stands for
the missing zero groups. -/
def IPv6Addr.ofText (s : List Char) : Option IPv6Addr :=
  match findSub "::".toList s with
  | none => do
    let gs ← parseGroups s
    if h : gs.length = 8 then some ⟨gs, h⟩ else none
  | some i => do
    let left ← parseGroups (s.take i)
    let rightText := s.drop (i + 2)
    if (findSub "::".toList rightText).isSome then none else
    let right ← parseGroups rightText
    let gs := left ++ List.replicate (8 - left.length - right.length) 0 ++ right
    if h : left.length + right.length ≤ 7 ∧ gs.length = 8 then some ⟨gs, h.2⟩ else none

end Dibbler
