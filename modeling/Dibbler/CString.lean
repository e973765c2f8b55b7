import Mathlib.Data.List.Infix
import Mathlib.Data.BitVec

/-! The C library under the snapshot reader of `src/AddrMgr/AddrMgr.cpp`: `fgets` into
`char buf[256]`, `strstr`, pointer arithmetic, `*x = 0`, `std::string(begin, end)`, `atoi`
and `stringstream >> uint64_t`.

The file is text, which `fgets` reads by bytes of its UTF-8 encoding. A chunk is the text
`fgets` stored, up to its first NUL: that is all `strstr` and the string
constructors ever read. A `char *` into the buffer is an offset into the chunk. Arithmetic on
a null `strstr` result gives a pointer that is neither null nor into the buffer; using it,
or an offset outside `[0, chunk length]`, or building a string from a range whose end was
not found, is undefined behaviour in C and a `Fault` here. The model is LP64 glibc:
`atoi` is `(int) strtol(s, NULL, 10)`.

`Ptr.add p k` is `p + k` and `Ptr.isNull` the test `if (p)`; `find buf needle` is
`strstr(buf, needle)` and `contains` its test against `NULL`, `strstr buf p needle` the search
from a pointer into the chunk; `atoi buf p` is `atoi(p)`, and `atoiAfter buf name skip dflt` is
`if ((x = strstr(buf, name))) v = atoi(x + skip);` with `v` otherwise `dflt`. -/

namespace Dibbler

/-- How a read of the snapshot leaves defined C behaviour, or (never, as the reader shows)
runs out of fuel. -/
inductive Fault where
  | badPointer
  | outOfChunk
  | badRange
  | outOfFuel
  deriving DecidableEq, Repr

instance decEqExcept {ε α : Type} [DecidableEq ε] [DecidableEq α] : DecidableEq (Except ε α)
  | .error a, .error b => decidable_of_iff (a = b) ⟨congrArg _, Except.error.inj⟩
  | .ok a, .ok b => decidable_of_iff (a = b) ⟨congrArg _, Except.ok.inj⟩
  | .error _, .ok _ => isFalse nofun
  | .ok _, .error _ => isFalse nofun

/-- A `char *` into the line buffer: null, an offset into the chunk, or null moved by
arithmetic. -/
inductive Ptr where
  | null
  | ofs (i : Int)
  | wild
  deriving DecidableEq, Repr

namespace Ptr

def add : Ptr → Int → Ptr
  | null, k => if k = 0 then null else wild
  | ofs i, k => ofs (i + k)
  | wild, _ => wild

def isNull : Ptr → Bool
  | null => true
  | _ => false

/-- The offset a pointer may be used at: inside the chunk or at its NUL. This is stricter than
C, where the rest of the 256-byte buffer may also be read; the reader never needs more. -/
def index (p : Ptr) (buf : List Char) : Except Fault Nat :=
  match p with
  | ofs i => if 0 ≤ i ∧ i ≤ buf.length then .ok i.toNat else .error .outOfChunk
  | _ => .error .badPointer

end Ptr

def findSub (needle : List Char) : List Char → Option Nat
  | [] => if needle.isEmpty then some 0 else none
  | c :: hay => if needle.isPrefixOf (c :: hay) then some 0 else (findSub needle hay).map (· + 1)

def contains (buf : List Char) (needle : String) : Bool :=
  (findSub needle.toList buf).isSome

def find (buf : List Char) (needle : String) : Ptr :=
  match findSub needle.toList buf with
  | none => .null
  | some i => .ofs i

def strstr (buf : List Char) (p : Ptr) (needle : String) : Except Fault Ptr := do
  let i ← p.index buf
  pure <| match findSub needle.toList (buf.drop i) with
    | none => .null
    | some j => .ofs (i + j)

/-- `*p = 0`: the chunk ends at `p`. -/
def cut (buf : List Char) (p : Ptr) : Except Fault (List Char) := do
  let i ← p.index buf
  pure (buf.take i)

/-- The C string at `p`, as a constructor taking `const char *` reads it. -/
def cstring (buf : List Char) (p : Ptr) : Except Fault (List Char) := do
  let i ← p.index buf
  pure (buf.drop i)

/-- `std::string(b, e)`: both ends must be in the chunk, in order. -/
def range (buf : List Char) (b e : Ptr) : Except Fault (List Char) :=
  match b.index buf, e.index buf with
  | .ok i, .ok j => if i ≤ j then .ok ((buf.drop i).take (j - i)) else .error .badRange
  | _, _ => .error .badRange

def isSpace (c : Char) : Bool :=
  c = ' ' || c = '\t' || c = '\n' || c = '\x0b' || c = '\x0c' || c = '\r'

def digitsValue (ds : List Char) : Nat :=
  ds.foldl (fun n c => 10 * n + (c.toNat - '0'.toNat)) 0

def takeSign : List Char → Bool × List Char
  | '-' :: s => (true, s)
  | '+' :: s => (false, s)
  | s => (false, s)

/-- `strtol(s, NULL, 10)` on LP64: leading space, a sign, digits, clamped to `long`. -/
def strtol (s : List Char) : Int :=
  let (neg, s) := takeSign (s.dropWhile isSpace)
  let n : Int := digitsValue (s.takeWhile Char.isDigit)
  max (-2 ^ 63) (min (if neg then -n else n) (2 ^ 63 - 1))

/-- `atoi`: glibc's `(int) strtol(s, NULL, 10)`. -/
def atoiText (s : List Char) : BitVec 32 :=
  BitVec.ofInt 32 (strtol s)

def atoi (buf : List Char) (p : Ptr) : Except Fault (BitVec 32) := do
  let i ← p.index buf
  pure (atoiText (buf.drop i))

def atoiAfter (buf : List Char) (name : String) (skip : Nat) (dflt : BitVec 32) :
    Except Fault (BitVec 32) :=
  match findSub name.toList buf with
  | none => pure dflt
  | some i => atoi buf (.ofs (i + skip))

/-- `stringstream(s) >> v` for `uint64_t v` (libstdc++ `num_get`): leading space, a sign,
digits; no digit gives 0, a magnitude past the range gives the maximum, and a minus sign
negates modulo `2^64`. -/
def extractU64 (s : List Char) : UInt64 :=
  let (neg, s) := takeSign (s.dropWhile isSpace)
  let ds := s.takeWhile Char.isDigit
  if ds = [] then 0
  else if 2 ^ 64 ≤ digitsValue ds then UInt64.ofNat (2 ^ 64 - 1)
  else if neg then 0 - UInt64.ofNat (digitsValue ds) else UInt64.ofNat (digitsValue ds)

/-- An open `FILE *` for reading: what is left, and the end-of-file flag. -/
structure Stream where
  rest : List Char
  eof : Bool
  deriving DecidableEq, Repr

def Stream.ofText (text : List Char) : Stream := ⟨text, false⟩

/-- The length of a text in bytes: the file is read as its UTF-8 encoding. -/
def byteLength : List Char → Nat
  | [] => 0
  | c :: s => c.utf8Size + byteLength s

/-- At most `n` bytes, through the first newline. A character whose bytes do not all fit
is left for the next read. -/
def takeLine : Nat → List Char → List Char × List Char
  | _, [] => ([], [])
  | n, c :: s =>
    if n < c.utf8Size then ([], c :: s)
    else if c = '\n' then ([c], s)
    else
      let r := takeLine (n - c.utf8Size) s
      (c :: r.1, r.2)

/-- `fgets(buf, 255, f)`: at most 254 bytes, through the first newline; null at the end of
the file. The end-of-file flag is set when the file ran out before a newline and before the
limit. The chunk is returned as `strstr` sees it, up to its first NUL. -/
def fgets (s : Stream) : Option (List Char) × Stream :=
  match s.rest with
  | [] => (none, ⟨[], true⟩)
  | c :: rest =>
    let r := takeLine 254 (c :: rest)
    (some (r.1.takeWhile (· ≠ '\x00')),
      ⟨r.2, r.2.isEmpty && !r.1.contains '\n' && decide (byteLength r.1 < 254)⟩)

section Lemmas

@[simp] theorem ok_bind {ε α β : Type} (a : α) (f : α → Except ε β) :
    (Except.ok a >>= f) = f a := rfl

@[simp] theorem error_bind {ε α β : Type} (e : ε) (f : α → Except ε β) :
    (Except.error e >>= f) = Except.error e := rfl

@[simp] theorem byteLength_nil : byteLength [] = 0 := rfl

@[simp] theorem byteLength_cons (c : Char) (s : List Char) :
    byteLength (c :: s) = c.utf8Size + byteLength s := rfl

@[simp] theorem byteLength_append : ∀ s t : List Char,
    byteLength (s ++ t) = byteLength s + byteLength t
  | [], t => (Nat.zero_add _).symm
  | c :: s, t => by
    rw [List.cons_append, byteLength_cons, byteLength_cons, byteLength_append s t, Nat.add_assoc]

theorem takeLine_append : ∀ (n : Nat) (s : List Char),
    (takeLine n s).1 ++ (takeLine n s).2 = s
  | _, [] => rfl
  | n, c :: s => by
    unfold takeLine
    split
    · rfl
    · split
      · rfl
      · simp [takeLine_append (n - c.utf8Size) s]

theorem takeLine_length_pos {n : Nat} {c : Char} {s : List Char} (h : c.utf8Size ≤ n) :
    0 < (takeLine n (c :: s)).1.length := by
  unfold takeLine
  rw [if_neg (Nat.not_lt.mpr h)]
  split <;> simp

theorem fgets_eq_some {s : Stream} {buf : List Char} {s' : Stream}
    (h : fgets s = (some buf, s')) :
    ∃ chunk, chunk ≠ [] ∧ s.rest = chunk ++ s'.rest ∧ buf = chunk.takeWhile (· ≠ '\x00') := by
  unfold fgets at h
  split at h
  · cases h
  · next c rest hr =>
    simp only [Prod.mk.injEq, Option.some.injEq] at h
    obtain ⟨rfl, rfl⟩ := h
    refine ⟨_, List.ne_nil_of_length_pos
      (takeLine_length_pos ((Char.utf8Size_le_four c).trans (by decide))), ?_, rfl⟩
    rw [hr, takeLine_append]

theorem fgets_rest_length_lt {s : Stream} {buf : List Char} {s' : Stream}
    (h : fgets s = (some buf, s')) : s'.rest.length < s.rest.length := by
  obtain ⟨chunk, hne, hs, -⟩ := fgets_eq_some h
  have := List.length_pos_of_ne_nil hne
  rw [hs, List.length_append]
  omega

theorem fgets_eq_none {s : Stream} {s' : Stream} (h : fgets s = (none, s')) :
    s.rest = [] ∧ s'.rest = [] := by
  unfold fgets at h
  split at h
  · next hr => cases h; exact ⟨hr, rfl⟩
  · cases h

end Lemmas

end Dibbler
