import Mathlib.Data.List.Basic
import Mathlib.Data.List.TakeWhile
import Mathlib.Data.Int.Init
import Mathlib.Tactic

/-!
# Bytes, byte classes and the C string functions

The macros of `xstring.h` over unsigned bytes, and the three C library calls
the program makes on text: `strncmp` against a literal, `strcmp` against a name
and `atoi`. A C string is a list of bytes; the functions that walk a pointer
also report how many bytes they looked at, so that a caller can tell whether
the walk stayed inside the memory it owns.

`atoi` follows glibc: `strtol` saturated to a 64-bit `long`, then truncated to a
32-bit `int`.
-/
namespace Xpipe

def CR : UInt8 := 13
def LF : UInt8 := 10
def TAB : UInt8 := 9
def SP : UInt8 := 32
def NUL : UInt8 := 0

def crlf : List UInt8 := [CR, LF]

def isUpper (c : UInt8) : Bool := 65 ≤ c && c ≤ 90
def isLetter (c : UInt8) : Bool := (97 ≤ c && c ≤ 122) || (65 ≤ c && c ≤ 90)
def isDigit (c : UInt8) : Bool := 48 ≤ c && c ≤ 57
def isBlank (c : UInt8) : Bool := c == CR || c == LF || c == TAB || c == SP

/-- The alphabet of a headers line: letters, digits, `;`, `_` and `=`. -/
def isHeaderByte (c : UInt8) : Bool :=
  isLetter c || isDigit c || c == 59 || c == 95 || c == 61

/-- Every byte of `s` is in the class `p`. -/
def All (p : UInt8 → Bool) (s : List UInt8) : Prop := ∀ c ∈ s, p c = true

instance (p : UInt8 → Bool) (s : List UInt8) : Decidable (All p s) :=
  decidable_of_iff (s.all p = true) List.all_eq_true

lemma All.snoc {p : UInt8 → Bool} {s : List UInt8} {c : UInt8} (h : All p s) (hc : p c = true) :
    All p (s ++ [c]) := by
  intro d hd
  rcases List.mem_append.mp hd with hd | hd
  · exact h d hd
  · rwa [List.mem_singleton.mp hd]

lemma All.singleton {p : UInt8 → Bool} {c : UInt8} (hc : p c = true) : All p [c] :=
  All.snoc (s := []) (by simp [All]) hc

/-- `strncmp(s, lit, n) == 0` for a literal of exactly `n` bytes, none of them
NUL: the walk stops at the first difference. -/
def strncmpEq : List UInt8 → List UInt8 → Bool
  | _, [] => true
  | [], _ :: _ => false
  | a :: s, b :: lit => a == b && strncmpEq s lit

/-- The number of bytes of `s` that the comparison above looks at. -/
def strncmpReads : List UInt8 → List UInt8 → ℕ
  | _, [] => 0
  | [], _ :: _ => 1
  | a :: s, b :: lit => if a == b then strncmpReads s lit + 1 else 1

/-- The bytes of the C string at the start of `s`. -/
def cString (s : List UInt8) : List UInt8 := s.takeWhile (fun c => c != NUL)

def isSpace (c : UInt8) : Bool := c == 32 || (9 ≤ c && c ≤ 13)

/-- The value of a numeral, most significant digit first. -/
def decimal (ds : List UInt8) : ℕ := ds.foldl (fun v c => 10 * v + (c.toNat - 48)) 0

/-- The sign in front of a numeral, if there is one, and what follows it. -/
def splitSign : List UInt8 → Bool × List UInt8
  | [] => (false, [])
  | c :: s => if c == 45 then (true, s) else if c == 43 then (false, s) else (false, c :: s)

/-- `strtol(s, NULL, 10)`: white space, an optional sign, digits; the value is
saturated to a 64-bit `long`. -/
def strtol (s : List UInt8) : ℤ :=
  let t := splitSign (s.dropWhile isSpace)
  let v : ℤ := decimal (t.2.takeWhile isDigit)
  if t.1 then max (-v) (-2 ^ 63) else min v (2 ^ 63 - 1)

/-- The number of bytes `strtol` looks at: it stops at the first byte that
cannot continue the numeral. -/
def strtolReads (s : List UInt8) : ℕ :=
  let t := splitSign (s.dropWhile isSpace)
  (s.length - t.2.length) + (t.2.takeWhile isDigit).length + 1

/-- The conversion of a `long` to `int`. -/
def toInt32 (v : ℤ) : ℤ := v.bmod (2 ^ 32)

def atoi (s : List UInt8) : ℤ := toInt32 (strtol (cString s))

def atoiReads (s : List UInt8) : ℕ := strtolReads (cString s)

/-- The conversion of a signed integer to `size_t`. -/
def toSizeT (v : ℤ) : ℕ := (v % 2 ^ 64).toNat

end Xpipe
