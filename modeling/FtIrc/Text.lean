import Mathlib

/-!
# Byte strings

`std::string` is a list of bytes (`Str`).  The program only ever needs a literal (`str`), the
lower-casing it compares names with (`toLower`), and the numeric parsers of the C library
(`strtol`, `atoi`).
-/

namespace FtIrc

/-- `std::string`. -/
abbrev Str := List UInt8

instance (a : Str) (l : List Str) : Decidable (a ∈ l) := inferInstance

/-- A string literal of the source (all of them are ASCII). -/
def str (s : String) : Str := s.toList.map fun c => UInt8.ofNat c.toNat

def CR : UInt8 := 13
def LF : UInt8 := 10
def SPACE : UInt8 := 32
def HASH : UInt8 := 35
def COMMA : UInt8 := 44
def COLON : UInt8 := 58

/-- The line terminator. -/
def CRLF : Str := [CR, LF]

/-- `std::tolower` in the C locale. -/
def lowerByte (b : UInt8) : UInt8 := if 65 ≤ b ∧ b ≤ 90 then b + 32 else b

/-- `Server::toLower`. -/
def toLower (s : Str) : Str := s.map lowerByte

/-! ## Numbers -/

/-- `isspace` in the C locale. -/
def isSpace (b : UInt8) : Bool := b = 32 || (9 ≤ b && b ≤ 13)

def isDigit (b : UInt8) : Bool := 48 ≤ b && b ≤ 57

def LONG_MAX : Int := 9223372036854775807
def LONG_MIN : Int := -9223372036854775808
def UINT_MAX : Nat := 4294967295

/-- The number written by a list of digits. -/
def digitsVal (ds : Str) : Nat := ds.foldl (fun n d => 10 * n + (d.toNat - 48)) 0

/-- `strtol(s, _, 10)`: blanks, an optional sign, digits; the result is clamped to `long`.
A NUL byte is not a digit, so the C string ends the number there as well. -/
def strtol (s : Str) : Int :=
  let t := s.dropWhile isSpace
  let neg := t.head? = some 45
  let u := if t.head? = some 45 ∨ t.head? = some 43 then t.drop 1 else t
  let n : Int := digitsVal (u.takeWhile isDigit)
  if neg then max LONG_MIN (-n) else min LONG_MAX n

/-- Conversion of a `long` to `int`: the low 32 bits, read as a signed number. -/
def toInt32 (n : Int) : Int :=
  let m := n % 4294967296
  if m < 2147483648 then m else m - 4294967296

/-- Conversion of an `int` to `unsigned int`. -/
def toUInt32 (n : Int) : Nat := (n % 4294967296).toNat

/-- `atoi(s)`, that is `(int)strtol(s, NULL, 10)`. -/
def atoi (s : Str) : Int := toInt32 (strtol s)

example : atoi (str " +42x") = 42 ∧ atoi (str "4294967295") = -1 := by decide

/-! ## Lower-casing -/

theorem lowerByte_idem (b : UInt8) : lowerByte (lowerByte b) = lowerByte b := by
  unfold lowerByte
  split
  · rename_i h
    rw [if_neg]
    simp only [UInt8.le_iff_toNat_le, UInt8.toNat_add, UInt8.reduceToNat, not_and] at h ⊢
    omega
  · rfl

theorem toLower_idem (s : Str) : toLower (toLower s) = toLower s := by
  simp [toLower, lowerByte_idem]

@[simp] theorem toLower_nil : toLower [] = [] := rfl

@[simp] theorem toLower_cons (b : UInt8) (s : Str) : toLower (b :: s) = lowerByte b :: toLower s :=
  rfl

@[simp] theorem length_toLower (s : Str) : (toLower s).length = s.length := by simp [toLower]

@[simp] theorem toLower_eq_nil {s : Str} : toLower s = [] ↔ s = [] := by simp [toLower]

/-- A byte that is no letter is only reached from itself. -/
theorem lowerByte_eq_iff {b x : UInt8} (hx : x < 65 ∨ 122 < x ∨ (90 < x ∧ x < 97)) :
    lowerByte b = x ↔ b = x := by
  unfold lowerByte
  split
  · rename_i h
    simp only [UInt8.le_iff_toNat_le, UInt8.lt_iff_toNat_lt, UInt8.reduceToNat,
      ← UInt8.toNat_inj, UInt8.toNat_add] at h hx ⊢
    omega
  · rfl

theorem mem_toLower_iff {s : Str} {x : UInt8} (hx : x < 65 ∨ 122 < x ∨ (90 < x ∧ x < 97)) :
    x ∈ toLower s ↔ x ∈ s := by
  simp [toLower, lowerByte_eq_iff hx]

theorem head?_toLower_iff {s : Str} {x : UInt8} (hx : x < 65 ∨ 122 < x ∨ (90 < x ∧ x < 97)) :
    (toLower s).head? = some x ↔ s.head? = some x := by
  cases s with
  | nil => simp
  | cons b s => simp [lowerByte_eq_iff hx]

end FtIrc
