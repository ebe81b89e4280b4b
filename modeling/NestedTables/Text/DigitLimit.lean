/-!
# The limit on decimal digits

To write an integer in decimal, or to read one, takes time that grows faster than the number
of its digits. An integer of more than `mostDigits` digits is therefore neither written nor
read. Other bases, whose digits are groups of bits, have no limit; so an integer that was read
in one of them may be too long to be written.
-/

namespace NestedTables.Text

/-- The greatest number of decimal digits of an integer that is written or read. -/
def mostDigits : Nat := 4300

/-- Whether an integer is short enough to be written in decimal. -/
def isWritable (n : Int) : Bool :=
  n.natAbs < Nat.pow 10 mostDigits

/-- What is said of any integer that passes the limit. -/
def limitExceeded : String :=
  s!"Exceeds the limit ({mostDigits} digits) for integer string conversion"

/-- How the limit is raised. -/
def limitAdvice : String :=
  "; use sys.set_int_max_str_digits() to increase the limit"

/-- What is said of an integer that is too long to be written. -/
def unwritable : String :=
  limitExceeded ++ limitAdvice

/-- What is said of so many digits that are too many to be read. -/
def unreadable (digits : Nat) : String :=
  limitExceeded ++ s!": value has {digits} digits" ++ limitAdvice

theorem isWritable_neg (n : Int) : isWritable (-n) = isWritable n := by
  simp [isWritable]

end NestedTables.Text
