import NestedTables.Text.DigitLimit
import NestedTables.Text.LowerCase
import NestedTables.Text.Number
import NestedTables.Yaml.Token

/-!
# Numbers in YAML

An integer may be written in base two, eight, ten or sixteen, told apart by what it begins
with, and in groups of base sixty with colons between them; so may a double. Underscores
anywhere are left out. A number that is only called one by its tag is read by the same rules,
and what they cannot read is a fault that names the digits.
-/

namespace NestedTables.Yaml.Number

/-- The parts of a text between colons. -/
def parts (cs : List Char) : List (List Char) :=
  cs.splitOn ':'

/-- The number of the decimal digits that a number begins with. -/
def digitCount (cs : List Char) : Nat :=
  (Text.digitRun false (Text.signed (Text.withoutBlanks cs)).2).1.length

/-- The integer that digits write in a base. In base ten there may not be too many of them,
whatever follows them. -/
def inBase (base : Nat) (digits : List Char) : Except Fault Int :=
  if base = 10 && digitCount digits > Text.mostDigits then
    .error (.tooManyDigits (digitCount digits))
  else match Text.integer? base digits with
    | some n => .ok n
    | none => .error (.noInteger base digits)

/-- The integer that a text without a sign writes. -/
def magnitude (cs : List Char) : Except Fault Int :=
  match cs with
  | [] => .error .emptyNumber
  | '0' :: 'b' :: digits => inBase 2 digits
  | '0' :: 'x' :: digits => inBase 16 digits
  | ['0'] => .ok 0
  | '0' :: _ => inBase 8 cs
  | _ =>
    if cs.contains ':' then
      ((parts cs).mapM (inBase 10)).map fun groups => groups.foldl (fun n g => 60 * n + g) 0
    else inBase 10 cs

/-- The integer that a text writes. -/
def integer (text : String) : Except Fault Int :=
  match text.toList.filter (· ≠ '_') with
  | [] => .error .emptyNumber
  | cs =>
    let (negative, body) := Text.signed cs
    (magnitude body).map fun n => if negative then -n else n

/-- The double that a text writes, if it is a plain one. -/
def plainDouble (cs : List Char) : Except Fault Double :=
  match Text.double? cs with
  | some x => .ok x
  | none => .error (.noDouble cs)

/-- The double that groups write, the last one first; the first of the list is worth `worth`
for each one. Every product and every sum is rounded, and the worth of a group is rounded
before it is used. -/
def ofGroups : (worth : Nat) → Double → List Double → Except Fault Double
  | _, sum, [] => .ok sum
  | worth, sum, g :: gs =>
    match Double.ofNat? worth with
    | none => .error .tooManyGroups
    | some factor => ofGroups (worth * 60) (sum.add (g.scale factor)) gs

/-- The double that the sign and the size of a number make. -/
def signedDouble (negative : Bool) (x : Double) : Double :=
  if negative then x.negated else x

/-- A double; one that is no number is made different from those of other places. -/
def marked (place : Nat) (x : Double) : Double :=
  if x.isNaN then .notNumber place else x

/-- The double that a text at a place writes. The word `.nan` means the same double wherever it
stands, but any other way to write what is no number makes a new one. -/
def double (place : Nat) (text : String) : Except Fault Double :=
  match Text.lowerCase (text.toList.filter (· ≠ '_')) with
  | [] => .error .emptyNumber
  | cs =>
    let (negative, body) := Text.signed cs
    if body = ".nan".toList then .ok (.notNumber 0)
    else if body = ".inf".toList then .ok (.ofSign negative Double.infinityBits)
    else
      let size :=
        if body.contains ':' then
          ((parts body).mapM plainDouble).bind fun gs => ofGroups 1 (.ofSign false 0) gs.reverse
        else plainDouble body
      size.map fun x => marked place (signedDouble negative x)

end NestedTables.Yaml.Number
