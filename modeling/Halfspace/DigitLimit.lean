/-
How many digits a number in text may have.

Between integers and decimal text there may be a limit: a run of more digits is not read as an integer, and an integer
with more digits is not written. It belongs to the system that the program runs on, which has 4300 for it, other values
on request, and no limit once it is lifted; so it is a parameter of what reads or writes the numbers of a problem, and
lifted where nothing is said. Ids, line numbers and settings are taken to be shorter in the texts that tell about them.
Leading zeros count; a sign and the underscores between digits do not. Several runs are read one after another, so that
of two that are too long the first is told.
-/
import Halfspace.Fault

namespace Halfspace

/-- the most digits of an integer in text, any number of them where there is no limit -/
abbrev DigitLimit := Option Nat

namespace DigitLimit

/-- the limit of a system on which nothing else is asked for -/
def usual : DigitLimit := some 4300

def admits (limit : DigitLimit) (digits : Nat) : Bool := limit.all (digits ≤ ·)

/-! ## Reading -/

def checkRun (limit : DigitLimit) (run : List Nat) : Except Fault Unit :=
  match limit with
  | some most => if run.length ≤ most then .ok () else .error (.tooLongToRead most run.length)
  | none => .ok ()

/-- refuse runs of digits of which one is too long -/
def checkRuns (limit : DigitLimit) (runs : List (List Nat)) : Except Fault Unit := runs.forM limit.checkRun

/-! ## Writing -/

/-- whether numerator and denominator can be written -/
def writes (limit : DigitLimit) (q : Rat) : Bool :=
  limit.admits (toString q.num.natAbs).length && limit.admits (toString q.den).length

def checkNumber (limit : DigitLimit) (q : Rat) : Except Fault Unit :=
  match limit with
  | some most => if limit.writes q then .ok () else .error (.tooLongToWrite most)
  | none => .ok ()

/-- the fault of an action whose explanation holds numbers; when one of them cannot be written, that is the fault -/
def explain (limit : DigitLimit) (numbers : List Rat) (fault : Fault) : Fault :=
  match numbers.forM limit.checkNumber with
  | .error tooLong => tooLong
  | .ok _ => fault

end DigitLimit

end Halfspace
