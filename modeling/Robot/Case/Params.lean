import Mathlib

/-!
# Case parameters

The records of `case/params.go` and `case/control.go` that the scheduling code reads: one
stress line, one control line, and a parsed line of a case file, which is one of the two.
The rate is a rational number here, so it is finite.
-/

namespace Robot.Case

structure Params where
  caseName : String
  caseIndex : Nat
  errorBreak : Bool
  openIDPrefix : String
  openIDStart : Int64
  openIDEnd : Int64
  targetQPS : ℚ := 0
  userBatchCount : Int64
  runTime : Int64
  extraArgs : List String

/-- `UserCount`, in `int64`. -/
def Params.userCount (p : Params) : Int64 := p.openIDEnd - p.openIDStart

structure ControlParams where
  name : String
  caseIndex : Nat
  errorBreak : Bool
  background : Bool
  args : List String

structure CaseFileLine where
  isControl : Bool
  backgroundRunning : Bool
  stress : Params
  control : ControlParams

/-- Whether a failure of the line breaks the run: the flag of the record it uses. -/
def CaseFileLine.errorBreak (line : CaseFileLine) : Bool :=
  if line.isControl then line.control.errorBreak else line.stress.errorBreak

end Robot.Case
