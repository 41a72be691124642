import Sos.Io.State
import Sos.Lib.CString
import Sos.Lib.While

/-!
# `Sos.Client.Shell`: the line of a command

The part of `main` of `sosh` that divides a line into arguments, in place, and the one that puts
`exec` before them when the first is not the name of a command but of a file that can be executed.
`argv` has room for `MAX_ARGS` pointers; `written` says where the loops have written to it. The
loops have a number of turns at most.
-/

set_option autoImplicit false

namespace Sos

namespace Client

/-- `BUF_SIZ` of `sosh.c`. -/
def bufSiz : Nat := 128

def maxArgs : Nat := 32

/-- A pointer in `argv`: to a character of the line, or to the literal `"exec"`. -/
inductive Arg
  | line (p : Nat)
  | exec
deriving DecidableEq

/-- The variables of the loop. A pointer to the line is an index of `buf`. -/
structure Parsing where
  buf : Nat → UInt8
  p : Nat
  argc : Nat
  argv : Nat → Option Arg
  written : List Nat

namespace Parsing

/-- `argv[i] = arg`. -/
def setArg (s : Parsing) (i : Nat) (arg : Option Arg) : Parsing :=
  { s with argv := Function.update s.argv i arg, written := i :: s.written }

end Parsing

/-- A loop that moves a pointer over the characters that meet a condition. -/
def scan (buf : Nat → UInt8) (cond : UInt8 → Bool) (turns p : Nat) : Option Nat :=
  Lib.iterate (fun p => some (if cond (buf p) then .inl (p + 1) else .inr p)) turns p

/-- `while (*p == ' ')`. -/
def skipSpaces (buf : Nat → UInt8) (turns p : Nat) : Option Nat := scan buf (· = 32) turns p

/-- `while (*p != ' ' && *p != '\0')`. -/
def scanWord (buf : Nat → UInt8) (turns p : Nat) : Option Nat :=
  scan buf (fun c => c ≠ 32 ∧ c ≠ 0) turns p

/-- One turn of the outer loop, with `turns` for the inner ones. -/
def parseTurn (turns : Nat) (s : Parsing) : Option (Parsing ⊕ Parsing) :=
  if s.buf s.p = 0 then some (.inr s)
  else do
    let p ← skipSpaces s.buf turns s.p
    if s.buf p = 0 then some (.inr { s with p := p })
    else
      let s := { s.setArg s.argc (some (.line p)) with argc := s.argc + 1 }
      let q ← scanWord s.buf turns p
      if s.buf q = 0 then some (.inr { s with p := q })
      else some (.inl { s with buf := Lib.store s.buf q [0], p := q + 1 })

/-- The loop that divides a line. `argv` has not been written before. -/
def parse (buf : Nat → UInt8) (argv : Nat → Option Arg) (turns : Nat) : Option Parsing :=
  Lib.iterate (parseTurn turns) turns ⟨buf, 0, 0, argv, []⟩

/-- `argv[i] = argv[i-1]` for `i` down to 1. -/
def shiftArgs : Nat → Parsing → Parsing
  | 0, s => s
  | i + 1, s => shiftArgs i (s.setArg (i + 1) (s.argv i))

/-- The arguments move back, and `exec` is the first one. -/
def prependExec (s : Parsing) : Parsing :=
  let s := shiftArgs (min s.argc (maxArgs - 1)) s
  { s with argc := s.argc + 1 }.setArg 0 (some .exec)

end Client

end Sos
