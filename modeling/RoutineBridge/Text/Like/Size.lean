import RoutineBridge.Text.Like

/-!
# Size of LIKE patterns

A pattern is measured by the automaton that reads a text from its end, byte by byte, and meets the
parts of the pattern from the last to the first. A state takes 32 bytes and each way that leaves a
branch 4 more; a pattern may take ten mebibytes.
-/

namespace RoutineBridge

namespace Like

/-- The bytes of a state. -/
def stateSize : Nat := 32

/-- The bytes of a branch with so many ways out. -/
def branchSize (ways : Nat) : Nat := stateSize + 4 * ways

/-- All bytes of a character but the last. -/
def lead (c : Char) : List UInt8 := (String.utf8EncodeChar c).dropLast

/-- The beginnings of a list of bytes that are not empty. -/
def beginnings (bytes : List UInt8) : List (List UInt8) :=
  (List.range bytes.length).map fun n => bytes.take (n + 1)

/-- The characters that no neighbour with the same lead stands before; each begins a run of bytes
that share a state. -/
def runStarts (cs : List Char) : List Char :=
  cs.filter fun c => !cs.any fun d => d.toNat + 1 == c.toNat && lead d == lead c

/-- The bytes of a choice among characters. A choice within ASCII needs one state for all, and
eight bytes for each; another a branch to the last bytes, one state for every run of them and for
every beginning of a lead. -/
def choiceSize (cs : List Char) : Nat :=
  if cs.all (·.toNat < 128) then 2 * stateSize + 8 * cs.length
  else
    let starts := runStarts cs
    let inner := (starts.flatMap fun c => beginnings (lead c)).eraseDups
    branchSize starts.length + (1 + starts.length + inner.length) * stateSize

/-- The bytes of an open character: ten runs of byte sequences that share no beginning, of 28
bytes in all. -/
def openSize : Nat := branchSize 10 + 29 * stateSize

/-- The bytes of a part. A character without case is just its bytes. -/
def Part.size : Part → Nat
  | anyRun => branchSize 2 + openSize
  | anyOne => openSize
  | letter c =>
    match Text.sameLetters c with
    | [c] => stateSize * c.utf8Size
    | cs => choiceSize cs

/-- The bytes of a pattern: its parts, its two ends, a start and a goal. -/
def size (pattern : String) : Nat :=
  (parts pattern).foldr (fun p n => p.size + n) (4 * stateSize)

/-- The pattern is small enough to be used. -/
def isUsable (pattern : String) : Bool := size pattern ≤ 10485760

end Like

end RoutineBridge
