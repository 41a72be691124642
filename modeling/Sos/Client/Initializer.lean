import Sos.Client.Stubs
import Sos.Lib.While

/-!
# `Sos.Client.Initializer`: the loop that loads an executable

Every process starts as the initializer, which copies the file of the process to `HEAP_START`, in
pieces of 512 bytes, loads it from there as an ELF file, and calls `process_start` with what the
loader returns. `elf_loadFile` is a parameter. The words that the server replies to the calls of
`read`, with the IPC page at each of them, are `reads`; `open` has returned -1 when it failed, and
`read` gets that as its descriptor.
-/

set_option autoImplicit false

namespace Sos

namespace Client

/-- What the loop changes: the number of calls of `read` so far, the memory and `copy_to`. -/
structure Loading where
  calls : Nat
  mem : Nat → UInt8
  copyTo : Nat

/-- One turn of the loop. A pointer has 32 bits. -/
def loadTurn (reads : Nat → Nat × (Nat → UInt8)) (s : Loading) :
    Option (Loading ⊕ (Nat → UInt8)) := do
  let (word, ipc) := reads s.calls
  let (bytesRead, mem) ← read ipc s.mem s.copyTo 512 word
  if bytesRead = 0 then some (.inr mem)
  else some (.inl ⟨s.calls + 1, mem, ((s.copyTo + bytesRead) % 2 ^ 32).toNat⟩)

/-- `main` of the initializer, with a number of turns at most: the memory behind the loop, and the
word that it sends with `process_start`. -/
def initializer (elfLoadFile : (Nat → UInt8) → Nat → Int) (reads : Nat → Nat × (Nat → UInt8))
    (mem : Nat → UInt8) (turns : Nat) : Option ((Nat → UInt8) × Int) := do
  let mem ← Lib.iterate (loadTurn reads) turns ⟨0, mem, heapStart⟩
  some (mem, elfLoadFile mem heapStart)

end Client

end Sos
