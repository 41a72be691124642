import Sos.Io.Layout
import Sos.Server.Calls

/-!
# `Sos.Client.Stubs`: the stubs of `libsos`

What `read`, `write`, `getdirent` and `process_status` make of the word of the reply. A client
sees the IPC page (`ipc`, indexed from its start) and its other memory (`mem`). A stub has no
result when an assertion in it fails.
-/

set_option autoImplicit false

namespace Sos

/-- `MAX_IO_BUF`. -/
def maxIoBuf : Nat := 0x1000

namespace Client

/-- `read`. The comparison of `received` with `to_read` is one of unsigned numbers. -/
def read (ipc mem : Nat → UInt8) (buf toRead word : Nat) : Option (Int × (Nat → UInt8)) :=
  if buf = 0 then some (-1, mem)
  else if toRead = 0 then some (0, mem)
  else
    let received := toInt32 word
    if received = -1 then some (-1, mem)
    else if received ≤ maxIoBuf ∧ word % 2 ^ 32 ≤ toRead then
      some (received, memcpy mem buf ipc (word % 2 ^ 32))
    else none

/-- The loop of `write`: the chunks it copies to the IPC page, one for each call, and the number
it returns. `realdata` are the bytes from that pointer on, and `server` gives the word of the
reply to the `k`-th call from here. -/
def writeLoop (nbyte : Nat) (server : Nat → Nat → Nat) (realdata : List UInt8)
    (notSentCount : Int) : List (List UInt8) × Int :=
  if 0 < notSentCount then
    let toSend := (min (ipcMemorySize : Int) notSentCount).toNat
    let chunk := realdata.take toSend
    let sent := toInt32 (server 0 toSend)
    if sent < 0 then ([chunk], sent)
    else if sent ≠ toSend then ([chunk], toInt32 (((nbyte - notSentCount) % 2 ^ 32).toNat))
    else
      let rest := writeLoop nbyte (fun k => server (k + 1)) (realdata.drop toSend)
        (notSentCount - toSend)
      (chunk :: rest.1, rest.2)
  else ([], toInt32 nbyte)
termination_by notSentCount.toNat
decreasing_by
  simp only [ipcMemorySize]
  omega

/-- `write` of a whole buffer, `none` for the null pointer. The server gets the descriptor and
the size of the chunk. -/
def write (server : Nat → List Nat → Nat) (file : Nat) (buf : Option (List UInt8)) :
    List (List UInt8) × Int :=
  match buf with
  | none => ([], -1)
  | some [] => ([], 0)
  | some buf => writeLoop buf.length (fun k toSend => server k [file, toSend]) buf
      (toInt32 buf.length)

/-- `getdirent`. -/
def getdirent (ipc mem : Nat → UInt8) (name nbyte word : Nat) : Option (Int × (Nat → UInt8)) :=
  if ¬ nbyte < maxIoBuf then none
  else if name = 0 then some (-1, mem)
  else
    let received := toInt32 word
    if received > 0 then
      some (received, memcpy mem name ipc (min nbyte (received.toNat + 1)))
    else some (received, mem)

/-- The loop of `process_status`. -/
def copyProcesses (ipc mem : Nat → UInt8) (processes returned : Nat) : Nat → UInt8 :=
  (List.range returned).foldl (fun mem i =>
    memcpy mem (processes + i * sizeofProcessT) (fun a => ipc (i * sizeofProcessT + a))
      sizeofProcessT) mem

/-- `process_status`. -/
def processStatus (ipc mem : Nat → UInt8) (processes max word : Nat) :
    Option (Nat × (Nat → UInt8)) :=
  if processes = 0 then none
  else if word ≤ max then some (word, copyProcesses ipc mem processes word)
  else none

end Client

end Sos
