import Sos.Io.Table

/-!
# `Sos.Io.Serial`: the console

`io/io_serial.c`. One process at a time may read the console; its thread id is the field
`reader` of the console's `file_info`. A read that finds nothing in the buffer waits: its
descriptor keeps `to_read`, and the handler for received characters answers it.

`serial_send` of `libs/serial` copies all bytes into a buffer of the network stack and
returns their number, so the loop of `write_serial` ends after one turn. It asserts that
`pbuf_alloc` returns a buffer. That needs free memory (`allocated`), and a size that the heap
of the stack can hold at all. The size is the length as a 16-bit value, so that the buffer can
be smaller than what is copied.
-/

set_option autoImplicit false

namespace Sos.Io

/-- `get_file_for_serial`: the last file with a serial handle. -/
def getFileForSerial (s : Io) : Option Nat :=
  s.fileCache.reverse.find? fun file => (s.files file).serialHandle

/-- `get_reading_file_handle`: the first entry of the reader that waits for input. -/
def getReadingFileHandle (s : Io) (file : Nat) : Option (Option Nat) :=
  s.findEntry (tid2pid (s.files file).reader)
    (fun _ f => some (f.file = some file && decide (f.toRead > 0))) (List.range processMaxFiles)

/-- `open_serial`. -/
def openSerial (s : Io) (file : Nat) (tid : ThreadId) (mode : Nat) : Io :=
  match s.findFreeFileSlot (tid2pid tid) with
  | none => s.sendIpcReply tid sosOpen [-1]
  | some fd =>
    let reader := (s.files file).reader
    if (mode = oRdonly ∨ mode = oRdwr) ∧ ¬ (reader = nilthread ∨ reader = tid) then
      s.sendIpcReply tid sosOpen [-1]
    else
      let s := if mode = oRdonly ∨ mode = oRdwr then
          s.updateFile file fun f => { f with reader := tid }
        else s
      let (s, entry) := s.createFileDescriptor file tid mode
      (s.setFiletable (tid2pid tid) fd (some entry)).sendIpcReply tid sosOpen [fd]

/-- `read_serial`. The copy takes what is in the buffer. -/
def readSerial (s : Io) (entry : Nat) : Option Io := do
  let f ← s.entries entry
  let (console, toSend) := s.console.read f.toRead
  if toSend > 0 then do
    let addr ← f.clientBuffer
    let s := s.access addr s.console.copied (some s.console.copy)
    let s := { s with console := console }
    let s := s.sendIpcReply f.owner sosRead [toSend]
    some (s.setEntry entry { f with toRead := 0 })
  else some { s with console := console }

/-- `write_serial`. -/
def writeSerial (s : Io) (entry : Nat) (allocated : Bool) : Option Io := do
  let f ← s.entries entry
  let file ← f.file
  if (s.files file).serialHandle ∧ allocated ∧ PbufFits f.toWrite then do
    let addr ← f.clientBuffer
    some ((s.access addr f.toWrite none).sendIpcReply f.owner sosWrite [f.toWrite])
  else none

/-- `close_serial`: the console is free again when the last descriptor for reading is
closed. -/
def closeSerial (s : Io) (entry : Nat) : Option Io := do
  let f ← s.entries entry
  if f.mode &&& fmRead = 0 then some s
  else do
    let file ← f.file
    let serial := (s.files file).serialHandle
    let other ← s.findEntry (tid2pid f.owner) (fun entry' f' => do
        let file' ← f'.file
        some (decide (entry ≠ entry') && decide (f'.mode &&& fmRead ≠ 0) &&
          (s.files file').serialHandle == serial)) (List.range processMaxFiles)
    match other with
    | some _ => some s
    | none => some (s.updateFile file fun f => { f with reader := nilthread })

/-- `serial_receive_handler`: a character arrives. -/
def serialReceiveHandler (s : Io) (c : UInt8) : Option Io := do
  let file ← s.getFileForSerial
  let (console, written) := s.console.write c
  let s := { s with console := console }
  match ← s.getReadingFileHandle file with
  | some entry => if c = 10 ∨ written = 0 then s.readSerial entry else some s
  | none => some s

end Sos.Io
