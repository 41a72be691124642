import Sos.Files.Effects
import Sos.Properties.IpcPage

/-!
# `Sos.Properties.ConsoleBuffer`: the input of the console

* `circular_buffer_fifo`: in every run of reads and writes on a buffer of at most `2 ^ 30`
  bytes, what was returned is the front of what was accepted, and what is behind it is in the
  buffer. `circular_buffer_overrun` shows a larger buffer, which returns more than it holds.
* `no_input_lost`: in every run in which no character arrives while a process waits for input
  and the buffer is full, the characters that arrive while a process waits are delivered in
  their order. `input_lost` shows a run in which one of them is dropped.
-/

set_option autoImplicit false

namespace Sos

/-! ### Runs of the buffer -/

inductive BufferAction
  | write (c : UInt8)
  /-- A read of `n` bytes; a negative length is its word. -/
  | read (n : Nat)

/-- What has happened in a run: the characters that were accepted, and those that were
returned. -/
structure BufferHistory where
  accepted : List UInt8
  returned : List UInt8

namespace CircularBuffer

/-- The buffer as `io_init` sets it up, with any size. The size is an `int`. -/
def Initial (cb : CircularBuffer) : Prop :=
  cb.readPosition = 0 ∧ cb.writePosition = 0 ∧ cb.overflow = false ∧ 2 ≤ cb.size ∧
    cb.size < 2 ^ 31

def step (cb : CircularBuffer) : BufferAction → Option CircularBuffer
  | .write c => some (cb.write c).1
  | .read n => some (cb.read n).1

/-- A write accepts the character when it returns 1. A read returns the first bytes of what it
copies. -/
def record (cb : CircularBuffer) (a : BufferAction) (_ : CircularBuffer) (r : BufferHistory) :
    BufferHistory :=
  match a with
  | .write c => if (cb.write c).2 = 1 then { r with accepted := r.accepted ++ [c] } else r
  | .read n => { r with returned := r.returned ++ (List.range (cb.read n).2).map cb.copy }

def machine : Lib.Machine CircularBuffer BufferAction where
  init := Initial
  step := step

/-- The buffer with its history. -/
def recorded : Lib.Machine (CircularBuffer × BufferHistory) BufferAction :=
  machine.withHistory ⟨[], []⟩ record

/-- Reads ask for a length that is not negative. -/
def AsksLength (_ : CircularBuffer × BufferHistory) : BufferAction → Prop
  | .write _ => True
  | .read n => n < 2 ^ 31

instance (x : CircularBuffer × BufferHistory) (a : BufferAction) : Decidable (AsksLength x a) := by
  cases a with
  | write => exact inferInstanceAs (Decidable True)
  | read n => exact inferInstanceAs (Decidable (_ < _))

/-- The accepted characters are the returned ones and the contents. -/
structure Fifo (cb : CircularBuffer) (r : BufferHistory) : Prop where
  ok : cb.Ok
  accepted : r.accepted = r.returned ++ cb.contents

/-- A new buffer has accepted nothing and returned nothing. -/
theorem Initial.fifo {cb : CircularBuffer} (h : cb.Initial) : Fifo cb ⟨[], []⟩ := by
  obtain ⟨hr, hw, hover, htwo, -⟩ := h
  have hvalid : cb.Valid := ⟨by omega, by omega⟩
  have hempty : cb.count = 0 := by
    rw [count_eq hvalid, hr, hw]
    rfl
  refine ⟨⟨hvalid, htwo, ?_⟩, ?_⟩
  · rw [hover, hr, hw, Nat.mod_eq_of_lt (by omega)]
    decide
  · rw [contents, hempty]
    rfl

/-- A character is accepted at the end, or refused by a full buffer. -/
theorem Fifo.write {cb : CircularBuffer} {r : BufferHistory} (h : Fifo cb r) (c : UInt8) :
    Fifo (cb.write c).1 (record cb (.write c) (cb.write c).1 r) := by
  unfold record
  dsimp only
  by_cases hfull : cb.count = cb.size - 1
  · rw [write_full h.ok hfull]
    exact h
  · have hone : (cb.write c).2 = 1 := by rw [write_eq h.ok hfull]
    rw [if_pos hone]
    refine ⟨h.ok.write c, ?_⟩
    rw [contents_write h.ok hfull, h.accepted, List.append_assoc]

/-- What is returned is the front of what is stored. -/
theorem Fifo.read {cb : CircularBuffer} {r : BufferHistory} (h : Fifo cb r) (hfits : cb.Fits)
    (n : Nat) : Fifo (cb.read n).1 (record cb (.read n) (cb.read n).1 r) := by
  have hret : (cb.read n).2 = cb.readable n := by rw [read_eq]
  refine ⟨h.ok.read hfits n, ?_⟩
  unfold record
  dsimp only
  rw [hret, copy_eq h.ok hfits, contents_read h.ok hfits, List.append_assoc,
    List.take_append_drop, h.accepted]

/-- No operation changes the size. -/
theorem step_size {cb cb' : CircularBuffer} {a : BufferAction} (h : cb.step a = some cb') :
    cb'.size = cb.size := by
  -- Neither call touches the field.
  cases a with
  | write c =>
      rw [← Option.some.inj h]
      unfold CircularBuffer.write
      split
      · rfl
      · dsimp only
        split
        · rfl
        · rfl
  | read n =>
      rw [← Option.some.inj h, read_eq]
      dsimp only
      split
      · rfl
      · rfl

end CircularBuffer

open CircularBuffer

/-- In every run on a buffer of at most `2 ^ 30` bytes: the flag says that the buffer is full;
there are `stored` characters in it, which were accepted and have not been returned; a write
is accepted when fewer than `size - 1` are stored, and a read returns the oldest of them. -/
theorem circular_buffer_fifo {cb : CircularBuffer} {r : BufferHistory}
    (h : recorded.Reachable AsksLength (cb, r)) (hsize : cb.size ≤ 2 ^ 30) :
    (cb.overflow = true ↔ (cb.writePosition + 1) % cb.size = cb.readPosition) ∧
    ∃ stored : List UInt8, r.accepted = r.returned ++ stored ∧
      (∀ c, (cb.write c).2 = if stored.length < cb.size - 1 then 1 else 0) ∧
      ∀ n, n < 2 ^ 31 → (cb.read n).2 = min n stored.length ∧
        (List.range (cb.read n).2).map cb.copy = stored.take (cb.read n).2 := by
  have hfifo : cb.Fits → Fifo cb r := by
    refine h.invariant (fun x => x.1.Fits → Fifo x.1 x.2) ?_ ?_
    · rintro ⟨cb₀, r₀⟩ ⟨hinit, hr⟩ -
      obtain rfl : r₀ = ⟨[], []⟩ := hr
      exact Initial.fifo hinit
    · rintro ⟨cb₁, r₁⟩ a ⟨cb₂, r₂⟩ hI - hs hfits
      obtain ⟨hstep, hr⟩ := Lib.Machine.withHistory_step hs
      have hstep : cb₁.step a = some cb₂ := hstep
      have hr : r₂ = CircularBuffer.record cb₁ a cb₂ r₁ := hr
      -- The size never changes.
      have hfits₁ : cb₁.Fits := by
        show cb₁.size ≤ 2 ^ 30
        rw [← step_size hstep]
        exact hfits
      cases a with
      | write c =>
          obtain rfl := Option.some.inj hstep
          exact hr ▸ (hI hfits₁).write c
      | read n =>
          obtain rfl := Option.some.inj hstep
          exact hr ▸ (hI hfits₁).read hfits₁ n
  have hkept := hfifo hsize
  have hret : ∀ n, (cb.read n).2 = cb.readable n := fun n => by rw [read_eq]
  refine ⟨hkept.ok.overflow, cb.contents, hkept.accepted, ?_, ?_⟩
  · intro c
    have hcount := count_lt hkept.ok.valid
    rw [length_contents]
    split
    next hroom => rw [write_eq hkept.ok (by omega)]
    next hfull => rw [write_full hkept.ok (by omega)]
  · intro n hn
    rw [length_contents, hret n, copy_eq hkept.ok hsize, readable_eq hkept.ok.valid hsize hn]
    exact ⟨rfl, rfl⟩

/-- A buffer of a size, with nothing in it. -/
def emptyBuffer (size : Nat) : CircularBuffer where
  readPosition := 0
  writePosition := 0
  buffer := fun _ => 0
  size := size
  overflow := false

/-- Three of four characters fit, and the first two of them are read. -/
theorem circular_buffer_fifo_hello :
    ∃ r : BufferHistory, r.returned = [104, 105] ∧
      ∃ stored : List UInt8, r.accepted = r.returned ++ stored ∧ stored.length = 1 := by
  obtain ⟨⟨cb, r⟩, -, hreach, hreturned, haccepted, hsize⟩ := Lib.Machine.exists_run recorded
    AsksLength (s := (emptyBuffer 4, ⟨[], []⟩))
    ⟨⟨rfl, rfl, rfl, by decide, by decide⟩, rfl⟩
    [.write 104, .write 105, .write 33, .write 33, .read 2]
    (fun x => x.2.returned = [104, 105] ∧ x.2.accepted = [104, 105, 33] ∧ x.1.size ≤ 2 ^ 30)
    (by decide +kernel)
  obtain ⟨-, stored, hstored, -⟩ := circular_buffer_fifo hreach hsize
  refine ⟨r, hreturned, stored, hstored, ?_⟩
  have hlength := congrArg List.length hstored
  rw [haccepted, hreturned] at hlength
  simpa using hlength

/-- In the largest buffer the sum of the size and a position overflows: a read of two bytes
returns two, of which one was never accepted. -/
theorem circular_buffer_overrun :
    ∃ cb r, recorded.Reachable AsksLength (cb, r) ∧ r.accepted.length = 1 ∧
      r.returned = [] ∧ (cb.read 2).2 = 2 := by
  obtain ⟨⟨cb, r⟩, -, hreach, hrun⟩ := Lib.Machine.exists_run recorded AsksLength
    (s := (emptyBuffer (2 ^ 31 - 1), ⟨[], []⟩))
    ⟨⟨rfl, rfl, rfl, by decide, by decide⟩, rfl⟩ [.write 104]
    (fun x => x.2.accepted.length = 1 ∧ x.2.returned = [] ∧ (x.1.read 2).2 = 2)
    (by decide +kernel)
  exact ⟨cb, r, hreach, hrun⟩

/-! ### The input of the console -/

/-- The characters that were accepted, those that were delivered to a reader, and those that
were dropped although a process was waiting for input or the buffer was not full. -/
structure InputHistory where
  accepted : List UInt8
  delivered : List UInt8
  lost : List UInt8

/-- What a step has stored in the memory of a client, as far as its reply says that it is
there. -/
def Io.returned (s' : Io) : List UInt8 :=
  match s'.accesses, s'.outbox with
  | [⟨_, _, some data⟩], [.reply _ _ [n]] => (List.range n.toNat).map data
  | _, _ => []

namespace FileServer

/-- What a step delivers to a reader of the console. -/
def delivered (s' : FileServer) : FileAction → List UInt8
  | .readFile .. => s'.io.returned
  | .serialReceive _ => s'.io.returned
  | _ => []

def recordInput (s : FileServer) (a : FileAction) (s' : FileServer) (r : InputHistory) :
    InputHistory where
  accepted :=
    match a with
    | .serialReceive c => if (s.io.console.write c).2 = 1 then r.accepted ++ [c] else r.accepted
    | _ => r.accepted
  delivered := r.delivered ++ s'.delivered a
  lost :=
    match a with
    | .serialReceive c =>
      if (s.io.console.write c).2 = 0 ∧
          ¬ (s.waiting = none ∧ s.io.console.contents.length = readBufferSize - 1) then
        r.lost ++ [c]
      else r.lost
    | _ => r.lost

/-- The file system with the history of its input. -/
def input (null : Option (List UInt8)) : Lib.Machine (FileServer × InputHistory) FileAction :=
  (machine null).withHistory ⟨[], [], []⟩ recordInput

/-- No character arrives while a process waits for input and the buffer is full. -/
def KeepsInput (s : FileServer) : FileAction → Prop
  | .serialReceive _ => ¬ (s.waiting ≠ none ∧ s.io.console.overflow = true)
  | _ => True

instance (s : FileServer) (a : FileAction) : Decidable (s.KeepsInput a) := by
  match a with
  | .serialReceive _ => exact inferInstanceAs (Decidable (¬ _))
  | .openFile .. | .readFile .. | .writeFile .. | .closeFile .. | .nfsReply .. | .createProcess ..
  | .deleteProcess _ => exact inferInstanceAs (Decidable True)

/-- The accepted characters are the delivered ones and those in the buffer. -/
structure Input (s : FileServer) (r : InputHistory) : Prop where
  ok : s.io.console.Ok
  size : s.io.console.size = readBufferSize
  accepted : r.accepted = r.delivered ++ s.io.console.contents
  lost : r.lost = []

/-- The console's buffer is small enough for its `int` arithmetic. -/
theorem Input.fits {s : FileServer} {r : InputHistory} (h : Input s r) : s.io.console.Fits := by
  show s.io.console.size ≤ 2 ^ 30
  rw [h.size]
  decide

/-- A reader of the console gets the front of the buffer, or nothing when it is empty. -/
theorem readSerial_returned (io : Io) {io' : Io} {e : Nat} (hok : io.console.Ok)
    (hfits : io.console.Fits) (houtbox : io.outbox = []) (haccesses : io.accesses = [])
    (h : io.readSerial e = some io') :
    io'.console.Ok ∧ io'.console.size = io.console.size ∧
      io.console.contents = io'.returned ++ io'.console.contents := by
  obtain ⟨f, -, hconsole, -, hsent⟩ := Io.readSerial_effects h
  have hret : (io.console.read f.toRead).2 = io.console.readable f.toRead := by rw [read_eq]
  have hreturned : io'.returned = (List.range (io.console.readable f.toRead)).map io.console.copy := by
    unfold Io.returned
    cases hsent with
    | inl hnothing =>
        rw [hnothing.2.2, hnothing.2.1, haccesses, houtbox, ← hret, hnothing.1]
        rfl
    | inr hsome =>
        obtain ⟨addr, hreply, hstore⟩ := hsome
        rw [hreply, hstore, haccesses, houtbox, hret]
        rfl
  rw [hconsole, hreturned, copy_eq hok hfits, contents_read hok hfits, List.take_append_drop]
  exact ⟨hok.read hfits f.toRead, (hok.valid.read f.toRead).2, rfl⟩

/-- A step that has nothing to do with the console. -/
theorem Input.same {s s' : FileServer} {r r' : InputHistory} (h : Input s r)
    (hconsole : s'.io.console = s.io.console) (haccepted : r'.accepted = r.accepted)
    (hdelivered : r'.delivered = r.delivered) (hlost : r'.lost = r.lost) : Input s' r' where
  ok := hconsole ▸ h.ok
  size := hconsole ▸ h.size
  accepted := by rw [haccepted, hdelivered, hconsole, h.accepted]
  lost := hlost.trans h.lost

/-- `read_file` reads the console or sends a request, or it replies at once. -/
theorem readFile_cases {io : Io} {x : Io × Reply} {t : ThreadId} {words : List Nat}
    {page : Option IpcPage} (houtbox : io.outbox = []) (haccesses : io.accesses = [])
    (h : io.readFile t words page = some x) :
    (x.1.console = io.console ∧ x.1.returned = []) ∨
      ∃ (io₁ : Io) (e : Nat), io₁.console = io.console ∧ io₁.outbox = [] ∧ io₁.accesses = [] ∧
        io₁.readSerial e = some x.1 := by
  have hnothing : io.returned = [] := by
    unfold Io.returned
    rw [houtbox, haccesses]
  -- Only the console's branch returns input; a file's data comes with its answer.
  unfold Io.readFile at h
  split at h
  · obtain ⟨entry, -, h⟩ := Option.bind_eq_some_iff.mp h
    cases entry with
    | none =>
        cases h
        exact Or.inl ⟨rfl, hnothing⟩
    | some ef =>
        obtain ⟨file, -, h⟩ := Option.bind_eq_some_iff.mp h
        obtain ⟨io₁, hdevice, h⟩ := Option.bind_eq_some_iff.mp h
        cases h
        unfold Io.readDevice at hdevice
        split at hdevice
        · refine Or.inr ⟨_, _, ?_, ?_, ?_, hdevice⟩
          · rfl
          · exact houtbox
          · exact haccesses
        · obtain ⟨f, -, hdevice⟩ := Option.bind_eq_some_iff.mp hdevice
          obtain ⟨file', -, hdevice⟩ := Option.bind_eq_some_iff.mp hdevice
          cases hdevice
          exact Or.inl ⟨rfl, hnothing⟩
  · cases h
    exact Or.inl ⟨rfl, hnothing⟩

/-- A read of the console returns the front of what is stored; a read of a file touches
nothing. -/
theorem Input.readFile {s s' : FileServer} {r : InputHistory} (h : Input s r) {p : Nat}
    {words : List Nat} {page : Option IpcPage} {x : Io × Reply}
    (hx : s.io.cleared.readFile (threadId p) words page = some x) (hs' : s'.io = x.1) :
    Input s' (recordInput s (.readFile p words page) s' r) := by
  have hdelivered : s'.delivered (.readFile p words page) = x.1.returned := by
    show s'.io.returned = _
    rw [hs']
  cases readFile_cases rfl rfl hx with
  -- Nothing is taken from the buffer.
  | inl hsame =>
      refine h.same (hs' ▸ hsame.1) rfl ?_ rfl
      show r.delivered ++ s'.delivered _ = r.delivered
      rw [hdelivered, hsame.2, List.append_nil]
  -- What is returned is taken from the front of the buffer.
  | inr hserial =>
      obtain ⟨io₁, e, hconsole, houtbox, haccesses, hread⟩ := hserial
      have hconsole : io₁.console = s.io.console := hconsole
      obtain ⟨hok, hsize, hcontents⟩ := readSerial_returned io₁ (hconsole ▸ h.ok)
        (hconsole ▸ h.fits) houtbox haccesses hread
      refine ⟨hs' ▸ hok, by rw [hs', hsize, hconsole, h.size], ?_, h.lost⟩
      show r.accepted = r.delivered ++ s'.delivered _ ++ _
      rw [hdelivered, hs', List.append_assoc, ← hcontents, hconsole, h.accepted]

/-- A write accepts the character or finds the buffer full. -/
theorem write_cases {cb : CircularBuffer} (h : cb.Ok) (c : UInt8) :
    (cb.overflow = false ∧ (cb.write c).2 = 1 ∧ (cb.write c).1.contents = cb.contents ++ [c]) ∨
      (cb.overflow = true ∧ cb.write c = (cb, 0)) := by
  by_cases hfull : cb.count = cb.size - 1
  · exact Or.inr ⟨h.overflow_iff.mpr hfull, write_full h hfull c⟩
  · refine Or.inl ⟨?_, ?_, contents_write h hfull c⟩
    · rw [← Bool.not_eq_true, h.overflow_iff]
      exact hfull
    · rw [write_eq h hfull]

/-- A character that arrives goes into the buffer, and then the waiting reader may be served. -/
theorem Input.serialReceive {s s' : FileServer} {r : InputHistory} (h : Input s r) {c : UInt8}
    (hkeeps : s.KeepsInput (.serialReceive c)) {io : Io}
    (hio : s.io.cleared.serialReceiveHandler c = some io) (hs' : s'.io = io) :
    Input s' (recordInput s (.serialReceive c) s' r) := by
  have hdelivered : s'.delivered (.serialReceive c) = io.returned := by
    show s'.io.returned = _
    rw [hs']
  -- The state between the write and the read.
  have hwritten : ∀ io₁ : Io, io₁.console = (s.io.console.write c).1 →
      io₁.console.Ok ∧ io₁.console.size = readBufferSize ∧
        (recordInput s (.serialReceive c) s' r).accepted = r.delivered ++ io₁.console.contents ∧
        (recordInput s (.serialReceive c) s' r).lost = [] := by
    intro io₁ hconsole
    rw [hconsole, (h.ok.valid.write c).2]
    refine ⟨h.ok.write c, h.size, ?_⟩
    unfold recordInput
    dsimp only
    cases write_cases h.ok c with
    | inl hroom =>
        have hone : ¬ (s.io.console.write c).2 = 0 := by
          rw [hroom.2.1]
          decide
        rw [if_pos hroom.2.1, if_neg (fun hno => hone hno.1), hroom.2.2, h.accepted,
          List.append_assoc]
        exact ⟨rfl, h.lost⟩
    | inr hfull =>
        have hnobody : s.waiting = none :=
          Classical.not_not.mp fun hwaiting => hkeeps ⟨hwaiting, hfull.1⟩
        have hlength : s.io.console.contents.length = readBufferSize - 1 := by
          rw [CircularBuffer.length_contents, h.ok.overflow_iff.mp hfull.1, h.size]
        rw [hfull.2, if_neg Nat.zero_ne_one, if_neg (fun hno => hno.2 ⟨hnobody, hlength⟩),
          h.accepted]
        exact ⟨rfl, h.lost⟩
  obtain ⟨file, -, hio⟩ := Option.bind_eq_some_iff.mp hio
  dsimp only at hio
  obtain ⟨reading, -, hio⟩ := Option.bind_eq_some_iff.mp hio
  -- Nobody is served.
  have hsame : ({ s.io.cleared with console := (s.io.console.write c).1 } : Io) = io →
      Input s' (recordInput s (.serialReceive c) s' r) := by
    intro heq
    obtain ⟨hok, hsize, haccepted, hlost⟩ := hwritten io (by rw [← heq])
    have hnothing : s'.delivered (.serialReceive c) = [] := by
      rw [hdelivered, ← heq]
      rfl
    refine ⟨hs' ▸ hok, hs' ▸ hsize, ?_, hlost⟩
    show (recordInput s (.serialReceive c) s' r).accepted = r.delivered ++ s'.delivered _ ++ _
    rw [hnothing, List.append_nil, hs', haccepted]
  cases reading with
  | none => exact hsame (Option.some.inj hio)
  | some e =>
      dsimp only at hio
      split at hio
      · obtain ⟨hok, hsize, haccepted, hlost⟩ :=
          hwritten { s.io.cleared with console := (s.io.console.write c).1 } rfl
        obtain ⟨hok', hsize', hcontents⟩ := readSerial_returned
          { s.io.cleared with console := (s.io.console.write c).1 } hok (by
            show _ ≤ _
            rw [hsize]
            decide) rfl rfl hio
        refine ⟨hs' ▸ hok', by rw [hs', hsize', hsize], ?_, hlost⟩
        show (recordInput s (.serialReceive c) s' r).accepted = r.delivered ++ s'.delivered _ ++ _
        rw [hdelivered, hs', List.append_assoc, ← hcontents, haccepted]
      · exact hsame (Option.some.inj hio)

/-- Every step keeps what has been typed in order, by cases on the action. -/
theorem Input.step {null : Option (List UInt8)} {s s' : FileServer} {r : InputHistory}
    {a : FileAction} (h : Input s r) (hkeeps : s.KeepsInput a)
    (hs : (machine null).step s a = some s') : Input s' (recordInput s a s' r) := by
  obtain ⟨-, hexec⟩ := step_eq_some hs
  -- The actions that deliver nothing.
  have hsame : s'.io.console = s.io.console → s'.delivered a = [] →
      (∀ c, a ≠ .serialReceive c) → Input s' (recordInput s a s' r) := by
    intro hconsole hnothing hnot
    have hrecord : recordInput s a s' r = ⟨r.accepted, r.delivered ++ s'.delivered a, r.lost⟩ := by
      unfold recordInput
      cases a with
      | serialReceive c => exact absurd rfl (hnot c)
      | _ => rfl
    rw [hrecord, hnothing, List.append_nil]
    exact h.same hconsole rfl rfl rfl
  cases a with
  | openFile p words page =>
      obtain ⟨io, hio, rfl⟩ := Option.map_eq_some_iff.mp hexec
      exact hsame (Io.openFile_effects hio).console rfl nofun
  | readFile p words page =>
      obtain ⟨x, hx, rfl⟩ := Option.map_eq_some_iff.mp hexec
      exact h.readFile hx rfl
  | writeFile p words page allocated =>
      obtain ⟨x, hx, rfl⟩ := Option.map_eq_some_iff.mp hexec
      exact hsame (Io.writeFile_effects hx).console rfl nofun
  | closeFile p words =>
      obtain ⟨x, hx, rfl⟩ := Option.map_eq_some_iff.mp hexec
      exact hsame (Io.closeFile_effects hx).console rfl nofun
  | nfsReply k reply =>
      obtain ⟨io, hio, rfl⟩ := Option.map_eq_some_iff.mp hexec
      exact hsame (Io.nfsReply_effects hio).2.1 rfl nofun
  | serialReceive c =>
      obtain ⟨io, hio, rfl⟩ := Option.map_eq_some_iff.mp hexec
      exact h.serialReceive hkeeps hio rfl
  | createProcess p page heap =>
      obtain ⟨found, -, hexec⟩ := Option.bind_eq_some_iff.mp hexec
      cases found with
      | error =>
          cases hexec
          exact hsame rfl rfl nofun
      | ok name =>
          cases hexec
          exact hsame rfl rfl nofun
  | deleteProcess p =>
      obtain ⟨io, hio, rfl⟩ := Option.map_eq_some_iff.mp hexec
      exact hsame (Io.closeFiles_effects hio).console rfl nofun

/-- After booting nothing has been typed. -/
theorem boot_input {rootThread : ThreadId} {heap : FileTableEntry} {s : FileServer}
    (h : boot rootThread heap = some s) : Input s ⟨[], [], []⟩ := by
  obtain rfl := Option.some.inj h
  have hinitial : CircularBuffer.Initial
      { readPosition := 0, writePosition := 0, buffer := fun _ => 0, size := readBufferSize,
        overflow := false } := ⟨rfl, rfl, rfl, by decide, by decide⟩
  exact ⟨hinitial.fifo.ok, rfl, hinitial.fifo.accepted, rfl⟩

/-! ### A long line -/

/-- A process waits for input in entry `e`, and the buffer holds `n` characters. -/
structure Typing (e n : Nat) (s : FileServer) : Prop where
  waits : ∃ file f addr, s.io.getFileForSerial = some file ∧
    s.io.getReadingFileHandle file = some (some e) ∧ s.io.entries e = some f ∧
    f.clientBuffer = some addr
  ok : s.io.console.Ok
  size : s.io.console.size = readBufferSize
  count : s.io.console.count = n

/-- While the run types, the same descriptor waits. -/
theorem Typing.waiting {e n : Nat} {s : FileServer} (h : Typing e n s) : s.waiting = some e := by
  obtain ⟨file, f, addr, hfile, hreading, -⟩ := h.waits
  rw [FileServer.waiting, hfile, Option.bind_some, hreading]
  rfl

/-- A character that is not a newline goes into the buffer, and the process goes on waiting. -/
theorem Typing.step {null : Option (List UInt8)} {e n : Nat} {s : FileServer} {r : InputHistory}
    (h : Typing e n s) (hn : n < readBufferSize - 1) (hlost : r.lost = []) :
    ∃ s' r', (input null).step (s, r) (.serialReceive 97) = some (s', r') ∧ Typing e (n + 1) s' ∧
      r'.lost = [] := by
  have hroom : s.io.console.count ≠ s.io.console.size - 1 := by
    rw [h.count, h.size]
    exact Nat.ne_of_lt hn
  obtain ⟨console, hwrite⟩ : ∃ console, s.io.console.write 97 = (console, 1) :=
    ⟨_, write_eq h.ok hroom 97⟩
  have hok := h.ok.write 97
  have hsize := (h.ok.valid.write 97).2.trans h.size
  have hcontents := contents_write h.ok hroom 97
  rw [hwrite] at hok hsize hcontents
  obtain ⟨file, f, addr, hfile, hreading, hentry, hbuffer⟩ := h.waits
  let io : Io := { s.io.cleared with console := console }
  -- Neither a newline nor a full buffer: `read_serial` is not called.
  have hexec : s.io.cleared.serialReceiveHandler 97 = some io := by
    have hfile : s.io.cleared.getFileForSerial = some file := hfile
    have hreading : io.getReadingFileHandle file = some (some e) := hreading
    have hwrite : s.io.cleared.console.write 97 = (console, 1) := hwrite
    unfold Io.serialReceiveHandler
    rw [hfile, Option.bind_eq_bind, Option.bind_some, hwrite]
    show Option.bind (io.getReadingFileHandle file) _ = _
    rw [hreading, Option.bind_some]
    rfl
  have hstep : (machine null).step s (.serialReceive 97) = some { s with io := io } := by
    show (s.io.cleared.serialReceiveHandler 97).map _ = _
    rw [hexec]
    rfl
  refine ⟨{ s with io := io }, recordInput s (.serialReceive 97) { s with io := io } r, ?_,
    ⟨⟨file, f, addr, hfile, hreading, hentry, hbuffer⟩, hok, hsize, ?_⟩, ?_⟩
  · show ((machine null).step s _).map _ = _
    rw [hstep]
    rfl
  · show console.count = n + 1
    rw [← length_contents, hcontents, List.length_append, length_contents, h.count]
    rfl
  · show (if (s.io.console.write 97).2 = 0 ∧ _ then _ else r.lost) = []
    rw [hwrite, if_neg (fun hno => Nat.one_ne_zero hno.1), hlost]

/-- A line of any length that fits into the buffer. -/
theorem Typing.path {null : Option (List UInt8)} {e : Nat} {s : FileServer} {r : InputHistory}
    (h : Typing e 0 s) (hlost : r.lost = []) (n : Nat) (hn : n ≤ readBufferSize - 1) :
    ∃ s' r', (input null).Path Lib.Machine.anyStep (s, r) (s', r') ∧ Typing e n s' ∧
      r'.lost = [] := by
  induction n with
  | zero => exact ⟨s, r, .refl _, h, hlost⟩
  | succ n ih =>
      obtain ⟨s₁, r₁, hpath, htyping, hlost₁⟩ := ih (Nat.le_of_succ_le hn)
      obtain ⟨s₂, r₂, hstep, htyping₂, hlost₂⟩ := htyping.step hn hlost₁
      exact ⟨s₂, r₂, hpath.step trivial hstep, htyping₂, hlost₂⟩

/-- The next character is dropped, and then the process is served. -/
theorem Typing.full {null : Option (List UInt8)} {e : Nat} {s : FileServer} {r : InputHistory}
    (h : Typing e (readBufferSize - 1) s) (c : UInt8) :
    ∃ s' r', (input null).step (s, r) (.serialReceive c) = some (s', r') ∧
      r'.lost = r.lost ++ [c] := by
  have hfull : s.io.console.count = s.io.console.size - 1 := by rw [h.count, h.size]
  have hwrite : s.io.console.write c = (s.io.console, 0) := write_full h.ok hfull c
  obtain ⟨file, f, addr, hfile, hreading, hentry, hbuffer⟩ := h.waits
  have hread : ∃ io', s.io.cleared.readSerial e = some io' := by
    have hentry : s.io.cleared.entries e = some f := hentry
    unfold Io.readSerial
    rw [hentry, Option.bind_eq_bind, Option.bind_some]
    dsimp only
    split
    · rw [hbuffer]
      exact ⟨_, rfl⟩
    · exact ⟨_, rfl⟩
  obtain ⟨io', hread⟩ := hread
  -- The buffer is full, and `read_serial` is called for the waiting process.
  have hexec : s.io.cleared.serialReceiveHandler c = some io' := by
    have hfile : s.io.cleared.getFileForSerial = some file := hfile
    have hreading : s.io.cleared.getReadingFileHandle file = some (some e) := hreading
    have hwrite : s.io.cleared.console.write c = (s.io.cleared.console, 0) := hwrite
    unfold Io.serialReceiveHandler
    rw [hfile, Option.bind_eq_bind, Option.bind_some, hwrite]
    show Option.bind (s.io.cleared.getReadingFileHandle file) _ = _
    rw [hreading, Option.bind_some]
    dsimp only
    rw [if_pos (Or.inr rfl)]
    exact hread
  have hstep : (machine null).step s (.serialReceive c) = some { s with io := io' } := by
    show (s.io.cleared.serialReceiveHandler c).map _ = _
    rw [hexec]
    rfl
  refine ⟨{ s with io := io' }, recordInput s (.serialReceive c) { s with io := io' } r, ?_, ?_⟩
  · show ((machine null).step s _).map _ = _
    rw [hstep]
    rfl
  · have hwaiting : s.waiting ≠ none := by
      rw [h.waiting]
      exact Option.some_ne_none e
    show (if (s.io.console.write c).2 = 0 ∧ _ then _ else r.lost) = _
    rw [if_pos ⟨by rw [hwrite], fun hno => hwaiting hno.1⟩]

/-- The first process reads from the console. -/
def readsConsole : List FileAction :=
  startup ++ [.openFile 1 [oRdonly] (some (namedPage "console".toUTF8.toList)),
    .readFile 1 [1, 80] (some (namedPage []))]

end FileServer

open FileServer

/-- In every run in which no character arrives while a process waits and the buffer is full, no
character is dropped, except when nobody waits and the buffer is full. What was accepted was
delivered in its order, or it is in the buffer, of which the next read delivers the front. -/
theorem no_input_lost {null : Option (List UInt8)} {s : FileServer} {r : InputHistory}
    (h : (input null).Reachable (Lib.Machine.onState KeepsInput) (s, r)) :
    r.lost = [] ∧ r.accepted = r.delivered ++ s.io.console.contents ∧
      ∀ n, 0 < n → s.io.console.contents ≠ [] → 0 < (s.io.console.read n).2 := by
  -- The invariant, from the step lemma by induction on the run.
  have hinput : Input s r := by
    refine h.invariant (fun x => Input x.1 x.2) ?_ ?_
    · intro x hinit
      obtain ⟨⟨rootThread, heap, hboot⟩, hr⟩ := hinit
      rw [hr]
      exact boot_input hboot
    · intro x a x' hI hok hs
      obtain ⟨hstep, hr⟩ := Lib.Machine.withHistory_step hs
      rw [hr]
      exact hI.step hok hstep
  refine ⟨hinput.lost, hinput.accepted, ?_⟩
  intro n hn hcontents
  -- With something stored, and a length that is not zero, a read returns something.
  have hcount : 0 < s.io.console.count := by
    rw [← CircularBuffer.length_contents]
    exact List.length_pos_of_ne_nil hcontents
  have hsize := hinput.ok.two_le
  rw [CircularBuffer.read_eq]
  dsimp only
  unfold CircularBuffer.readable
  rw [CircularBuffer.stored_eq hinput.ok.valid hinput.fits]
  show 0 < min s.io.console.count _
  split
  · omega
  · omega

/-- A line is read by the first process, and the next character stays in the buffer. -/
theorem no_input_lost_line : ∃ (s : FileServer) (r : InputHistory), r.delivered = [104, 105, 10] ∧
    r.lost = [] ∧ r.accepted = r.delivered ++ s.io.console.contents := by
  obtain ⟨⟨s, r⟩, -, hreach, hdelivered⟩ := Lib.Machine.exists_run (input none)
    (Lib.Machine.onState KeepsInput)
    (show (input none).init (booted, ⟨[], [], []⟩) from ⟨booted_init, rfl⟩)
    (readsConsole ++ [.serialReceive 104, .serialReceive 105, .serialReceive 10,
      .serialReceive 33]) (fun x => x.2.delivered = [104, 105, 10]) (by decide +kernel)
  exact ⟨s, r, hdelivered, (no_input_lost hreach).1, (no_input_lost hreach).2.1⟩

/-- A line of 4096 characters, for which a process waits: the last one is dropped. -/
theorem input_lost : ∃ (s : FileServer) (r : InputHistory),
    (input none).Reachable Lib.Machine.anyStep (s, r) ∧ r.lost = [97] := by
  -- A process opens the console and waits in a read.
  obtain ⟨⟨s, r⟩, -, hreach, hconsole, hlost, hwaits⟩ := Lib.Machine.exists_run (input none)
    Lib.Machine.anyStep
    (show (input none).init (booted, ⟨[], [], []⟩) from ⟨booted_init, rfl⟩) readsConsole
    (fun x => (x.1.io.console.readPosition = 0 ∧ x.1.io.console.writePosition = 0 ∧
        x.1.io.console.overflow = false ∧ x.1.io.console.size = readBufferSize) ∧
      x.2.lost = [] ∧ x.1.io.getFileForSerial = some 0 ∧
      x.1.io.getReadingFileHandle 0 = some (some 3) ∧
      ((x.1.io.entries 3).bind (·.clientBuffer)).isSome)
    (by decide +kernel)
  obtain ⟨hread, hwrite, hover, hsize⟩ := hconsole
  obtain ⟨hfile, hreading, hbuffer⟩ := hwaits
  obtain ⟨addr, hbuffer⟩ := Option.isSome_iff_exists.mp hbuffer
  obtain ⟨f, hentry, hbuffer⟩ := Option.bind_eq_some_iff.mp hbuffer
  have hinitial : CircularBuffer.Initial s.io.console :=
    ⟨hread, hwrite, hover, hsize ▸ by decide, hsize ▸ by decide⟩
  -- From there on the console types.
  have htyping : Typing 3 0 s :=
    ⟨⟨0, f, addr, hfile, hreading, hentry, hbuffer⟩, hinitial.fifo.ok, hsize, by
      rw [← length_contents, ← List.nil_append s.io.console.contents, ← hinitial.fifo.accepted]
      rfl⟩
  obtain ⟨s₁, r₁, hpath, hfull, hlost₁⟩ := htyping.path hlost (readBufferSize - 1) (Nat.le_refl _)
  -- One more character than fits is lost.
  obtain ⟨s₂, r₂, hstep, hlost₂⟩ := hfull.full 97
  rw [hlost₁] at hlost₂
  exact ⟨s₂, r₂, (hreach.path hpath).path (.step (.refl _) trivial hstep), hlost₂⟩

end Sos
