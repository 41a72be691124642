import Sos.Files.Reachable

/-!
# `Sos.Properties.Console`: one process reads the console

`console_read_exclusive`: in every state that is reached while the names of executables fit
into the process table, the reader of the console is the process with descriptors for
reading it, a second process is refused, and the console can be had again when the reader
has closed its last such descriptor or is deleted.
-/

set_option autoImplicit false

namespace Sos

namespace FileServer

/-- The reader of the console. -/
def reader (s : FileServer) : ThreadId := (s.tables.files consoleFile).reader

/-- A process that is created has a name shorter than `N_NAME`, so that its thread id stays. -/
def ShortName (_ : FileServer) : FileAction → Prop
  | .createProcess _ page _ => ∀ buf ∈ page, (cString buf.bytes nName).length < nName
  | _ => True

instance (s : FileServer) (a : FileAction) : Decidable (s.ShortName a) := by
  match a with
  | .createProcess .. => exact inferInstanceAs (Decidable (∀ buf ∈ _, _))
  | .openFile .. | .readFile .. | .writeFile .. | .closeFile .. | .nfsReply .. | .serialReceive _
  | .deleteProcess _ => exact inferInstanceAs (Decidable True)

/-- A mode word that asks for reading. -/
def AsksRead (word : Nat) : Prop := word % 2 ^ 8 = oRdonly ∨ word % 2 ^ 8 = oRdwr

/-- The IPC page holds the name of the console. -/
def NamesConsole (page : IpcPage) : Prop := cString page.bytes maxPathLength = consoleName

/-- What the exclusive use of the console means in a state. -/
structure ConsoleExclusive (null : Option (List UInt8)) (s : FileServer) : Prop where
  /-- The reader is nobody, or an active process. -/
  reader : s.reader = nilthread ∨ ∃ p, 1 ≤ p ∧ s.isActive p = true ∧ s.reader = s.tid p
  /-- The reader is the process that has a descriptor for reading. -/
  holds : ∀ p, 1 ≤ p → s.isActive p = true →
    ((∃ fd, s.tables.ReadsConsole p fd) ↔ s.reader = s.tid p)
  /-- No two processes can read. -/
  unique : ∀ p q fd fd', 1 ≤ p → 1 ≤ q → s.isActive p = true → s.isActive q = true →
    s.tables.ReadsConsole p fd → s.tables.ReadsConsole q fd' → p = q
  /-- Another process that asks for reading is refused. -/
  refused : ∀ p q word page s', 1 ≤ q → s.isActive q = true → s.reader = s.tid q → p ≠ q →
    AsksRead word → NamesConsole page →
    (machine null).step s (.openFile p [word] (some page)) = some s' →
    s'.tables = s.tables ∧ s'.io.outbox = [.reply (threadId p) sosOpen [-1]]
  /-- Opening a file for writing does not change the reader. -/
  writers : ∀ p words page s', (∀ word ∈ words, ¬ AsksRead word) →
    (machine null).step s (.openFile p words page) = some s' → s'.reader = s.reader
  /-- Closing the last descriptor for reading frees the console. -/
  closed : ∀ p fd s', s.tables.ReadsConsole p fd → (∀ fd', s.tables.ReadsConsole p fd' → fd' = fd) →
    (machine null).step s (.closeFile p [fd]) = some s' → s'.reader = nilthread
  /-- So does the deletion of the reader. -/
  deleted : ∀ p s', s.reader = s.tid p →
    (machine null).step s (.deleteProcess p) = some s' → s'.reader = nilthread
  /-- A process that asks for reading gets the console when it is free, or its own. -/
  acquired : ∀ p word page fd, s.Live p → word < 2 ^ 32 → AsksRead word → NamesConsole page →
    s.reader = nilthread ∨ s.reader = s.tid p → s.io.findFreeFileSlot p = some fd →
    ∃ s', (machine null).step s (.openFile p [word] (some page)) = some s' ∧
      s'.reader = s'.tid p ∧ s'.tables.ReadsConsole p fd ∧
      s'.io.outbox = [.reply (threadId p) sosOpen [fd]]

/-! ### The thread ids of processes -/

/-- Every process has the thread id of its slot. -/
def OwnTids (s : FileServer) : Prop := ∀ p, 1 ≤ p → s.isActive p = true → s.tid p = threadId p

/-- No step that keeps names short overwrites a thread id. -/
theorem OwnTids.step {null : Option (List UInt8)} {s s' : FileServer} {a : FileAction}
    (h : s.OwnTids) (hok : s.ShortName a) (hs : (machine null).step s a = some s') :
    s'.OwnTids := by
  obtain ⟨-, hs⟩ := step_eq_some hs
  intro p hpos hp
  cases a with
  | openFile =>
      obtain ⟨io, -, rfl⟩ := Option.map_eq_some_iff.mp hs
      exact h p hpos hp
  | readFile =>
      obtain ⟨r, -, rfl⟩ := Option.map_eq_some_iff.mp hs
      exact h p hpos hp
  | writeFile =>
      obtain ⟨r, -, rfl⟩ := Option.map_eq_some_iff.mp hs
      exact h p hpos hp
  | closeFile =>
      obtain ⟨r, -, rfl⟩ := Option.map_eq_some_iff.mp hs
      exact h p hpos hp
  | nfsReply =>
      obtain ⟨io, -, rfl⟩ := Option.map_eq_some_iff.mp hs
      exact h p hpos hp
  | serialReceive =>
      obtain ⟨io, -, rfl⟩ := Option.map_eq_some_iff.mp hs
      exact h p hpos hp
  | createProcess q page heap =>
      obtain ⟨found, hfound, hs⟩ := Option.bind_eq_some_iff.mp hs
      cases found with
      | error =>
          cases hs
          exact h p hpos hp
      | ok name =>
          cases hs
          by_cases hq : p = q
          · subst hq
            show Function.update s.tid p (newTid p name) p = threadId p
            rw [Function.update_self, newTid, if_pos]
            -- The name that was found is the one in the IPC page.
            cases page with
            | none => cases hfound
            | some buf =>
                obtain ⟨index, -, hfound⟩ := Option.bind_eq_some_iff.mp hfound
                cases index with
                | none => cases hfound
                | some index =>
                    obtain ⟨file, -, hfound⟩ := Option.bind_eq_some_iff.mp hfound
                    dsimp only at hfound
                    split at hfound
                    · cases hfound
                    · split at hfound
                      · cases hfound
                      · cases hfound
                        exact hok buf rfl
          · show Function.update s.tid q (newTid q name) p = threadId p
            have hp' : Function.update s.isActive q true p = true := hp
            rw [Function.update_of_ne hq] at hp' ⊢
            exact h p hpos hp'
  | deleteProcess q =>
      obtain ⟨io, -, rfl⟩ := Option.map_eq_some_iff.mp hs
      have hp' : Function.update s.isActive q false p = true := hp
      by_cases hq : p = q
      · subst hq
        rw [Function.update_self] at hp'
        cases hp'
      · rw [Function.update_of_ne hq] at hp'
        exact h p hpos hp'

/-- By induction on the run. -/
theorem OwnTids.reachable {null : Option (List UInt8)} {s : FileServer}
    (h : (machine null).Reachable ShortName s) : s.OwnTids := by
  refine h.invariant OwnTids ?_ fun _ _ _ hI hok hs => hI.step hok hs
  rintro s₀ ⟨rootThread, heap, hboot⟩ p hpos hp
  have hzero := (boot_booted hboot).isActive p
  rw [show s₀.tables.isActive p = s₀.isActive p from rfl, hp] at hzero
  have hp0 : p = 0 := by simpa using hzero.symm
  subst hp0
  exact absurd hpos (by decide)

/-! ### Opening the console -/

/-- The console is the first file of the cache. -/
theorem findFile_console {null : Option (List UInt8)} {s : FileServer} (h : s.tables.FilesOk) :
    s.io.findFile null consoleName = some (some 0) := by
  obtain ⟨rest, hcache⟩ : ∃ rest, s.io.fileCache = consoleFile :: rest := by
    have hhead : s.io.fileCache.head? = some consoleFile := h.head
    cases hc : s.io.fileCache with
    | nil =>
        rw [hc] at hhead
        cases hhead
    | cons file rest =>
        rw [hc, List.head?_cons, Option.some.injEq] at hhead
        exact ⟨rest, by rw [hhead]⟩
  have hname : (s.io.files consoleFile).filename = consoleName := h.filename
  unfold Io.findFile
  rw [hcache, List.findIdx?_cons]
  simp [hname]

/-- `open_file` for the console. -/
theorem openFile_console {null : Option (List UInt8)} {s : FileServer} {p word : Nat}
    {page : IpcPage} (h : s.tables.FilesOk) (hname : NamesConsole page)
    (hmode : AsksRead word) :
    s.io.openFile null (threadId p) [word] (some page) =
      some (s.io.openSerial consoleFile (threadId p) (word % 2 ^ 8)) := by
  -- A mode with the right to read is one of the three.
  have hvalid : ¬ (word % 2 ^ 8 ≠ oRdonly ∧ word % 2 ^ 8 ≠ oRdwr ∧ word % 2 ^ 8 ≠ oWronly) := by
    rintro ⟨hr, hw, -⟩
    rcases hmode with hm | hm
    · exact hr hm
    · exact hw hm
  -- The console is the first file of the cache.
  have hzero : s.io.fileCache[0]? = some consoleFile := by
    rw [← List.head?_eq_getElem?]
    exact h.head
  have hdevice : (s.io.files consoleFile).device = .serial := h.serial
  unfold Io.openFile
  dsimp only
  rw [if_neg hvalid, show cString page.bytes maxPathLength = consoleName from hname,
    findFile_console h]
  show (s.io.fileCache[0]?).bind _ = _
  rw [hzero]
  show some (s.io.openDevice consoleFile (threadId p) (word % 2 ^ 8)) = _
  rw [Io.openDevice, hdevice]

/-- Opening the console to read it does what `open_serial` does. -/
theorem step_openFile {null : Option (List UInt8)} {s : FileServer} {p word : Nat}
    {page : IpcPage} (h : s.tables.FilesOk) (hname : NamesConsole page) (hmode : AsksRead word)
    (hen : s.Enabled (.openFile p [word] (some page))) :
    (machine null).step s (.openFile p [word] (some page)) =
      some { s with io := s.io.cleared.openSerial consoleFile (threadId p) (word % 2 ^ 8) } := by
  have hcleared : ({ s with io := s.io.cleared } : FileServer).tables.FilesOk := h
  show (if s.Enabled _ then _ else _) = _
  rw [if_pos hen]
  show (s.io.cleared.openFile null (threadId p) [word] (some page)).map _ = _
  rw [openFile_console hcleared hname hmode]
  rfl

/-! ### The reader in a run -/

variable {null : Option (List UInt8)} {s : FileServer}

/-- `close_file` of a valid descriptor clears its slot. -/
theorem closeFile_clears {io : Io} {r : Io × Reply} {p fd e : Nat}
    (h : io.closeFile (threadId p) [fd] = some r)
    (hvalid : io.isValidFiledescriptor (threadId p) fd = some e) :
    r.1.filetable p fd = none := by
  unfold Io.closeFile at h
  dsimp only at h
  rw [hvalid] at h
  obtain ⟨f, -, h⟩ := Option.bind_eq_some_iff.mp h
  obtain ⟨file, -, h⟩ := Option.bind_eq_some_iff.mp h
  obtain ⟨io₁, -, h⟩ := Option.bind_eq_some_iff.mp h
  obtain ⟨io₂, -, h⟩ := Option.bind_eq_some_iff.mp h
  cases h
  rw [tid2pid_threadId]
  show Function.update io₂.filetable p (Function.update (io₂.filetable p) fd none) p fd = none
  rw [Function.update_self, Function.update_self]

/-- The console is free when the only descriptor for reading it is closed. -/
theorem closed_reader {c c' : FileTables} {p fd : Nat} (h : c.Wf) (hp : c.Live p)
    (ho : c.Outcome (.closeFile p [fd]) c') (hclear : c'.filetable p fd = none)
    (hreads : c.ReadsConsole p fd) (hlast : ∀ fd', c.ReadsConsole p fd' → fd' = fd) :
    (c'.files consoleFile).reader = nilthread := by
  obtain ⟨e, f, hslot, hf, hfile, hread⟩ := hreads
  -- The slot is empty, so that the close has not been refused.
  cases ho with
  | same => exact absurd (hclear.symm.trans hslot.2) nofun
  | buffers => exact absurd (hclear.symm.trans hslot.2) nofun
  | asked => exact absurd (hclear.symm.trans hslot.2) nofun
  -- A close that keeps the reader has found another slot that reads.
  | @closed _ _ e₁ file₁ f₁ hslot₁ hf₁ hfile₁ hkept =>
      have he : e₁ = e := Option.some.inj (hslot₁.2.symm.trans hslot.2)
      subst he
      have hff : f₁ = f := Option.some.inj (hf₁.symm.trans hf)
      subst hff
      have hfiles : file₁ = consoleFile := Option.some.inj (hfile₁.symm.trans hfile)
      subst hfiles
      obtain ⟨fd', hne, hreads'⟩ := h.other_reader hp hslot hf hread hkept
      exact absurd (hlast fd' hreads') hne
  | @released _ _ e₁ file₁ f₁ hslot₁ hf₁ hfile₁ =>
      have he : e₁ = e := Option.some.inj (hslot₁.2.symm.trans hslot.2)
      subst he
      have hff : f₁ = f := Option.some.inj (hf₁.symm.trans hf)
      subst hff
      have hfiles : file₁ = consoleFile := Option.some.inj (hfile₁.symm.trans hfile)
      subst hfiles
      exact FileTables.setReader_reader ..

/-- `open_serial` for reading, when nobody else reads. -/
theorem openSerial_acquires (io : Io) {p fd word : Nat} (hmode : AsksRead word)
    (hreader : (io.files consoleFile).reader = nilthread ∨
      (io.files consoleFile).reader = threadId p) (hfree : io.findFreeFileSlot p = some fd) :
    io.openSerial consoleFile (threadId p) (word % 2 ^ 8) =
      let (io', e) := (io.updateFile consoleFile fun f => { f with reader := threadId p })
        |>.createFileDescriptor consoleFile (threadId p) (word % 2 ^ 8)
      (io'.setFiletable p fd (some e)).sendIpcReply (threadId p) sosOpen [fd] := by
  have hgranted : ¬ ((word % 2 ^ 8 = oRdonly ∨ word % 2 ^ 8 = oRdwr) ∧
      ¬ ((io.files consoleFile).reader = nilthread ∨
        (io.files consoleFile).reader = threadId p)) := fun h => h.2 hreader
  unfold Io.openSerial
  rw [tid2pid_threadId, hfree]
  dsimp only
  have hread : word % 2 ^ 8 = oRdonly ∨ word % 2 ^ 8 = oRdwr := hmode
  rw [if_neg hgranted, if_pos hread]

/-- `open_serial` refuses another process than the reader. -/
theorem openSerial_refused (io : Io) {p q word : Nat} (hreader : (io.files consoleFile).reader =
    threadId q) (hne : p ≠ q) (hmode : AsksRead word) :
    io.openSerial consoleFile (threadId p) (word % 2 ^ 8) =
      io.sendIpcReply (threadId p) sosOpen [-1] := by
  unfold Io.openSerial
  split
  · rfl
  · dsimp only
    rw [if_pos]
    refine ⟨hmode, ?_⟩
    rw [hreader]
    rintro (hnil | hown)
    · exact threadId_ne_nilthread q hnil
    · exact hne (threadId_inj hown).symm

/-- Without a request for reading, opening keeps the reader. -/
theorem openFile_keeps_reader {p : Nat} {words : List Nat} {page : Option IpcPage}
    {c c' : FileTables} (h : c.FilesOk) (ho : c.Outcome (.openFile p words page) c')
    (hwrite : ∀ word ∈ words, ¬ AsksRead word) :
    (c'.files consoleFile).reader = (c.files consoleFile).reader := by
  cases ho with
  | same => rfl
  | buffers => rfl
  -- A new file is another one than the console.
  | requested =>
      rw [FileTables.request_files,
        Function.update_of_ne (Nat.ne_of_lt (h.cached_lt h.cached_console))]
  | opened => rfl
  | @acquired _ word fd file buf f hfile hfree hopens hmode hread =>
      -- A reader is set only for a mode that reads.
      have hasks : AsksRead word := by
        rw [hopens.mode] at hmode hread
        rcases hmode with hm | hm | hm
        · exact Or.inl hm
        · exact Or.inr hm
        · rw [hm] at hread
          exact absurd (by decide) hread
      exact absurd hasks (hwrite word (List.mem_singleton_self word))
  | asked ha => cases ha

/-- The invariant of the file system and the thread ids together. -/
theorem ConsoleExclusive.of_wf (hwf : s.tables.Wf) (htids : s.OwnTids) :
    ConsoleExclusive null s where
  reader := by
    rcases hwf.console.reader with hnil | ⟨p, hp, hreader⟩
    · exact Or.inl hnil
    · exact Or.inr ⟨p, hp.1, hp.2.2.1, hreader.trans hp.2.2.2.symm⟩
  holds p hpos hp := by
    rw [htids p hpos hp]
    exact hwf.console.holds p hpos hp
  unique p q fd fd' hp hq hpa hqa hreads hreads' := by
    have hreader := (hwf.console.holds p hp hpa).mp ⟨fd, hreads⟩
    have hreader' := (hwf.console.holds q hq hqa).mp ⟨fd', hreads'⟩
    exact threadId_inj (hreader.symm.trans hreader')
  -- The console has another reader.
  refused p q word page s' hpos hq hreader hne hmode hname hs := by
    obtain ⟨hen, -⟩ := step_eq_some hs
    rw [step_openFile hwf.files hname hmode hen] at hs
    rw [htids q hpos hq] at hreader
    rw [openSerial_refused s.io.cleared hreader hne hmode] at hs
    cases hs
    exact ⟨rfl, rfl⟩
  writers p words page s' hwrite hs :=
    openFile_keeps_reader hwf.files (step_wf hwf hs).1 hwrite
  -- The last descriptor for reading is closed.
  closed p fd s' hreads hlast hs := by
    obtain ⟨ho, -⟩ := step_wf hwf hs
    obtain ⟨hen, hexec⟩ := step_eq_some hs
    have hp : s.Live p := hen.1
    obtain ⟨e, f, hslot, hentry⟩ := hreads
    have hvalid : s.io.cleared.isValidFiledescriptor (threadId p) fd = some e := by
      rw [Io.isValidFiledescriptor, tid2pid_threadId, if_pos hslot.1]
      exact hslot.2
    obtain ⟨r, hclose, rfl⟩ := Option.map_eq_some_iff.mp hexec
    exact closed_reader hwf hp ho (closeFile_clears hclose hvalid) ⟨e, f, hslot, hentry⟩ hlast
  deleted p s' hreader hs := by
    obtain ⟨ho, hwf'⟩ := step_wf hwf hs
    obtain ⟨hen, hexec⟩ := step_eq_some hs
    have hp : s.Live p := hen
    rw [hp.2.2.2] at hreader
    rcases hwf'.console.reader with hnil | ⟨q, hq, hreader'⟩
    · exact hnil
    -- Another reader would be one that was there before, and it is gone.
    · exfalso
      cases ho.readerChange hwf.files hwf.handles hen.sent.opens hen.sent.names with
      | same hsame =>
          have hpq := threadId_inj (hreader.symm.trans (hsame.symm.trans hreader'))
          subst hpq
          obtain ⟨io, -, rfl⟩ := Option.map_eq_some_iff.mp hexec
          have hgone : Function.update s.isActive p false p = true := hq.2.2.1
          rw [Function.update_self] at hgone
          cases hgone
      | acquired _ _ _ _ ha =>
          obtain ⟨words, page, ha⟩ := ha
          cases ha
      | released ha => cases ha
      | deleted ha hold hnew => exact absurd hreader' (FileTables.threadId_ne_of_nil hnew)
  acquired p word page fd hp hword hmode hname hreader hfree := by
    have hen : s.Enabled (.openFile p [word] (some page)) :=
      ⟨hp, fun w hw => List.mem_singleton.mp hw ▸ hword⟩
    rw [hp.2.2.2] at hreader
    refine ⟨_, step_openFile hwf.files hname hmode hen, ?_⟩
    rw [openSerial_acquires s.io.cleared hmode hreader hfree]
    have hself : Function.update s.io.files consoleFile
        { s.io.files consoleFile with reader := threadId p } consoleFile =
        { s.io.files consoleFile with reader := threadId p } := Function.update_self ..
    have hslot : Function.update s.io.filetable p
        (Function.update (s.io.filetable p) fd (some s.io.nextEntry)) p fd =
          some s.io.nextEntry := by
      rw [Function.update_self, Function.update_self]
    have hbit : word % 2 ^ 8 &&& fmRead ≠ 0 := by
      rcases hmode with hm | hm
      · rw [hm]
        decide
      · rw [hm]
        decide
    refine ⟨?_, ⟨s.io.nextEntry, _, ⟨(Io.findFreeFileSlot_spec hfree).1, hslot⟩,
      Function.update_self .., rfl, hbit⟩, rfl⟩
    show (Function.update s.io.files consoleFile
      { s.io.files consoleFile with reader := threadId p } consoleFile).reader = s.tid p
    rw [hself, hp.2.2.2]

/-- Console read exclusivity, in every state that is reached with names shorter than
`N_NAME`. -/
theorem console_read_exclusive (h : (machine null).Reachable ShortName s) :
    ConsoleExclusive null s :=
  .of_wf (Reachable.wf h) (.reachable h)

/-- A process opens the console for reading. -/
theorem console_read_exclusive_oneReader :
    ∃ s : FileServer, s.reader = threadId 1 ∧ ConsoleExclusive none s := by
  obtain ⟨s, -, hreach, hreader⟩ := Lib.Machine.exists_run (machine none) ShortName booted_init
    (startup ++ [.openFile 1 [oRdonly] (some (namedPage consoleName))])
    (fun s => s.reader = threadId 1) (by decide +kernel)
  exact ⟨s, hreader, console_read_exclusive hreach⟩

end FileServer

end Sos
