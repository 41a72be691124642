import Sos.Files.Handles

/-!
# `Sos.Files.Reachable`: the invariants in every state that can be reached

`FileServer.Reachable.wf`: the invariants of `Sos.Files.Invariant` and `Sos.Files.Handles`
hold after `io_init` and are kept by every step. `FileServer.Reachable.outcome`: a step from
a reachable state has one of the outcomes.
-/

set_option autoImplicit false

namespace Sos

namespace FileTables

variable {c c' : FileTables}

/-- All invariants together. -/
structure Wf (c : FileTables) : Prop where
  files : c.FilesOk
  entries : c.EntriesOk
  handles : c.HandlesOk
  console : c.ConsoleOk

/-- What is known about the message of a step. -/
structure Sent (c : FileTables) (a : FileAction) : Prop where
  opens : ∀ p words page, a = .openFile p words page → c.Live p
  names : ∀ p fd, a.descriptor = some (p, fd) → c.Live p
  deletes : ∀ p, a = .deleteProcess p → c.Live p
  creates : ∀ p page heap, a = .createProcess p page heap → c.isActive p = false

/-- Every step keeps the descriptors good, by what has become of each. -/
theorem HandlesOk.outcome {a : FileAction} (h : c.Wf) (hsent : c.Sent a) (ho : c.Outcome a c') :
    c'.HandlesOk := by
  intro p fd e f' hpos hp hslot hf'
  rcases ho.slot h.files h.entries hsent.deletes hsent.opens hp hslot hf' with hold | hnew
  · obtain ⟨f, hf, hcont⟩ := hold.entry
    exact (h.handles p fd e f hpos hold.active hold.slot hf).continues hold.tid hcont
      (ho.cacheKept h.files)
  · exact (hnew.2 hpos).handle

/-- No process is the thread that stands for nobody. -/
theorem threadId_ne_of_nil {t : ThreadId} {p : Nat} (h : t = nilthread) : t ≠ threadId p := by
  rw [h]
  exact (threadId_ne_nilthread p).symm

/-- Who reads the console is its reader, also afterwards. -/
theorem ConsoleOk.reader_of_reads {a : FileAction} (h : c.Wf) (hsent : c.Sent a)
    (ho : c.Outcome a c') {p fd : Nat} (hpos : 1 ≤ p) (hp : c'.isActive p = true)
    (hreads : c'.ReadsConsole p fd) : (c'.files consoleFile).reader = threadId p := by
  obtain ⟨e, f', hslot, hf', hfile, hread⟩ := hreads
  rcases ho.slot h.files h.entries hsent.deletes hsent.opens hp hslot hf' with hold | hnew
  · obtain ⟨f, hf, hcont⟩ := hold.entry
    rw [hcont.file] at hfile
    rw [hcont.mode] at hread
    have hreader := (h.console.holds p hpos hold.active).mp ⟨fd, e, f, hold.slot, hf, hfile, hread⟩
    cases ho.readerChange h.files h.handles hsent.opens hsent.names with
    | same hsame => rw [hsame, hreader]
    | acquired hold' hnew' =>
        rcases hold' with hnil | hq
        · exact absurd hreader (threadId_ne_of_nil hnil)
        · rw [hnew', ← hq, hreader]
    | @released q fd₀ e₀ f₀ ha hslot₀ hf₀ hfile₀ hread₀ hlast hnew' hgone =>
        -- The process closes a descriptor, and this is another one of it.
        have hq := hsent.names q fd₀ (by rw [ha]; rfl)
        have hreader₀ := (h.console.holds q hq.1 hq.2.2.1).mp
          ⟨fd₀, e₀, f₀, hslot₀, hf₀, hfile₀, hread₀⟩
        have hpq : p = q := threadId_inj (hreader.symm.trans hreader₀)
        subst hpq
        have howner := (h.handles p fd₀ e₀ f₀ hpos hold.active hslot₀ hf₀).owner hq.2.2.2
        rw [howner, tid2pid_threadId] at hlast
        have hne : e₀ ≠ e := by
          rintro rfl
          have hfd := (h.entries.injective p p fd fd₀ e₀ hold.active hold.active hold.slot hslot₀).2
          subst hfd
          exact hgone e₀ hslot
        exact absurd hfile (hlast fd e f hold.slot hf hne hread)
    | @deleted q ha hold' hnew' hgone =>
        have hpq : p = q := threadId_inj (hreader.symm.trans hold')
        subst hpq
        exact absurd (hp.symm.trans hgone) nofun
  · exact (hnew.2 hpos).reader hread hfile

/-- Where `close_serial` keeps the reader, it has another descriptor for reading. -/
theorem Wf.other_reader (h : c.Wf) {p fd e : Nat} {f : FileTableEntry} (hp : c.Live p)
    (hslot : c.Slot p fd e) (hf : c.entries e = some f) (hread : f.mode &&& fmRead ≠ 0)
    (hkept : (c.files consoleFile).device = .nfs ∨ f.mode &&& fmRead = 0 ∨
      ∃ fd' e' f' file', c.Slot (tid2pid f.owner) fd' e' ∧ c.entries e' = some f' ∧ e ≠ e' ∧
        f'.mode &&& fmRead ≠ 0 ∧ f'.file = some file' ∧
        (c.files file').serialHandle = (c.files consoleFile).serialHandle) :
    ∃ fd', fd' ≠ fd ∧ c.ReadsConsole p fd' := by
  have howner := (h.handles p fd e f hp.1 hp.2.2.1 hslot hf).owner hp.2.2.2
  rcases hkept with hnfs | hwrite | ⟨fd', e', f', file', hslot', hf', hne, hread', hfile', hsame⟩
  · rw [h.files.serial] at hnfs
    cases hnfs
  · exact absurd hwrite hread
  · rw [howner, tid2pid_threadId] at hslot'
    obtain ⟨file, hcached, hcfile, -⟩ := (h.handles p fd' e' f' hp.1 hp.2.2.1 hslot' hf').file
    have hfiles : file = file' := Option.some.inj (hcfile.symm.trans hfile')
    subst hfiles
    -- The console is the only file with a serial handle.
    have hconsole : file = consoleFile := by
      by_contra hno
      have hserial := (h.files.nfs file (h.files.cached_lt hcached) hno).2
      rw [hserial, h.files.serialHandle] at hsame
      cases hsame
    subst hconsole
    refine ⟨fd', ?_, e', f', hslot', hf', hfile', hread'⟩
    rintro rfl
    exact hne (Option.some.inj (hslot.2.symm.trans hslot'.2))

/-- A process that reads the console goes on, or the console is released. -/
theorem Outcome.keepsReads {a : FileAction} (h : c.Wf) (hsent : c.Sent a) (ho : c.Outcome a c')
    {p fd : Nat} (hp : c.Live p) (hp' : c'.isActive p = true) (hreads : c.ReadsConsole p fd) :
    (∃ fd', c'.ReadsConsole p fd') ∨ (c'.files consoleFile).reader = nilthread := by
  obtain ⟨e, f, hslot, hf, hfile, hread⟩ := hreads
  -- Only the close of this very slot can end the reading.
  by_cases hclose : a = .closeFile p [fd]
  · subst hclose
    cases ho with
    | same => exact Or.inl ⟨fd, e, f, hslot, hf, hfile, hread⟩
    | buffers _ hf₁ hsame =>
        obtain ⟨f', hf', hfile', hmode'⟩ := setEntry_keeps hf hf₁ hsame.file hsame.mode
        exact Or.inl ⟨fd, e, f', hslot, hf', hfile'.trans hfile, hmode' ▸ hread⟩
    | asked ha haccess hslot₁ hf₁ hsame =>
        obtain ⟨f', hf', hfile', hmode'⟩ :=
          setEntry_keeps (c := c.send _) hf hf₁ hsame.file hsame.mode
        exact Or.inl ⟨fd, e, f', hslot, hf', hfile'.trans hfile, hmode' ▸ hread⟩
    -- The close finds another slot that reads, or else it releases the console.
    | @closed _ _ e₁ file₁ f₁ hslot₁ hf₁ hfile₁ hkept =>
        have he : e₁ = e := Option.some.inj (hslot₁.2.symm.trans hslot.2)
        subst he
        have hff : f₁ = f := Option.some.inj (hf₁.symm.trans hf)
        subst hff
        have hfiles : file₁ = consoleFile := Option.some.inj (hfile₁.symm.trans hfile)
        subst hfiles
        -- Another descriptor of the process reads the console, so that the source does not
        -- release it.
        obtain ⟨fd', hne, e', f', hslot', hf', hfile', hread'⟩ :=
          h.other_reader hp hslot hf hread hkept
        have hother : ¬ (p = p ∧ fd' = fd) := fun hsame => hne hsame.2
        have hkeeps := closeSlot_keeps h.entries hp.2.2.1 hp.2.2.1 hslot' hslot hother
        exact Or.inl ⟨fd', e', f', hkeeps.1, hkeeps.2.trans hf', hfile', hread'⟩
    | @released _ _ e₁ file₁ f₁ hslot₁ hf₁ hfile₁ =>
        have he : e₁ = e := Option.some.inj (hslot₁.2.symm.trans hslot.2)
        subst he
        have hff : f₁ = f := Option.some.inj (hf₁.symm.trans hf)
        subst hff
        have hfiles : file₁ = consoleFile := Option.some.inj (hfile₁.symm.trans hfile)
        subst hfiles
        exact Or.inr (setReader_reader ..)
  · obtain ⟨hslot', f', hf', hfile', hmode'⟩ := ho.keeps h.entries hsent.names hsent.deletes
      hsent.creates hp.2.2.1 hp' hslot hf hclose
    exact Or.inl ⟨fd, e, f', hslot', hf', hfile'.trans hfile, hmode' ▸ hread⟩

/-- The reader of the console is a process that runs. -/
theorem ConsoleOk.live_of_reader (h : c.ConsoleOk) {p : Nat}
    (hreader : (c.files consoleFile).reader = threadId p) : c.Live p := by
  rcases h.reader with hnil | ⟨q, hlive, hq⟩
  · exact absurd hreader (threadId_ne_of_nil hnil)
  · exact threadId_inj (hreader.symm.trans hq) ▸ hlive

/-- After a step the reader of the console has a descriptor to read it with. -/
theorem ConsoleOk.reads_of_reader {a : FileAction} (h : c.Wf) (hsent : c.Sent a)
    (ho : c.Outcome a c') {p : Nat} (hp : c'.isActive p = true)
    (hreader : (c'.files consoleFile).reader = threadId p) : ∃ fd, c'.ReadsConsole p fd := by
  cases ho.readerChange h.files h.handles hsent.opens hsent.names with
  -- The reader was there before, and its slot is kept.
  | same hsame =>
      rw [hsame] at hreader
      have hlive := h.console.live_of_reader hreader
      obtain ⟨fd, hreads⟩ := (h.console.holds p hlive.1 hlive.2.2.1).mpr hreader
      rcases ho.keepsReads h hsent hlive hp hreads with hstill | hnil
      · exact hstill
      · rw [hsame, hreader] at hnil
        exact absurd hnil (threadId_ne_nilthread p)
  -- The reader has just opened the console.
  | acquired hold hnew hreads =>
      have hpq := threadId_inj (hnew.symm.trans hreader)
      subst hpq
      exact ⟨_, hreads⟩
  -- There is no reader any more.
  | released ha hslot hf hfile hread hlast hnew =>
      exact absurd hreader (threadId_ne_of_nil hnew)
  | deleted ha hold hnew => exact absurd hreader (threadId_ne_of_nil hnew)

/-- The reader of the console is not deleted without losing it. -/
theorem ConsoleOk.deleted_reader {p : Nat} (h : c.Wf) (hp : c.Live p)
    (hcloses : c.Closes p (List.range processMaxFiles) c') :
    (c'.files consoleFile).reader ≠ threadId p := by
  intro hreader'
  have hreader : (c.files consoleFile).reader = threadId p := by
    rcases hcloses.reader consoleFile with hsame | ⟨hold, -⟩
    · exact hsame ▸ hreader'
    · exact hold
  obtain ⟨fd, e, f, hslot, hf, hfile, hread⟩ := (h.console.holds p hp.1 hp.2.2.1).mpr hreader
  -- A descriptor that reads the console waits for no answer of the NFS server.
  have hidle : f.awaitsCallback = false := by
    by_contra hawaits
    have hawaits : f.awaitsCallback = true := by simpa using hawaits
    obtain ⟨file, hfile', hnfs⟩ := (h.handles p fd e f hp.1 hp.2.2.1 hslot hf).idle hawaits hread
    have hfiles : file = consoleFile := Option.some.inj (hfile'.symm.trans hfile)
    rw [hfiles, h.files.serial] at hnfs
    cases hnfs
  exact hcloses.released fd (List.mem_range.mpr hslot.1) e f consoleFile hslot.2 hf hidle hfile
    hreader'

/-- After a step the console has no reader, or one that is there. -/
theorem ConsoleOk.reader_live {a : FileAction} (h : c.Wf) (hsent : c.Sent a)
    (ho : c.Outcome a c') : (c'.files consoleFile).reader = nilthread ∨
      ∃ p, c'.Live p ∧ (c'.files consoleFile).reader = threadId p := by
  cases ho.readerChange h.files h.handles hsent.opens hsent.names with
  | same hsame =>
      rw [hsame]
      -- The reader of before is alive, unless it is the one that is deleted.
      rcases h.console.reader with hnil | ⟨p, hp, hreader⟩
      · exact Or.inl hnil
      · by_cases hdel : a = .deleteProcess p
        · subst hdel
          cases ho with
          | same | buffers => exact Or.inr ⟨p, hp, hreader⟩
          | asked ha => cases ha
          -- The loop over its slots has released the console.
          | deleted hcloses => exact (deleted_reader h hp hcloses (hsame.trans hreader)).elim
        · exact Or.inr ⟨p, ho.live hsent.creates hp hdel, hreader⟩
  | @acquired p fd hold hnew hreads hp =>
      by_cases hdel : a = .deleteProcess p
      · subst hdel
        cases ho with
        | same | buffers => exact Or.inr ⟨p, hp, hnew⟩
        | asked ha => cases ha
        | deleted hcloses => exact (deleted_reader h hp hcloses hnew).elim
      · exact Or.inr ⟨p, ho.live hsent.creates hp hdel, hnew⟩
  | released ha hslot hf hfile hread hlast hnew => exact Or.inl hnew
  | deleted ha hold hnew => exact Or.inl hnew

/-- Every step keeps the console's reader and its descriptor together. -/
theorem ConsoleOk.outcome {a : FileAction} (h : c.Wf) (hsent : c.Sent a) (ho : c.Outcome a c') :
    c'.ConsoleOk where
  reader := reader_live h hsent ho
  holds _ hpos hp :=
    ⟨fun ⟨_, hreads⟩ => reader_of_reads h hsent ho hpos hp hreads, reads_of_reader h hsent ho hp⟩

/-- Every step keeps the four parts of the invariant. -/
theorem Wf.outcome {a : FileAction} (h : c.Wf) (hsent : c.Sent a) (ho : c.Outcome a c') :
    c'.Wf where
  files := by
    refine h.files.outcome ho ?_ hsent.names
    intro p fd e f file hp hslot hf hfile
    obtain ⟨file', hcached, hfile', -⟩ := (h.handles p fd e f hp.1 hp.2.2.1 hslot hf).file
    exact Option.some.inj (hfile'.symm.trans hfile) ▸ hcached
  entries := h.entries.outcome ho hsent.names hsent.deletes
  handles := HandlesOk.outcome h hsent ho
  console := ConsoleOk.outcome h hsent ho

end FileTables

namespace FileServer

/-- The message of a step comes from a process that runs. -/
theorem Enabled.sent {s : FileServer} {a : FileAction} (h : s.Enabled a) : s.tables.Sent a where
  opens p words page ha := by
    subst ha
    exact h.1
  names p fd ha := by
    -- The actions that name a descriptor are `read`, `write` and `close`.
    unfold FileAction.descriptor at ha
    split at ha
    · cases ha
      exact h.1
    · cases ha
      exact h.1
    · cases ha
      exact h.1
    · cases ha
  deletes p ha := by
    subst ha
    exact h
  creates p page heap ha := by
    subst ha
    exact h.2.2.1

/-- A step of the machine has an outcome and keeps the invariant. -/
theorem step_wf {null : Option (List UInt8)} {s s' : FileServer} {a : FileAction}
    (hwf : s.tables.Wf) (h : (machine null).step s a = some s') :
    s.tables.Outcome a s'.tables ∧ s'.tables.Wf := by
  obtain ⟨hen, ho⟩ := step_outcome h fun p fd fd' e hp hslot hslot' =>
    (hwf.entries.injective p p fd fd' e hp.2.2.1 hp.2.2.1 hslot hslot').2
  exact ⟨ho, hwf.outcome hen.sent ho⟩

/-! ### Booting -/

/-- The tables after `io_init`: the console, the swap file, and the server's own descriptors,
the first of which has what was in its memory (`heap`). -/
structure Booted (c : FileTables) (heap : FileTableEntry) : Prop where
  fileCache : c.fileCache = [consoleFile]
  nextFile : c.nextFile = 2
  console : (c.files consoleFile).device = .serial ∧
    (c.files consoleFile).serialHandle = true ∧
    (c.files consoleFile).status.stFmode = fmRead ||| fmWrite ∧
    (c.files consoleFile).reader = nilthread ∧
    (c.files consoleFile).filename = consoleName
  swap : (c.files 1).device = .nfs ∧ (c.files 1).serialHandle = false ∧
    (c.files 1).reader = nilthread ∧ (c.files 1).filename = "swap".toUTF8.toList
  rpcs : c.rpcs = [.create 1, .readdir 0]
  nextEntry : c.nextEntry = 2
  entries : ∃ f g, c.entries = Function.update (Function.update (fun _ => none) 0 (some f)) 1
    (some g) ∧ f.awaitsCallback = heap.awaitsCallback ∧ g.awaitsCallback = false
  filetable : c.filetable 0 = Function.update (Function.update (fun _ => none) 0 (some 0)) 1 (some 1)
  isActive : ∀ p, c.isActive p = (p == 0)

/-- What `io_init` and the first process leave in the tables. -/
theorem boot_booted {rootThread : ThreadId} {heap : FileTableEntry} {s : FileServer}
    (h : boot rootThread heap = some s) : Booted s.tables heap := by
  obtain rfl := Option.some.inj h
  exact
    { fileCache := rfl
      nextFile := rfl
      console := ⟨rfl, rfl, rfl, rfl, rfl⟩
      swap := ⟨rfl, rfl, rfl, rfl⟩
      rpcs := rfl
      nextEntry := rfl
      entries := ⟨_, _, rfl, rfl, rfl⟩
      filetable := by
        funext fd
        rfl
      isActive := fun _ => rfl }

section

variable {c : FileTables} {heap : FileTableEntry} (h : Booted c heap)

include h

/-- The server's own descriptors. -/
theorem Booted.slot {p fd e : Nat} (hp : c.isActive p = true) (hslot : c.Slot p fd e) :
    p = 0 ∧ fd = e ∧ (e = 0 ∨ e = 1) := by
  have hzero : p = 0 := by
    rw [h.isActive, beq_iff_eq] at hp
    exact hp
  subst hzero
  have he := hslot.2
  rw [h.filetable] at he
  -- The server's own process has two descriptors, at 0 and at 1.
  by_cases hone : fd = 1
  · subst hone
    rw [Function.update_self, Option.some.injEq] at he
    exact ⟨rfl, he, Or.inr he.symm⟩
  · rw [Function.update_of_ne hone] at he
    by_cases hz : fd = 0
    · subst hz
      rw [Function.update_self, Option.some.injEq] at he
      exact ⟨rfl, he, Or.inl he.symm⟩
    · rw [Function.update_of_ne hz] at he
      cases he

/-- After booting there are two descriptors. -/
theorem Booted.entry {e : Nat} : (∃ f, c.entries e = some f) ↔ e = 0 ∨ e = 1 := by
  obtain ⟨f, g, hentries, -, -⟩ := h.entries
  rw [hentries]
  constructor
  · rintro ⟨f', hf'⟩
    by_cases hone : e = 1
    · exact Or.inr hone
    · rw [Function.update_of_ne hone] at hf'
      by_cases hz : e = 0
      · exact Or.inl hz
      · rw [Function.update_of_ne hz] at hf'
        cases hf'
  · rintro (rfl | rfl)
    · exact ⟨f, rfl⟩
    · exact ⟨g, rfl⟩

/-- After booting no answer is waited for by a descriptor. -/
theorem Booted.no_tokens {rpc : Rpc} (hmem : rpc ∈ c.rpcs) : rpc.entry = none := by
  rw [h.rpcs] at hmem
  rcases List.mem_cons.mp hmem with rfl | hmem
  · rfl
  · rw [List.mem_singleton.mp hmem]
    rfl

/-- The invariant holds after booting. -/
theorem Booted.wf : c.Wf where
  files :=
    { nodup := by
        show (c.fileCache ++ c.rpcs.filterMap Rpc.file).Nodup
        -- The console is in the cache, and the swap file is asked for.
        rw [h.fileCache, h.rpcs]
        decide
      allocated := by
        intro file hmem
        change file ∈ c.fileCache ++ c.rpcs.filterMap Rpc.file at hmem
        rw [h.fileCache, h.rpcs] at hmem
        rw [h.nextFile]
        revert file
        decide
      head := by
        rw [h.fileCache]
        rfl
      filename := h.console.2.2.2.2
      serial := h.console.1
      serialHandle := h.console.2.1
      stFmode := h.console.2.2.1
      nfs := by
        -- There are two files, and the second is the swap file.
        intro file hlt hne
        rw [h.nextFile] at hlt
        have hone : file = 1 := by
          have hz : file ≠ 0 := hne
          omega
        subst hone
        exact ⟨h.swap.1, h.swap.2.1⟩
      creator := by
        intro file hmem
        rw [h.rpcs] at hmem
        simp only [List.mem_cons, Rpc.create.injEq, reduceCtorEq, List.not_mem_nil, or_false]
          at hmem
        subst hmem
        exact Or.inl h.swap.2.2.1 }
  entries :=
    { allocated := by
        intro e f hf
        rw [h.nextEntry]
        have he := h.entry.mp ⟨f, hf⟩
        omega
      tokens := by
        intro rpc hmem e he
        rw [h.no_tokens hmem] at he
        cases he
      slots := by
        intro p fd e hp hslot
        exact h.entry.mpr (h.slot hp hslot).2.2
      injective := by
        -- A slot, its descriptor and its process determine each other.
        intro p q fd fd' e hp hq hslot hslot'
        have hs := h.slot hp hslot
        have hs' := h.slot hq hslot'
        exact ⟨hs.1.trans hs'.1.symm, hs.2.1.trans hs'.2.1.symm⟩
      awaiting := by
        intro p fd e f _ _ _ rpc hmem he
        rw [h.no_tokens hmem] at he
        cases he }
  handles := by
    intro p fd e f hpos hp hslot
    -- The invariant is about the processes from 1 on, and only process 0 is there.
    exact absurd hpos (by rw [(h.slot hp hslot).1]; decide)
  console :=
    { reader := Or.inl h.console.2.2.2.1
      holds := by
        intro p hpos hp
        rw [h.isActive, beq_iff_eq] at hp
        subst hp
        exact absurd hpos (by decide) }

end

/-- Every state that can be reached satisfies the invariants. -/
theorem Reachable.wf {null : Option (List UInt8)} {ok : FileServer → FileAction → Prop}
    {s : FileServer} (h : (machine null).Reachable ok s) : s.tables.Wf := by
  refine h.invariant (fun s => s.tables.Wf) ?_ fun _ _ _ hwf _ hs => (step_wf hwf hs).2
  rintro s₀ ⟨rootThread, heap, hboot⟩
  exact (boot_booted hboot).wf

/-- Every step of every run has an outcome. -/
theorem Reachable.outcome {null : Option (List UInt8)} {ok : FileServer → FileAction → Prop}
    {s s' : FileServer} {a : FileAction} (h : (machine null).Reachable ok s)
    (hs : (machine null).step s a = some s') : s.tables.Outcome a s'.tables :=
  (step_wf (Reachable.wf h) hs).1

/-! ### The first process -/

/-- An IPC page with a name in it. -/
def namedPage (name : List UInt8) : IpcPage where
  addr := 0x1000000
  bytes i := name.getD i 0

/-- An answer of the NFS server without an error, with buffers for more requests. -/
def okReply (mode : Nat) : NfsReply where
  status := .ok
  handle := 7
  attr := { mode := mode, size := 0, atime := 0, ctime := 0 }
  bytesRead := 0
  data _ := 0
  filenames := []
  nextCookie := 0
  buffers := 40

/-- The last part of a directory listing. -/
def listing (names : List (List UInt8)) : NfsReply := { okReply 0 with filenames := names }

/-- A `file_table_entry` in zeroed memory. -/
def zeroedEntry : FileTableEntry where
  file := none
  owner := nilthread
  mode := 0
  awaitsCallback := false
  clientBuffer := none
  toRead := 0
  toWrite := 0
  writePosition := 0
  readPosition := 0

/-- The file system after `io_init`, on a heap of zeroes. -/
def booted : FileServer := (boot ⟨64, 1⟩ zeroedEntry).get rfl

/-- `booted` is a state after booting. -/
theorem booted_init {null : Option (List UInt8)} : (machine null).init booted :=
  ⟨⟨64, 1⟩, zeroedEntry, (Option.some_get _).symm⟩

/-- The name of the first executable. -/
def shell : List UInt8 := "sosh".toUTF8.toList

/-- The directory is listed, and the first process is started. -/
def startup : List FileAction :=
  [.nfsReply 1 (listing [shell]), .nfsReply 1 (okReply 0o700),
    .createProcess 1 (some (namedPage shell)) zeroedEntry]

end FileServer

end Sos
