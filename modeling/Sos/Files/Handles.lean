import Sos.Files.Invariant

/-!
# `Sos.Files.Handles`: the descriptors of processes and the reader of the console

A slot of an active process is either an old one, whose entry has kept its file, owner and
mode, or a new one (`Outcome.slot`). Old slots stay until they are closed, or the process is
deleted (`Outcome.keeps`). What the cache says about a file stays (`Outcome.cacheKept`).
The invariants of this module follow from these three facts, and `FileServer.wf` says that
every reachable state has all invariants.
-/

set_option autoImplicit false

namespace Sos

namespace FileTables

variable {c c' : FileTables}

/-- What an entry has in two states. The flag `awaits_callback` is set for files on the server
only. -/
structure Continues (c : FileTables) (f f' : FileTableEntry) : Prop where
  file : f'.file = f.file
  owner : f'.owner = f.owner
  mode : f'.mode = f.mode
  awaiting : f'.awaitsCallback = true → f.awaitsCallback = true ∨
    ∃ file, f.file = some file ∧ (c.files file).device = .nfs

/-- A descriptor continues itself. -/
theorem Continues.refl (c : FileTables) (f : FileTableEntry) : Continues c f f :=
  ⟨rfl, rfl, rfl, Or.inl⟩

/-- Only positions and buffers have changed. -/
theorem Continues.of_same {f f' : FileTableEntry} (h : SameHandle f f') : Continues c f f' :=
  ⟨h.file, h.owner, h.mode, fun ha => Or.inl (h.awaitsCallback ▸ ha)⟩

/-- A new entry of process `p`. -/
structure New (c : FileTables) (p : Nat) (f : FileTableEntry) : Prop where
  owner : c.tid p = threadId p → f.owner = threadId p
  file : ∃ file ∈ c.fileCache, f.file = some file ∧
    f.mode &&& (c.files file).status.stFmode = f.mode
  idle : f.awaitsCallback = true → f.mode &&& fmRead = 0
  reader : f.mode &&& fmRead ≠ 0 → f.file = some consoleFile →
    (c.files consoleFile).reader = threadId p

/-- What the cache says about its files stays. -/
structure CacheKept (c c' : FileTables) : Prop where
  cached : c.fileCache <+: c'.fileCache
  device : ∀ file ∈ c.fileCache, SameDevice (c.files file) (c'.files file)
  stFmode : ∀ file ∈ c.fileCache,
    (c'.files file).status.stFmode = (c.files file).status.stFmode

/-- Nothing happens to the cache. -/
theorem CacheKept.refl (c : FileTables) : CacheKept c c :=
  ⟨List.prefix_rfl, fun _ _ => ⟨rfl, rfl, rfl⟩, fun _ _ => rfl⟩

/-- One step after another. -/
theorem CacheKept.trans {c'' : FileTables} (h : CacheKept c c') (h' : CacheKept c' c'') :
    CacheKept c c'' where
  cached := h.cached.trans h'.cached
  device file hfile := by
    have hfirst := h.device file hfile
    have hsecond := h'.device file (h.cached.subset hfile)
    exact ⟨hsecond.filename.trans hfirst.filename, hsecond.device.trans hfirst.device,
      hsecond.serialHandle.trans hfirst.serialHandle⟩
  stFmode file hfile :=
    (h'.stFmode file (h.cached.subset hfile)).trans (h.stFmode file hfile)

/-- A change that writes no file of the cache. -/
theorem CacheKept.of_files (hcached : c.fileCache <+: c'.fileCache)
    (hfiles : ∀ file ∈ c.fileCache, c'.files file = c.files file) : CacheKept c c' where
  cached := hcached
  device file hfile := by
    rw [hfiles file hfile]
    exact ⟨rfl, rfl, rfl⟩
  stFmode file hfile := by rw [hfiles file hfile]

/-- The reader of a file is none of what is kept. -/
theorem CacheKept.setReader (c : FileTables) (file : Nat) (reader : ThreadId) :
    CacheKept c (c.setReader file reader) where
  cached := List.prefix_rfl
  device file' _ := by
    rw [setReader_files]
    by_cases he : file' = file
    · subst he
      rw [Function.update_self]
      exact ⟨rfl, rfl, rfl⟩
    · rw [Function.update_of_ne he]
      exact ⟨rfl, rfl, rfl⟩
  stFmode file' _ := by
    rw [setReader_files]
    by_cases he : file' = file
    · subst he
      rw [Function.update_self]
    · rw [Function.update_of_ne he]

/-- A new file gets a number that is not used yet. -/
theorem CacheKept.request (h : c.FilesOk) (i : FileInfo) (rpc : Nat → Rpc) :
    CacheKept c (c.request i rpc) :=
  .of_files List.prefix_rfl fun _ hfile =>
    Function.update_of_ne (Nat.ne_of_lt (h.cached_lt hfile)) ..

/-- The lookups of one part of the listing make one new file after another. -/
theorem CacheKept.listed (h : c.FilesOk) (names : List (List UInt8)) :
    CacheKept c (names.foldl lookup c) := by
  induction names generalizing c with
  | nil => exact .refl c
  | cons name names ih =>
      rw [List.foldl_cons]
      exact (CacheKept.request h _ _).trans (ih (h.request rfl rfl rfl nofun))

/-- No step changes the device or the mode of a file in the cache, nor takes it out. -/
theorem Outcome.cacheKept {a : FileAction} (ho : c.Outcome a c') (h : c.FilesOk) :
    CacheKept c c' := by
  -- Only three outcomes change a file: a failed answer, an answer that fills the cache, and a
  -- listing.
  cases ho with
  | same => exact .refl c
  | buffers => exact .of_files List.prefix_rfl fun _ _ => rfl
  | requested => exact .request h _ _
  | opened => exact .of_files List.prefix_rfl fun _ _ => rfl
  | acquired => exact (CacheKept.setReader c _ _).trans (.of_files List.prefix_rfl fun _ _ => rfl)
  | asked => exact .of_files List.prefix_rfl fun _ _ => rfl
  | closed => exact .of_files List.prefix_rfl fun _ _ => rfl
  | released => exact (CacheKept.setReader c _ _).trans (.of_files List.prefix_rfl fun _ _ => rfl)
  | answered hrpc he hf hawaits hsame hfiles =>
      exact ⟨List.prefix_rfl, fun file _ => (hfiles file).toSameDevice,
        fun file _ => (hfiles file).stFmode⟩
  | dropped => exact .of_files List.prefix_rfl fun _ _ => rfl
  | failed hrpc hfile =>
      refine .of_files List.prefix_rfl fun file' hcached => ?_
      rw [setFile_files, Function.update_of_ne]
      · rfl
      -- The file of an answer was pending, and so it is not the one in the cache.
      · exact fun he => h.pending_not_cached (mem_pending hrpc hfile) (he ▸ hcached)
  | cached hrpc hfile =>
      refine .of_files (List.prefix_append _ _) fun file' hcached => ?_
      rw [insert_files, Function.update_of_ne]
      · rfl
      · exact fun he => h.pending_not_cached (mem_pending hrpc hfile) (he ▸ hcached)
  | created hrpc =>
      refine .of_files (List.prefix_append _ _) fun file' hcached => ?_
      show Function.update _ _ _ file' = _
      rw [Function.update_of_ne]
      · rfl
      · exact fun he => h.pending_not_cached (mem_pending hrpc rfl) (he ▸ hcached)
  | @listed k r cookie hrpc =>
      -- The answer is taken away first, then the lookups are made, and then the next part is
      -- asked for.
      have hanswer : (c.answer k).FilesOk := by
        refine h.of_same rfl rfl (pending_answer_sublist c k) (fun _ => ⟨rfl, rfl, rfl⟩) rfl ?_
        exact fun file hmem => h.creator file (mem_rpcs_answer hmem)
      have hsame : CacheKept c (c.answer k) := .of_files List.prefix_rfl fun _ _ => rfl
      have hall := hsame.trans (.listed hanswer r.listed)
      unfold follow
      split
      · exact hall.trans (.of_files List.prefix_rfl fun _ _ => rfl)
      · exact hall
  | registered => exact .of_files List.prefix_rfl fun _ _ => rfl
  | deleted hcloses =>
      exact ⟨hcloses.fileCache ▸ List.prefix_rfl, fun file _ => hcloses.device file,
        fun file _ => hcloses.stFmode file⟩

/-! ### Slots -/

/-- A slot was there before, and its entry continues. -/
structure Old (c c' : FileTables) (p fd e : Nat) (f' : FileTableEntry) : Prop where
  active : c.isActive p = true
  tid : c'.tid p = c.tid p
  slot : c.Slot p fd e
  entry : ∃ f, c.entries e = some f ∧ Continues c f f'

/-- The process, its slot and the descriptor are the same. -/
theorem Old.of_same {p fd e : Nat} {f : FileTableEntry} (hactive : c.isActive p = true)
    (htid : c'.tid p = c.tid p) (hslot : c.Slot p fd e) (hf : c.entries e = some f) :
    Old c c' p fd e f := ⟨hactive, htid, hslot, f, hf, .refl c f⟩

/-- Every descriptor after an update continues the one that was there. -/
theorem entries_setEntry {e e' : Nat} {f f' g : FileTableEntry} (hf : c.entries e = some f)
    (hcont : Continues c f f') (hg : (c.setEntry e f').entries e' = some g) :
    ∃ f, c.entries e' = some f ∧ Continues c f g := by
  by_cases he : e' = e
  · subst he
    rw [setEntry_entries, Function.update_self, Option.some.injEq] at hg
    exact ⟨f, hf, hg ▸ hcont⟩
  · rw [setEntry_entries, Function.update_of_ne he] at hg
    exact ⟨g, hg, .refl c g⟩

/-- What is left after a descriptor is freed was there before. -/
theorem entries_free {e e' : Nat} {g : FileTableEntry}
    (hg : Function.update c.entries e none e' = some g) : c.entries e' = some g := by
  by_cases he : e' = e
  · subst he
    rw [Function.update_self] at hg
    cases hg
  · rwa [Function.update_of_ne he] at hg

/-- The lookups touch neither descriptors nor processes. -/
theorem listed_tables (names : List (List UInt8)) (c : FileTables) :
    (names.foldl lookup c).entries = c.entries ∧ (names.foldl lookup c).filetable = c.filetable ∧
      (names.foldl lookup c).isActive = c.isActive ∧ (names.foldl lookup c).tid = c.tid := by
  induction names generalizing c with
  | nil => exact ⟨rfl, rfl, rfl, rfl⟩
  | cons name names ih =>
      rw [List.foldl_cons]
      exact ih (c.lookup name)

/-- Asking for the next part of the directory touches none of the tables. -/
theorem follow_tables (cookie : Int) (c : FileTables) :
    (c.follow cookie).entries = c.entries ∧ (c.follow cookie).filetable = c.filetable ∧
      (c.follow cookie).isActive = c.isActive ∧ (c.follow cookie).tid = c.tid ∧
      (c.follow cookie).files = c.files ∧ (c.follow cookie).fileCache = c.fileCache := by
  unfold follow
  split
  · exact ⟨rfl, rfl, rfl, rfl, rfl, rfl⟩
  · exact ⟨rfl, rfl, rfl, rfl, rfl, rfl⟩

/-- A slot that was filled in this step, with what is known about its entry. -/
theorem openSlot_cases (h : c.EntriesOk) {p fd q fd' e : Nat} {f g : FileTableEntry}
    (hq : c.isActive q = true) (hslot : (c.openSlot p fd f).Slot q fd' e)
    (hg : (c.openSlot p fd f).entries e = some g) :
    (q = p ∧ e = c.nextEntry ∧ g = f) ∨ Old c (c.openSlot p fd f) q fd' e g := by
  rcases slot_openSlot hslot with ⟨rfl, rfl, rfl⟩ | ⟨-, hold⟩
  · rw [openSlot_entries, Function.update_self, Option.some.injEq] at hg
    exact Or.inl ⟨rfl, rfl, hg.symm⟩
  · rw [openSlot_entries, Function.update_of_ne (Nat.ne_of_lt (h.slot_lt hq hold))] at hg
    exact Or.inr (.of_same hq rfl hold hg)

/-- The modes that `open` accepts have no further bits. -/
theorem and_console {mode : Nat} (hmode : mode = oRdonly ∨ mode = oRdwr ∨ mode = oWronly) :
    mode &&& (fmRead ||| fmWrite) = mode := by
  rcases hmode with hm | hm | hm
  · subst hm
    decide
  · subst hm
    decide
  · subst hm
    decide

/-- A slot of an active process is an old one or a new one. -/
theorem Outcome.slot {a : FileAction} (ho : c.Outcome a c') (hfiles : c.FilesOk)
    (hentries : c.EntriesOk) (hdel : ∀ p, a = .deleteProcess p → c.Live p)
    (hlive : ∀ p words page, a = .openFile p words page → c.Live p) {p fd e : Nat}
    {f : FileTableEntry} (hp : c'.isActive p = true) (hslot : c'.Slot p fd e)
    (hf : c'.entries e = some f) :
    Old c c' p fd e f ∨ (e = c.nextEntry ∧ (1 ≤ p → New c' p f)) := by
  cases ho with
  | same => exact Or.inl (.of_same hp rfl hslot hf)
  | buffers _ hf' hsame =>
      exact Or.inl ⟨hp, rfl, hslot, entries_setEntry hf' (Continues.of_same hsame) hf⟩
  | requested => exact Or.inl (.of_same hp rfl hslot hf)
  | @opened q word fd' file page g hfile hfree hopens hmode haccess =>
      rcases openSlot_cases hentries hp hslot hf with ⟨rfl, he, rfl⟩ | hold
      · refine Or.inr ⟨he, fun _ => ⟨fun _ => hopens.owner, ⟨file, hfile, hopens.file, ?_⟩, ?_, ?_⟩⟩
        · show f.mode &&& (c.files file).status.stFmode = f.mode
          rcases haccess with ⟨-, haccess⟩ | ⟨hserial, -⟩
          · exact haccess
          · rw [hfiles.eq_console (hfiles.cached_lt hfile) hserial, hfiles.stFmode]
            exact and_console hmode
        · rw [hopens.awaitsCallback]
          exact nofun
        · intro hread hconsole
          -- The console is not opened for reading here.
          rw [hopens.file, Option.some.injEq] at hconsole
          subst hconsole
          rcases haccess with ⟨hnfs, -⟩ | ⟨-, hwrite⟩
          · rw [hfiles.serial] at hnfs
            cases hnfs
          · exact absurd hwrite hread
      · exact Or.inl hold
  | @acquired q word fd' file page g hfile hfree hopens hmode hread hdevice hreader =>
      have hset : (c.setReader file (threadId q)).EntriesOk :=
        hentries.of_same rfl rfl rfl rfl fun _ hmem _ _ => hmem
      have hconsole := hfiles.eq_console (hfiles.cached_lt hfile) hdevice
      rcases openSlot_cases hset hp hslot hf with ⟨rfl, he, rfl⟩ | hold
      · have hself : ((c.setReader file (threadId p)).openSlot p fd' f).files file =
            { c.files file with reader := threadId p } := Function.update_self ..
        refine Or.inr ⟨he, fun _ => ⟨fun _ => hopens.owner, ⟨file, hfile, hopens.file, ?_⟩, ?_, ?_⟩⟩
        · rw [hself]
          show f.mode &&& (c.files file).status.stFmode = f.mode
          rw [hconsole, hfiles.stFmode]
          exact and_console hmode
        · rw [hopens.awaitsCallback]
          exact nofun
        · intro _ _
          rw [← hconsole, hself]
      · obtain ⟨f₀, hf₀, hcont⟩ := hold.entry
        refine Or.inl ⟨hold.active, hold.tid, hold.slot, f₀, hf₀, hcont.file, hcont.owner,
          hcont.mode, ?_⟩
        intro hawaits
        rcases hcont.awaiting hawaits with hold' | ⟨file', hfile', hnfs⟩
        · exact Or.inl hold'
        · refine Or.inr ⟨file', hfile', ?_⟩
          rw [setReader_files] at hnfs
          by_cases he : file' = file
          · subst he
            rwa [Function.update_self] at hnfs
          · rwa [Function.update_of_ne he] at hnfs
  | @asked a q fd' e' file g g' rpc ha haccess hslot' hg hsame hfile hdevice =>
      have hcont : Continues c g g' :=
        ⟨hsame.file, hsame.owner, hsame.mode, fun _ => Or.inr ⟨file, hfile, hdevice⟩⟩
      exact Or.inl ⟨hp, rfl, hslot, entries_setEntry hg hcont hf⟩
  | closed =>
      exact Or.inl (.of_same hp rfl (slot_closeSlot hslot).2 (entries_free hf))
  | released =>
      exact Or.inl (.of_same hp rfl (slot_closeSlot hslot).2 (entries_free hf))
  | answered hrpc he hg hawaits hsame hfiles' =>
      exact Or.inl ⟨hp, rfl, hslot, entries_setEntry (c := c) hg (Continues.of_same hsame) hf⟩
  | dropped => exact Or.inl (.of_same hp rfl hslot (entries_free hf))
  | failed => exact Or.inl (.of_same hp rfl hslot hf)
  | cached => exact Or.inl (.of_same hp rfl hslot hf)
  | @created k file fd' r i g hrpc hstatus hroom hsame hmode hactive hfree hopens haccess =>
      have hinsert : ((c.answer k).insert file i).EntriesOk :=
        (hentries.answer k).of_same rfl rfl rfl rfl fun _ hmem _ _ => hmem
      rcases openSlot_cases hinsert hp hslot hf with ⟨hpid, he, rfl⟩ | hold
      · have hpending := mem_pending hrpc rfl
        have hself : (((c.answer k).insert file i).openSlot (tid2pid (c.files file).reader) fd'
            f).files file = i := Function.update_self ..
        refine Or.inr ⟨he, fun hpos => ⟨?_, ⟨file, ?_, hopens.file, ?_⟩, ?_, ?_⟩⟩
        · intro _
          -- The thread that opened the file has the slot's own thread id.
          rcases hfiles.creator file (List.mem_of_getElem? hrpc) with hnil | ⟨q, hq⟩
          · rw [hnil] at hpid
            subst hpid
            exact absurd hpos (by decide)
          · rw [hq, tid2pid_threadId] at hpid
            rw [hopens.owner, hq, hpid]
        · exact List.mem_append_right _ (List.mem_singleton_self file)
        · rw [hself, hmode, haccess]
        · rw [hopens.awaitsCallback]
          exact nofun
        · intro _ hconsole
          rw [hopens.file, Option.some.injEq] at hconsole
          exact absurd hconsole (hfiles.pending_ne_console hpending)
      · obtain ⟨f₀, hf₀, hcont⟩ := hold.entry
        refine Or.inl ⟨hold.active, hold.tid, hold.slot, f₀, hf₀, hcont.file, hcont.owner,
          hcont.mode, ?_⟩
        intro hawaits
        rcases hcont.awaiting hawaits with hold' | ⟨file', hfile', hnfs⟩
        · exact Or.inl hold'
        · refine Or.inr ⟨file', hfile', ?_⟩
          rw [insert_files] at hnfs
          by_cases he : file' = file
          · subst he
            rw [Function.update_self, hsame.device] at hnfs
            exact hnfs
          · rwa [Function.update_of_ne he] at hnfs
  | @listed k r cookie hrpc =>
      obtain ⟨hent, htab, hact, htid, -, -⟩ :=
        follow_tables r.nextCookie (r.listed.foldl lookup (c.answer k))
      obtain ⟨hent', htab', hact', htid'⟩ := listed_tables r.listed (c.answer k)
      rw [Slot, htab, htab'] at hslot
      rw [hent, hent'] at hf
      rw [hact, hact'] at hp
      refine Or.inl (.of_same hp ?_ hslot hf)
      rw [htid, htid']
      rfl
  | @registered q page heap g name hopens =>
      rcases slot_register hslot with ⟨rfl, rfl, rfl⟩ | ⟨hne, hold⟩
      · rw [register_entries, Function.update_self, Option.some.injEq] at hf
        subst hf
        obtain ⟨hfile, hmode, howner, -⟩ := hopens
        refine Or.inr ⟨rfl, fun _ => ⟨?_, ⟨consoleFile, hfiles.cached_console, ?_, ?_⟩, ?_, ?_⟩⟩
        · intro htid
          have hnew : (c.register p (FileServer.newTid p name) g).tid p =
              FileServer.newTid p name := Function.update_self ..
          rw [howner, ← hnew, htid]
        · rw [hfile, hfiles.head]
        · show g.mode &&& (c.files consoleFile).status.stFmode = g.mode
          rw [hmode, hfiles.stFmode]
          decide
        · intro _
          rw [hmode]
          decide
        · intro hread
          rw [hmode] at hread
          exact absurd (by decide) hread
      · have hact := isActive_register hne hp
        rw [register_entries, Function.update_of_ne (Nat.ne_of_lt (hentries.slot_lt hact hold))]
          at hf
        exact Or.inl (.of_same hact (Function.update_of_ne hne ..) hold hf)
  | @deleted q c₁ hcloses =>
      obtain ⟨hne, hact⟩ := isActive_update_false hp
      rw [hcloses.isActive] at hact
      have hold := hcloses.slot hne hslot
      change c₁.entries e = some f at hf
      rw [Closes.kept hentries hcloses (hdel q rfl).2.2.1 hact hne hold] at hf
      refine Or.inl (.of_same hact ?_ hold hf)
      show c₁.tid p = c.tid p
      rw [hcloses.tid]

/-- The other slots stay when one is closed. -/
theorem closeSlot_keeps (h : c.EntriesOk) {p q fd fd' e e' : Nat} (hp : c.isActive p = true)
    (hq : c.isActive q = true) (hslot : c.Slot p fd e) (hslot' : c.Slot q fd' e')
    (hother : ¬ (p = q ∧ fd = fd')) :
    (c.closeSlot q fd' e').Slot p fd e ∧ (c.closeSlot q fd' e').entries e = c.entries e := by
  constructor
  · refine ⟨hslot.1, ?_⟩
    rw [closeSlot_filetable]
    by_cases hpq : p = q
    · subst hpq
      rw [Function.update_self, Function.update_of_ne fun hfd => hother ⟨rfl, hfd⟩]
      exact hslot.2
    · rw [Function.update_of_ne hpq]
      exact hslot.2
  · rw [closeSlot_entries, Function.update_of_ne]
    rintro rfl
    exact hother (h.injective p q fd fd' e hp hq hslot hslot')

/-- File and mode of a descriptor survive an update of another field. -/
theorem setEntry_keeps {e e₁ : Nat} {f f₁ f₂ : FileTableEntry} (hf : c.entries e = some f)
    (hf₁ : c.entries e₁ = some f₁) (hfile : f₂.file = f₁.file) (hmode : f₂.mode = f₁.mode) :
    ∃ f', (c.setEntry e₁ f₂).entries e = some f' ∧ f'.file = f.file ∧ f'.mode = f.mode := by
  by_cases he : e = e₁
  · subst he
    rw [hf, Option.some.injEq] at hf₁
    subst hf₁
    exact ⟨f₂, Function.update_self .., hfile, hmode⟩
  · rw [setEntry_entries, Function.update_of_ne he]
    exact ⟨f, hf, rfl, rfl⟩

/-- An old slot stays, unless it is closed or its process is deleted. -/
theorem Outcome.keeps {a : FileAction} (ho : c.Outcome a c') (hentries : c.EntriesOk)
    (hdesc : ∀ p fd, a.descriptor = some (p, fd) → c.Live p)
    (hdel : ∀ p, a = .deleteProcess p → c.Live p)
    (hnew : ∀ p page heap, a = .createProcess p page heap → c.isActive p = false) {p fd e : Nat}
    {f : FileTableEntry} (hp : c.isActive p = true) (hp' : c'.isActive p = true)
    (hslot : c.Slot p fd e) (hf : c.entries e = some f) (hclose : a ≠ .closeFile p [fd]) :
    c'.Slot p fd e ∧ ∃ f', c'.entries e = some f' ∧ f'.file = f.file ∧ f'.mode = f.mode := by
  -- A new descriptor takes a free slot and a new entry.
  have hopen {c : FileTables} {q fd' : Nat} {g : FileTableEntry} (hentries : c.EntriesOk)
      (hp : c.isActive p = true) (hslot : c.Slot p fd e) (hf : c.entries e = some f)
      (hfree : c.filetable q fd' = none) : (c.openSlot q fd' g).Slot p fd e ∧
        ∃ f', (c.openSlot q fd' g).entries e = some f' ∧ f'.file = f.file ∧ f'.mode = f.mode := by
    refine ⟨⟨hslot.1, ?_⟩, f, ?_, rfl, rfl⟩
    · rw [openSlot_filetable]
      by_cases hq : p = q
      · subst hq
        have hfd : fd ≠ fd' := by
          rintro rfl
          exact absurd (hfree.symm.trans hslot.2) nofun
        rw [Function.update_self, Function.update_of_ne hfd]
        exact hslot.2
      · rw [Function.update_of_ne hq]
        exact hslot.2
    · rw [openSlot_entries, Function.update_of_ne (Nat.ne_of_lt (hentries.slot_lt hp hslot))]
      exact hf
  cases ho with
  | same => exact ⟨hslot, f, hf, rfl, rfl⟩
  | buffers _ hf' hsame => exact ⟨hslot, setEntry_keeps hf hf' hsame.file hsame.mode⟩
  | requested => exact ⟨hslot, f, hf, rfl, rfl⟩
  | opened hfile hfree => exact hopen hentries hp hslot hf hfree.2
  | @acquired q word fd' file page g hfile hfree =>
      have hreader : (c.setReader file (threadId q)).EntriesOk :=
        hentries.of_same rfl rfl rfl rfl fun _ hmem _ _ => hmem
      exact hopen hreader hp hslot hf hfree.2
  | asked ha haccess hslot' hg hsame =>
      exact ⟨hslot, setEntry_keeps (c := c.send _) hf hg hsame.file hsame.mode⟩
  | @closed q fd' e' file g hslot' hg =>
      have hother : ¬ (p = q ∧ fd = fd') := fun ⟨hq, hfd⟩ => hclose (by rw [hq, hfd])
      have hkeeps := closeSlot_keeps hentries hp (hdesc q fd' rfl).2.2.1 hslot hslot' hother
      exact ⟨hkeeps.1, f, hkeeps.2.trans hf, rfl, rfl⟩
  | @released q fd' e' file g hslot' hg =>
      have hother : ¬ (p = q ∧ fd = fd') := fun ⟨hq, hfd⟩ => hclose (by rw [hq, hfd])
      have hkeeps := closeSlot_keeps hentries hp (hdesc q fd' rfl).2.2.1 hslot hslot' hother
      exact ⟨hkeeps.1, f, hkeeps.2.trans hf, rfl, rfl⟩
  | answered hrpc he hg hawaits hsame =>
      exact ⟨hslot, setEntry_keeps (c := c.answer _) hf hg hsame.file hsame.mode⟩
  -- An entry that is freed with its last answer is not in any table.
  | @dropped k e' r rpc g hrpc he hg hkilled =>
      have hne : e ≠ e' := by
        rintro rfl
        have hawaits := hentries.awaiting p fd e f hp hslot hf rpc (List.mem_of_getElem? hrpc) he
        rw [hf, Option.some.injEq] at hg
        subst hg
        exact absurd (hawaits.symm.trans hkilled) nofun
      refine ⟨hslot, f, ?_, rfl, rfl⟩
      show Function.update c.entries e' none e = some f
      rw [Function.update_of_ne hne, hf]
  | failed => exact ⟨hslot, f, hf, rfl, rfl⟩
  | cached => exact ⟨hslot, f, hf, rfl, rfl⟩
  | @created k file fd' r i g hrpc hstatus hroom hsame hmode hactive hfree =>
      have hinsert : ((c.answer k).insert file i).EntriesOk :=
        (hentries.answer k).of_same rfl rfl rfl rfl fun _ hmem _ _ => hmem
      exact hopen hinsert hp hslot hf hfree.2
  | @listed k r cookie hrpc =>
      obtain ⟨hent, htab, -, -, -, -⟩ :=
        follow_tables r.nextCookie (r.listed.foldl lookup (c.answer k))
      obtain ⟨hent', htab', -, -⟩ := listed_tables r.listed (c.answer k)
      refine ⟨⟨hslot.1, ?_⟩, f, ?_, rfl, rfl⟩
      · rw [htab, htab']
        exact hslot.2
      · rw [hent, hent']
        exact hf
  | @registered q page heap g name hopens =>
      have hne : p ≠ q := by
        rintro rfl
        exact absurd (hp.symm.trans (hnew p page heap rfl)) nofun
      refine ⟨⟨hslot.1, ?_⟩, f, ?_, rfl, rfl⟩
      · rw [register_filetable, Function.update_of_ne hne]
        exact hslot.2
      · rw [register_entries, Function.update_of_ne (Nat.ne_of_lt (hentries.slot_lt hp hslot))]
        exact hf
  -- Only descriptors of the deleted process are closed.
  | @deleted q c₁ hcloses =>
      obtain ⟨hne, -⟩ := isActive_update_false hp'
      refine ⟨⟨hslot.1, ?_⟩, f, ?_, rfl, rfl⟩
      · show c₁.filetable p fd = some e
        rw [hcloses.filetable p hne]
        exact hslot.2
      · show c₁.entries e = some f
        rw [Closes.kept hentries hcloses (hdel q rfl).2.2.1 hp hne hslot, hf]

/-! ### Descriptors -/

/-- A descriptor of process `p`. -/
structure Handle (c : FileTables) (p : Nat) (f : FileTableEntry) : Prop where
  owner : c.tid p = threadId p → f.owner = threadId p
  file : ∃ file ∈ c.fileCache, f.file = some file ∧
    f.mode &&& (c.files file).status.stFmode = f.mode
  idle : f.awaitsCallback = true → f.mode &&& fmRead ≠ 0 →
    ∃ file, f.file = some file ∧ (c.files file).device = .nfs

/-- The descriptors of processes belong to them, are for files in the cache, and have modes
that these files allow. -/
def HandlesOk (c : FileTables) : Prop :=
  ∀ p fd e f, 1 ≤ p → c.isActive p = true → c.Slot p fd e → c.entries e = some f → Handle c p f

/-- A descriptor that has just been made is a good one. -/
theorem New.handle {p : Nat} {f : FileTableEntry} (h : New c p f) : Handle c p f where
  owner := h.owner
  file := h.file
  idle hawaits hread := absurd (h.idle hawaits) hread

/-- A good descriptor stays good while it is continued and the cache is kept. -/
theorem Handle.continues {p : Nat} {f f' : FileTableEntry} (h : Handle c p f)
    (htid : c'.tid p = c.tid p) (hcont : Continues c f f') (hkept : CacheKept c c') :
    Handle c' p f' where
  owner htid' := by
    rw [hcont.owner]
    exact h.owner (htid ▸ htid')
  file := by
    obtain ⟨file, hcached, hfile, hmode⟩ := h.file
    refine ⟨file, hkept.cached.subset hcached, hcont.file.trans hfile, ?_⟩
    rw [hcont.mode, hkept.stFmode file hcached, hmode]
  idle hawaits hread := by
    rw [hcont.mode] at hread
    -- A descriptor that reads and waits is one of a file on the server, since before or since now.
    have hnfs : ∃ file, f.file = some file ∧ (c.files file).device = .nfs := by
      rcases hcont.awaiting hawaits with hold | hnfs
      · exact h.idle hold hread
      · exact hnfs
    obtain ⟨file, hfile, hdevice⟩ := hnfs
    obtain ⟨file', hcached, hfile', -⟩ := h.file
    have hfiles : file' = file := Option.some.inj (hfile'.symm.trans hfile)
    subst hfiles
    exact ⟨file', hcont.file.trans hfile, (hkept.device file' hcached).device.trans hdevice⟩

/-! ### The reader of the console -/

structure ConsoleOk (c : FileTables) : Prop where
  reader : (c.files consoleFile).reader = nilthread ∨
    ∃ p, c.Live p ∧ (c.files consoleFile).reader = threadId p
  holds : ∀ p, 1 ≤ p → c.isActive p = true →
    ((∃ fd, c.ReadsConsole p fd) ↔ (c.files consoleFile).reader = threadId p)

/-- What a message can do to the reader of the console. -/
inductive ReaderChange (c c' : FileTables) (a : FileAction) : Prop
  | same (h : (c'.files consoleFile).reader = (c.files consoleFile).reader)
  | acquired {p fd : Nat} (hold : (c.files consoleFile).reader = nilthread ∨
        (c.files consoleFile).reader = threadId p)
      (hnew : (c'.files consoleFile).reader = threadId p) (hreads : c'.ReadsConsole p fd)
      (hp : c.Live p) (ha : ∃ words page, a = .openFile p words page)
  | released {p fd e : Nat} {f : FileTableEntry} (ha : a = .closeFile p [fd])
      (hslot : c.Slot p fd e) (hf : c.entries e = some f) (hfile : f.file = some consoleFile)
      (hread : f.mode &&& fmRead ≠ 0)
      (hlast : ∀ fd' e' f', c.Slot (tid2pid f.owner) fd' e' → c.entries e' = some f' → e ≠ e' →
        f'.mode &&& fmRead ≠ 0 → f'.file ≠ some consoleFile)
      (hnew : (c'.files consoleFile).reader = nilthread)
      (hgone : ∀ e', c'.Slot p fd e' → False)
  | deleted {p : Nat} (ha : a = .deleteProcess p)
      (hold : (c.files consoleFile).reader = threadId p)
      (hnew : (c'.files consoleFile).reader = nilthread) (hgone : c'.isActive p = false)

/-- What every step does to the reader of the console, by cases on the step. -/
theorem Outcome.readerChange {a : FileAction} (ho : c.Outcome a c') (h : c.FilesOk)
    (hhandles : c.HandlesOk) (hlive : ∀ p words page, a = .openFile p words page → c.Live p)
    (hdesc : ∀ p fd, a.descriptor = some (p, fd) → c.Live p) : ReaderChange c c' a := by
  have hconsole := h.cached_lt h.cached_console
  cases ho with
  | same => exact .same rfl
  | buffers => exact .same rfl
  | requested =>
      refine .same ?_
      rw [request_files, Function.update_of_ne (Nat.ne_of_lt hconsole)]
  | opened => exact .same rfl
  -- The console is the only file with a reader.
  | @acquired p word fd file page f hfile hfree hopens hmode hread hdevice hreader =>
      have he := h.eq_console (h.cached_lt hfile) hdevice
      subst he
      refine .acquired hreader (setReader_reader ..)
        ⟨c.nextEntry, f, ⟨hfree.1, ?_⟩, ?_, hopens.file, hread⟩ (hlive p _ _ rfl) ⟨_, _, rfl⟩
      · rw [openSlot_filetable, Function.update_self, Function.update_self]
        rfl
      · exact Function.update_self ..
  | asked => exact .same rfl
  | closed => exact .same rfl
  -- The last descriptor for reading is closed.
  | @released p fd e file f hslot hf hfile hdevice hread hlast =>
      have hp := hdesc p fd rfl
      obtain ⟨file', hcached, hfile', -⟩ := (hhandles p fd e f hp.1 hp.2.2.1 hslot hf).file
      have hfiles : file' = file := Option.some.inj (hfile'.symm.trans hfile)
      subst hfiles
      have he := h.eq_console (h.cached_lt hcached) hdevice
      subst he
      refine .released rfl hslot hf hfile hread ?_ ?_ ?_
      · intro fd' e' f' hslot' hf' hne hread' hfile''
        exact hlast fd' e' f' consoleFile hslot' hf' hne hread' hfile'' rfl
      · exact setReader_reader ..
      · intro e' hslot'
        exact (slot_closeSlot hslot').1 rfl rfl
  | answered hrpc he hf hawaits hsame hfiles => exact .same (hfiles consoleFile).reader
  | dropped => exact .same rfl
  -- The file of a request that is outstanding is not the console.
  | failed hrpc hfile =>
      refine .same ?_
      rw [setFile_files, Function.update_of_ne (h.pending_ne_console (mem_pending hrpc hfile)).symm]
      rfl
  | cached hrpc hfile =>
      refine .same ?_
      rw [insert_files, Function.update_of_ne (h.pending_ne_console (mem_pending hrpc hfile)).symm]
      rfl
  | @created k file fd r i f hrpc =>
      have hne := (h.pending_ne_console (mem_pending hrpc rfl)).symm
      have hother : (((c.answer k).insert file i).openSlot (tid2pid (c.files file).reader) fd
          f).files consoleFile = c.files consoleFile := Function.update_of_ne hne ..
      exact .same (by rw [hother])
  | @listed k r cookie hrpc =>
      refine .same ?_
      rw [(follow_tables r.nextCookie _).2.2.2.2.1]
      have hother (names : List (List UInt8)) (c : FileTables) (hlt : consoleFile < c.nextFile) :
          (names.foldl lookup c).files consoleFile = c.files consoleFile := by
        induction names generalizing c with
        | nil => rfl
        | cons name names ih =>
            rw [List.foldl_cons, ih (c.lookup name) (Nat.lt_succ_of_lt hlt), lookup, request_files,
              Function.update_of_ne (Nat.ne_of_lt hlt)]
      rw [hother r.listed (c.answer k) hconsole]
      rfl
  | registered => exact .same rfl
  | @deleted p c₁ hcloses =>
      rcases hcloses.reader consoleFile with hsame | ⟨hold, hnew⟩
      · exact .same hsame
      · exact .deleted rfl hold hnew (Function.update_self ..)

/-- A process runs until it is deleted. -/
theorem Outcome.live {a : FileAction} (ho : c.Outcome a c')
    (hnew : ∀ p page heap, a = .createProcess p page heap → c.isActive p = false) {p : Nat}
    (hp : c.Live p) (hne : a ≠ .deleteProcess p) : c'.Live p := by
  obtain ⟨hpos, hlt, hactive, htid⟩ := hp
  cases ho with
  -- Most outcomes touch no process.
  | same | buffers | requested | opened | acquired | asked | closed | released | answered |
    dropped | failed | cached | created => exact ⟨hpos, hlt, hactive, htid⟩
  | @listed k r cookie hrpc =>
      obtain ⟨-, -, hact, ht, -⟩ :=
        follow_tables r.nextCookie (r.listed.foldl lookup (c.answer k))
      obtain ⟨-, -, hact', ht'⟩ := listed_tables r.listed (c.answer k)
      refine ⟨hpos, hlt, ?_, ?_⟩
      · rw [hact, hact']
        exact hactive
      · rw [ht, ht']
        exact htid
  | @registered q page heap f name hopens =>
      have hq : p ≠ q := by
        rintro rfl
        exact absurd (hactive.symm.trans (hnew p page heap rfl)) nofun
      refine ⟨hpos, hlt, ?_, ?_⟩
      · rw [register_isActive, Function.update_of_ne hq, hactive]
      · show Function.update c.tid q _ p = threadId p
        rw [Function.update_of_ne hq, htid]
  -- Only the process that is deleted is gone.
  | @deleted q c₁ hcloses =>
      have hq : p ≠ q := by
        rintro rfl
        exact hne rfl
      refine ⟨hpos, hlt, ?_, ?_⟩
      · show Function.update c₁.isActive q false p = true
        rw [Function.update_of_ne hq, hcloses.isActive, hactive]
      · show c₁.tid p = threadId p
        rw [hcloses.tid, htid]

end FileTables

end Sos
