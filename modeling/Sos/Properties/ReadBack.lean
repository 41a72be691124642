import Sos.Properties.FileStreams

/-!
# `Sos.Properties.ReadBack`: what is written to a file is read from it

`written_file_read_back`: a descriptor is opened for a file on the NFS server, and for a while
only its writes reach this file; after that none does. What another descriptor of the file reads
then, from its start on, is what has been written, whatever the other processes do meanwhile, with
this file or with others. Requests are answered in any order, processes are created and deleted,
and the writer can be deleted as well.

The NFS server is assumed to answer a read with what it has stored (`Honest`). Both streams are at
most 4 GiB long, because the positions are words.
-/

set_option autoImplicit false

namespace Sos

/-- The request that is answered, and the answer. -/
def FileAction.reply : FileAction → Option (Nat × NfsReply)
  | .nfsReply k r => some (k, r)
  | _ => none

namespace FileServer

/-- The NFS server answers a read with bytes of the file, and with no more than it is asked for. -/
def Honest (x : FileServer × Storage) (a : FileAction) : Prop :=
  ∀ y ∈ a.reply, ∀ rpc ∈ x.1.io.rpcs[y.1]?, rpc.accessMode = fmRead → y.2.status = .ok →
    y.2.bytesRead ≤ rpc.count ∧
      ∀ i < y.2.bytesRead, y.2.data i = x.2.content rpc.handle (rpc.position + i)

/-- The file with this handle is not created again, and only this entry writes to it. -/
def OnlyWriter (handle : Nat) (writer : Option Nat) (s : FileServer) (a : FileAction) : Prop :=
  ∀ y ∈ a.reply, ∀ rpc ∈ s.io.rpcs[y.1]?, y.2.status = .ok →
    (rpc.accessMode = fmWrite → rpc.handle = handle → rpc.entry = writer) ∧
      ∀ file ∈ rpc.file, rpc = .create file → y.2.handle ≠ handle

/-- Only the entry `e` writes to the file. -/
def WrittenBy (handle e : Nat) (x : FileServer × Storage) (a : FileAction) : Prop :=
  x.1.Orderly a ∧ x.1.OnlyWriter handle (some e) a

/-- Nobody writes to the file. -/
def Unwritten (handle : Nat) (x : FileServer × Storage) (a : FileAction) : Prop :=
  x.1.Orderly a ∧ Honest x a ∧ x.1.OnlyWriter handle none a

/-- The entry is open for the file with this handle. -/
def OpenOn (s : FileServer) (e handle : Nat) : Prop :=
  ∃ f ∈ s.io.entries e, ∃ file ∈ f.file, file ∈ s.io.fileCache ∧ file ≠ consoleFile ∧
    (s.io.files file).nfsHandle = handle

instance (x : FileServer × Storage) (a : FileAction) : Decidable (Honest x a) := by
  unfold Honest
  infer_instance

instance (handle : Nat) (writer : Option Nat) (s : FileServer) (a : FileAction) :
    Decidable (s.OnlyWriter handle writer a) := by
  unfold OnlyWriter
  infer_instance

instance (handle e : Nat) (x : FileServer × Storage) (a : FileAction) :
    Decidable (WrittenBy handle e x a) := inferInstanceAs (Decidable (_ ∧ _))

instance (handle : Nat) (x : FileServer × Storage) (a : FileAction) :
    Decidable (Unwritten handle x a) := inferInstanceAs (Decidable (_ ∧ _))

instance (s : FileServer) (e handle : Nat) : Decidable (s.OpenOn e handle) := by
  unfold OpenOn
  infer_instance

end FileServer

/-! ### Entries and files -/

namespace FileTables

variable {c c' : FileTables}

/-- An entry is the one that it was, or a new one. -/
theorem entry_update {e₀ : Nat} {g : FileTableEntry}
    (hentries : c'.entries = Function.update c.entries e₀ (some g))
    (hcases : (∃ f, c.entries e₀ = some f ∧ g.file = f.file) ∨ c.nextEntry ≤ e₀) {e : Nat}
    {f' : FileTableEntry} (hf' : c'.entries e = some f') :
    (∃ f, c.entries e = some f ∧ f'.file = f.file) ∨ c.nextEntry ≤ e := by
  rw [hentries] at hf'
  by_cases he : e = e₀
  · subst he
    rw [Function.update_self, Option.some.injEq] at hf'
    exact hf' ▸ hcases
  · rw [Function.update_of_ne he] at hf'
    exact Or.inl ⟨f', hf', rfl⟩

/-- What is left after a descriptor is freed was there before. -/
theorem entry_free {e₀ : Nat} (hentries : c'.entries = Function.update c.entries e₀ none) {e : Nat}
    {f' : FileTableEntry} (hf' : c'.entries e = some f') :
    (∃ f, c.entries e = some f ∧ f'.file = f.file) ∨ c.nextEntry ≤ e := by
  rw [hentries] at hf'
  by_cases he : e = e₀
  · rw [he, Function.update_self] at hf'
    cases hf'
  · rw [Function.update_of_ne he] at hf'
    exact Or.inl ⟨f', hf', rfl⟩

/-- No step but a deletion changes the file of a descriptor that is there. -/
theorem Outcome.entry_file {a : FileAction} (ho : c.Outcome a c')
    (hkill : ∀ p, a ≠ .deleteProcess p) {e : Nat} {f' : FileTableEntry}
    (hf' : c'.entries e = some f') :
    (∃ f, c.entries e = some f ∧ f'.file = f.file) ∨ c.nextEntry ≤ e := by
  -- An entry keeps its file in every outcome; a free place is only filled by a new entry.
  cases ho with
  | same => exact Or.inl ⟨f', hf', rfl⟩
  | buffers _ hf hsame => exact entry_update rfl (Or.inl ⟨_, hf, hsame.file⟩) hf'
  | requested => exact Or.inl ⟨f', hf', rfl⟩
  | opened => exact entry_update rfl (Or.inr (Nat.le_refl _)) hf'
  | acquired => exact entry_update rfl (Or.inr (Nat.le_refl _)) hf'
  | asked _ _ _ hf hsame => exact entry_update rfl (Or.inl ⟨_, hf, hsame.file⟩) hf'
  | closed => exact entry_free rfl hf'
  | released => exact entry_free rfl hf'
  | answered _ _ hf _ hsame => exact entry_update rfl (Or.inl ⟨_, hf, hsame.file⟩) hf'
  | dropped => exact entry_free rfl hf'
  | failed => exact Or.inl ⟨f', hf', rfl⟩
  | cached => exact Or.inl ⟨f', hf', rfl⟩
  | created => exact entry_update rfl (Or.inr (Nat.le_refl _)) hf'
  -- Listing a directory only sends requests and puts files into the cache.
  | @listed k r _ hrpc =>
      rw [(follow_tables _ _).1, (listed_tables _ _).1] at hf'
      exact Or.inl ⟨f', hf', rfl⟩
  | registered => exact entry_update rfl (Or.inr (Nat.le_refl _)) hf'
  | deleted => exact absurd rfl (hkill _)

/-- The lookups make no descriptor. -/
theorem listed_nextEntry (names : List (List UInt8)) (c : FileTables) :
    (names.foldl lookup c).nextEntry = c.nextEntry := by
  induction names generalizing c with
  | nil => rfl
  | cons name names ih => exact ih (c.lookup name)

/-- The numbers of descriptors are not used again. -/
theorem Outcome.nextEntry_le {a : FileAction} (ho : c.Outcome a c') : c.nextEntry ≤ c'.nextEntry := by
  cases ho with
  | @listed k r _ hrpc =>
      have hlisted := listed_nextEntry r.listed (c.answer k)
      unfold follow
      split
      · exact hlisted.ge
      · exact hlisted.ge
  | deleted h => exact h.nextEntry.ge
  | opened => exact Nat.le_succ _
  | acquired => exact Nat.le_succ _
  | created => exact Nat.le_succ _
  | registered => exact Nat.le_succ _
  | _ => exact Nat.le_refl _

end FileTables

namespace FileServer

variable {null : Option (List UInt8)} {s s' : FileServer} {a : FileAction}
  {content : Nat → Nat → UInt8} {x x' : FileServer × Storage} {e handle : Nat}

/-- The same of every step, deletions included. -/
theorem step_entry_file (hwf : s.tables.Wf) (hs : (machine null).step s a = some s')
    {f' : FileTableEntry} (hf' : s'.io.entries e = some f') :
    (∃ f, s.io.entries e = some f ∧ f'.file = f.file) ∨ s.io.nextEntry ≤ e := by
  by_cases hkill : ∃ p, a = .deleteProcess p
  · obtain ⟨p, rfl⟩ := hkill
    rcases (step_keepsPositions hwf rfl (fun _ _ h => by cases h) hs).entries e f' hf' with ⟨f, hf, hsame⟩ | ⟨hle, -⟩
    · exact Or.inl ⟨f, hf, hsame.file⟩
    · exact Or.inr hle
  · exact (step_wf hwf hs).1.entry_file (fun p hp => hkill ⟨p, hp⟩) hf'

/-- An entry stays open for its file until it is freed. -/
theorem OpenOn.step (h : s.OpenOn e handle) (hwf : s.tables.Wf)
    (hs : (machine null).step s a = some s') {f' : FileTableEntry}
    (hf' : s'.io.entries e = some f') : s'.OpenOn e handle := by
  obtain ⟨f, hf, file, hfile, hcached, hne, hhandle⟩ := h
  obtain ⟨ho, -⟩ := step_wf hwf hs
  rcases step_entry_file hwf hs hf' with ⟨g, hg, hsame⟩ | hle
  · obtain rfl := Option.some.inj (hf.symm.trans hg)
    exact ⟨f', hf', file, hsame.trans hfile, (ho.cacheKept hwf.files).cached.subset hcached, hne,
      (step_nfsHandle hwf hs hcached).trans hhandle⟩
  · exact absurd (hwf.entries.allocated e f hf) (Nat.not_lt.mpr hle)

/-! ### What one step transfers -/

/-- The request that an answer is for. -/
def Answers (s : FileServer) (a : FileAction) (rpc : Rpc) (r : NfsReply) : Prop :=
  ∃ k, a = .nfsReply k r ∧ s.io.rpcs[k]? = some rpc

/-- The answer to a request is all that the record gets from it. -/
theorem record_answers {rpc : Rpc} {r : NfsReply} (h : s.Answers a rpc r) (y : Storage) :
    Storage.record s a s' y = y.answer rpc r s'.io.accesses := by
  obtain ⟨k, rfl, hrpc⟩ := h
  show (s.io.rpcs[k]?).elim y _ = _
  rw [hrpc]
  rfl

/-- Only answers change what the files hold and what has gone through the entries. -/
theorem record_cases (s : FileServer) (a : FileAction) (s' : FileServer) (y : Storage) :
    (∃ rpc r, s.Answers a rpc r) ∨ (Storage.record s a s' y).content = y.content ∧
      (Storage.record s a s' y).sent = y.sent ∧
        (Storage.record s a s' y).received = y.received := by
  unfold Storage.record
  split
  · refine Or.inr ?_
    cases s.transfer _ with
    | none => exact ⟨rfl, rfl, rfl⟩
    | some t => exact ⟨rfl, rfl, rfl⟩
  next k r =>
    cases hrpc : s.io.rpcs[k]? with
    | none => exact Or.inr ⟨rfl, rfl, rfl⟩
    | some rpc => exact Or.inl ⟨rpc, r, k, rfl, hrpc⟩
  · exact Or.inr ⟨rfl, rfl, rfl⟩

/-- The callback of an entry finds it. -/
theorem entry_of_answers {rpc : Rpc} {r : NfsReply} (hs : (machine null).step s a = some s')
    (hans : s.Answers a rpc r) (he : rpc.entry = some e) : ∃ f, s.io.entries e = some f := by
  obtain ⟨k, rfl, hrpc⟩ := hans
  obtain ⟨-, hexec⟩ := step_eq_some hs
  obtain ⟨io, hio, -⟩ := Option.map_eq_some_iff.mp hexec
  obtain ⟨rpc', hrpc', hcall⟩ := Option.bind_eq_some_iff.mp hio
  obtain rfl := Option.some.inj (hrpc.symm.trans hrpc')
  cases rpc with
  | read e' handle position count =>
      cases he
      obtain ⟨-, f, hf, -⟩ := Io.nfsReadCallback_cases hcall
      exact ⟨f, hf⟩
  | write e' handle position count =>
      cases he
      obtain ⟨-, f, hf, -⟩ := Io.nfsWriteCallback_cases hcall
      exact ⟨f, hf⟩
  | _ => cases he

/-- The request of an answer is for the file that its entry is open for. -/
theorem Streaming.answers (h : Streaming x) {rpc : Rpc} {r : NfsReply}
    (hans : x.1.Answers a rpc r) {e' handle' : Nat} (he : rpc.entry = some e')
    (hopen : x.1.OpenOn e' handle') : rpc.handle = handle' := by
  obtain ⟨k, -, hrpc⟩ := hans
  obtain ⟨f, hf, file, hfile, -, -, hhandle⟩ := hopen
  obtain ⟨i, -, hi, -, hmatch⟩ :=
    (h.streams.requests rpc (List.mem_of_getElem? hrpc) e' he).file f hf
  have hsame : i = file := Option.some.inj (hi.symm.trans hfile)
  rw [hmatch, hsame]
  exact hhandle

/-- A step that does not write to the file leaves its contents. -/
theorem content_kept (hstep : x'.2 = Storage.record x.1 a x'.1 x.2)
    (hno : x.1.OnlyWriter handle none a) : x'.2.content handle = x.2.content handle := by
  rw [hstep]
  rcases record_cases x.1 a x'.1 x.2 with ⟨rpc, r, hans⟩ | ⟨hcontent, -⟩
  · rw [record_answers hans]
    obtain ⟨k, rfl, hrpc⟩ := hans
    have hwriter := hno (k, r) rfl rpc hrpc
    -- Only create and write change what the server holds, and neither is for this handle.
    cases rpc with
    | create file =>
        unfold Storage.answer
        dsimp only
        split
        next hok => exact Function.update_of_ne ((hwriter hok).2 file rfl rfl).symm ..
        next => rfl
    | write e' handle' position count =>
        unfold Storage.answer
        dsimp only
        split
        next hok =>
          refine Function.update_of_ne (fun heq => ?_) ..
          cases (hwriter hok).1 rfl heq.symm
        next => rfl
    | _ => rfl
  · rw [hcontent]

/-! ### Writing -/

/-- A stream is what a file holds, from its start on. -/
def Agrees (file : Nat → UInt8) (stream : List UInt8) : Prop :=
  stream.length ≤ 2 ^ 32 → Lib.Holds file 0 stream

/-- Nothing has been read yet. -/
theorem Agrees.nil (file : Nat → UInt8) : Agrees file [] := fun _ _ hi => absurd hi (Nat.not_lt_zero _)

/-- More is written at the end of the stream. -/
theorem Agrees.store {file : Nat → UInt8} {stream more : List UInt8} (h : Agrees file stream) :
    Agrees (Lib.store file (stream.length % 2 ^ 32) more) (stream ++ more) := by
  intro hle
  rw [List.length_append] at hle
  have hold := h (Nat.le_trans (Nat.le_add_right _ _) hle)
  by_cases hlt : stream.length < 2 ^ 32
  · rw [Nat.mod_eq_of_lt hlt]
    refine Lib.holds_append.mpr ⟨hold.store (Or.inl (by omega)), ?_⟩
    rw [Nat.zero_add]
    exact Lib.holds_store file stream.length more
  · -- there is no room for more
    have hmore : more = [] := List.length_eq_zero_iff.mp (by omega)
    subst hmore
    rw [List.append_nil]
    exact hold.store (Or.inr (by rw [List.length_nil]; omega))

/-- The entry `e` is the writer of a file, which holds what has been written. -/
structure Writer (handle e : Nat) (x : FileServer × Storage) : Prop where
  streaming : Streaming x
  allocated : e < x.1.io.nextEntry
  opened : ∀ f, x.1.io.entries e = some f → x.1.OpenOn e handle
  agrees : Agrees (x.2.content handle) (x.2.sent e)

/-- While only one descriptor writes, the file is what the server has acknowledged to it. -/
theorem Writer.step (h : Writer handle e x) (hok : WrittenBy handle e x a)
    (hs : (FileServer.streaming null content).step x a = some x') : Writer handle e x' := by
  obtain ⟨hstep, hrecord⟩ := Lib.Machine.withHistory_step hs
  have hwf := h.streaming.wf
  have hagrees : Agrees (x'.2.content handle) (x'.2.sent e) := by
    rw [hrecord]
    -- The content changes with an answer, and only with that of a create or a write.
    rcases record_cases x.1 a x'.1 x.2 with ⟨rpc, r, hans⟩ | ⟨hcontent, hsent, -⟩
    · rw [record_answers hans]
      have hans' := hans
      obtain ⟨k, rfl, hrpc⟩ := hans'
      have hwriter := hok.2 (k, r) rfl rpc hrpc
      cases rpc with
      | create file =>
          unfold Storage.answer
          dsimp only
          split
          next hok =>
            show Agrees (Function.update x.2.content r.handle (fun _ => 0) handle) _
            rw [Function.update_of_ne ((hwriter hok).2 file rfl rfl).symm]
            exact h.agrees
          next => exact h.agrees
      | write e' handle' position count =>
          unfold Storage.answer
          dsimp only
          split
          next hok =>
            have hmatch := h.streaming.streams.requests _ (List.mem_of_getElem? hrpc) e' rfl
            have hposition : position = (x.2.sent e').length % 2 ^ 32 := hmatch.position
            show Agrees (Function.update x.2.content handle' _ handle)
              (Function.update x.2.sent e' _ e)
            by_cases hhandle : handle = handle'
            · -- this is a write of the writer
              have he : e' = e := Option.some.inj ((hwriter hok).1 rfl hhandle.symm)
              subst hhandle he
              rw [Function.update_self, Function.update_self, hposition]
              exact h.agrees.store
            -- A write to another file comes from another entry.
            · rw [Function.update_of_ne hhandle]
              have he : e ≠ e' := by
                rintro rfl
                obtain ⟨f, hf⟩ := entry_of_answers hstep hans rfl
                exact hhandle (h.streaming.answers hans rfl (h.opened f hf)).symm
              rw [Function.update_of_ne he]
              exact h.agrees
          next => exact h.agrees
      | _ => exact h.agrees
    · rw [hcontent, hsent]
      exact h.agrees
  refine ⟨h.streaming.step hok.1 hs, ?_, ?_, hagrees⟩
  · exact Nat.lt_of_lt_of_le h.allocated (step_wf hwf hstep).1.nextEntry_le
  · intro f' hf'
    -- The writer's entry was allocated before the run, so it cannot be a new one.
    rcases step_entry_file hwf hstep hf' with ⟨f, hf, -⟩ | hle
    · exact (h.opened f hf).step hwf hstep hf'
    · exact absurd h.allocated (Nat.not_lt.mpr hle)

/-! ### Reading -/

/-- More of the file is read from the end of the stream. -/
theorem Agrees.read {file : Nat → UInt8} {stream : List UInt8} {n : Nat} {data : Nat → UInt8}
    (h : Agrees file stream) (hdata : ∀ i < n, data i = file (stream.length % 2 ^ 32 + i)) :
    Agrees file (stream ++ (List.range n).map data) := by
  intro hle
  rw [List.length_append, List.length_map, List.length_range] at hle
  refine Lib.holds_append.mpr ⟨h (by omega), ?_⟩
  intro i hi
  have hlt : i < n := by rwa [List.length_map, List.length_range] at hi
  rw [List.getElem_map, List.getElem_range, hdata i hlt, Nat.mod_eq_of_lt (by omega), Nat.zero_add]

/-- What the entry `e` has got is what the file holds, if it is open for this file. -/
structure Reader (handle e : Nat) (file : Nat → UInt8) (x : FileServer × Storage) : Prop where
  streaming : Streaming x
  content : x.2.content handle = file
  agrees : x.1.OpenOn e handle → Agrees file (x.2.received e)

/-- Something has been read only if the entry was open for the file already. -/
theorem Streaming.opened (h : Streaming x) (hs : (machine null).step x.1 a = some s')
    (hopen : s'.OpenOn e handle) : x.2.received e = [] ∨ x.1.OpenOn e handle := by
  obtain ⟨f', hf', file, hfile, -, hne, hhandle⟩ := hopen
  rcases step_entry_file h.wf hs hf' with ⟨f, hf, hsame⟩ | hle
  · by_cases hcached : file ∈ x.1.io.fileCache
    · exact Or.inr ⟨f, hf, file, hsame.symm.trans hfile, hcached, hne,
        (step_nfsHandle h.wf hs hcached).symm.trans hhandle⟩
    · exact Or.inl (h.streams.unused e f file hf (hsame.symm.trans hfile) hcached)
  · exact Or.inl (h.streams.fresh e hle).1

/-- A request finds the entry open for a file. -/
theorem Streaming.requested (h : Streaming x) {rpc : Rpc} {r : NfsReply}
    (hs : (machine null).step x.1 a = some s') (hans : x.1.Answers a rpc r)
    (he : rpc.entry = some e) (hopen : s'.OpenOn e handle) : x.1.OpenOn e handle := by
  obtain ⟨f, hf⟩ := entry_of_answers hs hans he
  obtain ⟨k, -, hrpc⟩ := hans
  obtain ⟨i, hcached, hi, hne, -⟩ :=
    (h.streams.requests rpc (List.mem_of_getElem? hrpc) e he).file f hf
  obtain ⟨f', hf', file, hfile, -, -, hhandle⟩ := hopen
  rcases step_entry_file h.wf hs hf' with ⟨g, hg, hsame⟩ | hle
  · obtain rfl := Option.some.inj (hf.symm.trans hg)
    have heq : i = file := Option.some.inj (hi.symm.trans (hsame.symm.trans hfile))
    subst heq
    exact ⟨f, hf, i, hi, hcached, hne, (step_nfsHandle h.wf hs hcached).symm.trans hhandle⟩
  · exact absurd (h.wf.entries.allocated e f hf) (Nat.not_lt.mpr hle)

/-- While nobody writes, a reader has read the front of the file. -/
theorem Reader.step {file : Nat → UInt8} (h : Reader handle e file x)
    (hok : Unwritten handle x a)
    (hs : (FileServer.streaming null content).step x a = some x') : Reader handle e file x' := by
  obtain ⟨hstep, hrecord⟩ := Lib.Machine.withHistory_step hs
  refine ⟨h.streaming.step hok.1 hs, (content_kept hrecord hok.2.2).trans h.content, ?_⟩
  intro hopen
  -- A step that does not copy anything for this entry.
  have hsame : x'.2.received e = x.2.received e → Agrees file (x'.2.received e) := by
    intro heq
    rw [heq]
    rcases h.streaming.opened hstep hopen with hnil | hbefore
    · rw [hnil]
      exact .nil file
    · exact h.agrees hbefore
  rcases record_cases x.1 a x'.1 x.2 with ⟨rpc, r, hans⟩ | ⟨-, -, hreceived⟩
  · have hanswer : x'.2 = x.2.answer rpc r x'.1.io.accesses :=
      hrecord.trans (record_answers hans x.2)
    cases rpc with
    | read e' handle' position count =>
        by_cases he : e = e'
        · subst he
          have hbefore := h.streaming.requested hstep hans rfl hopen
          have hhandle : handle' = handle := h.streaming.answers hans rfl hbefore
          have hreceived : x'.2.received e =
              x.2.received e ++ x'.1.io.accesses.flatMap Access.written := by
            rw [hanswer]
            exact Function.update_self ..
          obtain ⟨k, rfl, hrpc⟩ := hans
          have hposition := (h.streaming.streams.requests _ (List.mem_of_getElem? hrpc) e rfl).position
          obtain ⟨f', hf', -⟩ := hopen
          obtain ⟨-, hexec⟩ := step_eq_some hstep
          obtain ⟨io, hio, hx'⟩ := Option.map_eq_some_iff.mp hexec
          obtain ⟨rpc', hrpc', hcall⟩ := Option.bind_eq_some_iff.mp hio
          obtain rfl := Option.some.inj (hrpc.symm.trans hrpc')
          rw [← hx'] at hf' hreceived
          obtain ⟨-, f, -, hcases⟩ := Io.nfsReadCallback_cases hcall
          rcases hcases with hnone | ⟨-, hacc⟩ | ⟨hstatus, -, addr, hacc⟩
          · rw [hnone] at hf'
            cases hf'
          · refine hsame (hreceived.trans ?_)
            show _ ++ io.accesses.flatMap _ = _
            rw [hacc]
            exact List.append_nil _
          · obtain ⟨-, hdata⟩ := hok.2.1 (k, r) rfl _ hrpc rfl hstatus
            have hwritten : io.accesses.flatMap Access.written = (List.range r.bytesRead).map r.data := by
              rw [hacc]
              exact List.append_nil _
            rw [hreceived]
            show Agrees file (_ ++ io.accesses.flatMap _)
            rw [hwritten]
            refine (h.agrees hbefore).read fun i hi => ?_
            rw [hdata i hi, hposition]
            show x.2.content handle' _ = _
            rw [hhandle, h.content]
            rfl
        · refine hsame ?_
          rw [hanswer]
          exact Function.update_of_ne he ..
    | write e' handle' position count =>
        refine hsame ?_
        rw [hanswer]
        unfold Storage.answer
        dsimp only
        split
        · rfl
        · rfl
    | create i =>
        refine hsame ?_
        rw [hanswer]
        unfold Storage.answer
        dsimp only
        split
        · rfl
        · rfl
    | lookup i => exact hsame (by rw [hanswer]; rfl)
    | readdir cookie => exact hsame (by rw [hanswer]; rfl)
  · refine hsame ?_
    rw [hrecord]
    exact congrFun hreceived e

/-! ### Every run -/

/-- Two streams that agree with a file agree as far as both go. -/
theorem Agrees.take_eq {file : Nat → UInt8} {read written : List UInt8} (hread : Agrees file read)
    (hwritten : Agrees file written) (hread_le : read.length ≤ 2 ^ 32)
    (hwritten_le : written.length ≤ 2 ^ 32) :
    read.take written.length = written.take read.length := by
  refine List.ext_getElem ?_ ?_
  · rw [List.length_take, List.length_take, Nat.min_comm]
  · intro i hi hi'
    rw [List.length_take] at hi hi'
    rw [List.getElem_take, List.getElem_take, ← hread hread_le i (by omega),
      ← hwritten hwritten_le i (by omega)]

/-- What one descriptor has written to a file, another one reads. -/
theorem written_file_read_back {x₀ x₁ x₂ : FileServer × Storage} {e e' handle : Nat}
    (h₀ : (FileServer.streaming null content).Reachable (Lib.Machine.onState Orderly) x₀)
    (hopen : x₀.1.OpenOn e handle) (hsent : x₀.2.sent e = [])
    (h₁ : (FileServer.streaming null content).Path (WrittenBy handle e) x₀ x₁)
    (hreceived : x₁.2.received e' = [])
    (h₂ : (FileServer.streaming null content).Path (Unwritten handle) x₁ x₂)
    (hopen' : x₂.1.OpenOn e' handle) (hsent_le : (x₁.2.sent e).length ≤ 2 ^ 32)
    (hreceived_le : (x₂.2.received e').length ≤ 2 ^ 32) :
    (x₂.2.received e').take (x₁.2.sent e).length =
      (x₁.2.sent e).take (x₂.2.received e').length := by
  have hstart := Reachable.streaming h₀
  have hwriter : Writer handle e x₁ := by
    refine h₁.invariant (Writer handle e) (fun _ _ _ h hok hs => h.step hok hs) ?_
    obtain ⟨f, hf, hfile⟩ := hopen
    refine ⟨hstart, hstart.wf.entries.allocated e f hf, fun _ _ => ⟨f, hf, hfile⟩, ?_⟩
    rw [hsent]
    exact .nil _
  have hreader : Reader handle e' (x₁.2.content handle) x₂ := by
    refine h₂.invariant (Reader handle e' _) (fun _ _ _ h hok hs => h.step hok hs) ?_
    refine ⟨hwriter.streaming, rfl, fun _ => ?_⟩
    rw [hreceived]
    exact .nil _
  exact (hreader.agrees hopen').take_eq hwriter.agrees hreceived_le hsent_le

/-- Two bytes are written, and the answer arrives. -/
def writesAB : List FileAction :=
  [.writeFile 1 [1, 2] (some (namedPage [65, 66])) true, .nfsReply 1 (okReply 0o700)]

/-- The process opens the file again and reads four bytes, of which there are two. -/
def readsAB : List FileAction :=
  [.openFile 1 [oRdonly] (some (namedPage shell)), .readFile 1 [2, 4] (some (namedPage [])),
    .nfsReply 1 { okReply 0 with bytesRead := 2, data := fun i => [65, 66].getD i 0 }]

/-- Two bytes are written, and another descriptor reads them. -/
theorem written_file_read_back_twoBytes : ∃ x₁ x₂ : FileServer × Storage,
    x₁.2.sent 3 = [65, 66] ∧ (x₂.2.received 4).length = 2 ∧
      (x₂.2.received 4).take (x₁.2.sent 3).length = (x₁.2.sent 3).take (x₂.2.received 4).length := by
  -- One descriptor opened for writing, two bytes written, then a reader for both of them.
  obtain ⟨x₀, -, hreach, hopen, hsent, hrun⟩ := Lib.Machine.exists_run
    (FileServer.streaming none empty) (Lib.Machine.onState Orderly)
    (s := (booted, Storage.start empty)) ⟨booted_init, rfl⟩ openedShell
    (fun x₀ => x₀.1.OpenOn 3 7 ∧ x₀.2.sent 3 = [] ∧
      ((FileServer.streaming none empty).runIf (WrittenBy 7 3) x₀ writesAB).any fun x₁ =>
        x₁.2.sent 3 = [65, 66] ∧ x₁.2.received 4 = [] ∧
          ((FileServer.streaming none empty).runIf (Unwritten 7) x₁ readsAB).any fun x₂ =>
            x₂.1.OpenOn 4 7 ∧ (x₂.2.received 4).length = 2)
    (by decide +kernel)
  obtain ⟨x₁, hrun₁, hx₁⟩ := (Option.any_eq_true _ _).mp hrun
  obtain ⟨hsent₁, hreceived, hrun⟩ := of_decide_eq_true hx₁
  obtain ⟨x₂, hrun₂, hx₂⟩ := (Option.any_eq_true _ _).mp hrun
  obtain ⟨hopen', hlength⟩ := of_decide_eq_true hx₂
  refine ⟨x₁, x₂, hsent₁, hlength, ?_⟩
  exact written_file_read_back hreach hopen hsent (Lib.Machine.path_runIf hrun₁) hreceived
    (Lib.Machine.path_runIf hrun₂) hopen' (by rw [hsent₁]; decide) (by rw [hlength]; decide)

end FileServer

end Sos
