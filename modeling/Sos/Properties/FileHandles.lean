import Sos.Files.Reachable

/-!
# `Sos.Properties.FileHandles`: the lifetime of a `file_table_entry`

`file_handles_exact`: as long as no request for an entry with `awaits_callback` is answered,
and no message uses a descriptor that waits for an answer, the flag says exactly whether the
entry has an outstanding request, every entry is in the file table of an active process or
is freed by the callback of its one outstanding request, and no request carries a freed
entry.

The condition is needed (`file_handles_broken`). The callbacks never reset the flag: when a
process reads a file, gets its answer and is deleted, its entry is never freed. And nothing
stops a process from closing a descriptor with an outstanding request.
-/

set_option autoImplicit false

namespace Sos

namespace FileTables

/-- The flags are exact, and every allocated entry has an owner. -/
structure HandlesExact (c : FileTables) : Prop where
  flag : ∀ p fd e f, c.isActive p = true → c.Slot p fd e → c.entries e = some f →
    c.outstanding e = if f.awaitsCallback then 1 else 0
  owned : ∀ e f, c.entries e = some f →
    (∃ p fd, c.isActive p = true ∧ c.Slot p fd e) ∨
      (f.awaitsCallback = false ∧ c.outstanding e = 1)
  used : ∀ e, 0 < c.outstanding e → ∃ f, c.entries e = some f

/-- What the condition on the messages says about the tables. -/
structure Undisturbed (c : FileTables) (a : FileAction) : Prop where
  asks : ∀ p fd bit e f, a.descriptor = some (p, fd) → a.accessMode = some bit → c.Slot p fd e →
    c.entries e = some f → f.mode &&& bit ≠ 0 → f.awaitsCallback = false
  closes : ∀ p fd e f, a = .closeFile p [fd] → c.Slot p fd e → c.entries e = some f →
    f.awaitsCallback = false
  answers : ∀ k r rpc e f, a = .nfsReply k r → c.rpcs[k]? = some rpc → rpc.entry = some e →
    c.entries e = some f → f.awaitsCallback = false
  creates : ∀ p page heap, a = .createProcess p page heap → heap.awaitsCallback = false

variable {c c' : FileTables}

/-! ### Counting requests -/

/-- An answer takes one outstanding request away from the descriptor it is for. -/
theorem outstanding_answer {k : Nat} {rpc : Rpc} (hrpc : c.rpcs[k]? = some rpc) (e : Nat) :
    c.outstanding e = (c.answer k).outstanding e + if rpc.entry = some e then 1 else 0 := by
  obtain ⟨hk, hget⟩ := List.getElem?_eq_some_iff.mp hrpc
  have hperm := List.getElem_cons_eraseIdx_perm hk
  rw [hget] at hperm
  have hcount := hperm.countP_eq fun rpc => decide (rpc.entry = some e)
  rw [List.countP_cons] at hcount
  simp only [decide_eq_true_eq] at hcount
  exact hcount.symm

/-- The answer of a request for a file changes no count. -/
theorem outstanding_answer_file {k : Nat} {rpc : Rpc} (hrpc : c.rpcs[k]? = some rpc)
    (hnone : rpc.entry = none) (e : Nat) : (c.answer k).outstanding e = c.outstanding e := by
  rw [outstanding_answer hrpc e, hnone, if_neg nofun, Nat.add_zero]

/-- A request adds one to the descriptor it is for. -/
theorem outstanding_send (c : FileTables) (rpc : Rpc) (e : Nat) :
    (c.send rpc).outstanding e = c.outstanding e + if rpc.entry = some e then 1 else 0 := by
  show (c.rpcs ++ [rpc]).countP _ = _
  rw [List.countP_append, List.countP_cons, List.countP_nil, Nat.zero_add]
  simp only [decide_eq_true_eq]
  rfl

/-- A request that is for no descriptor adds none. -/
theorem outstanding_send_none (c : FileTables) {rpc : Rpc} (hnone : rpc.entry = none) (e : Nat) :
    (c.send rpc).outstanding e = c.outstanding e := by
  rw [outstanding_send, hnone, if_neg nofun, Nat.add_zero]

/-- A descriptor that no request is for. -/
theorem outstanding_eq_zero {e : Nat} (h : ∀ rpc ∈ c.rpcs, rpc.entry ≠ some e) :
    c.outstanding e = 0 := by
  unfold outstanding
  rw [List.countP_eq_zero]
  intro rpc hmem
  simpa using h rpc hmem

/-- A descriptor that a request is for. -/
theorem outstanding_pos {rpc : Rpc} {e : Nat} (hmem : rpc ∈ c.rpcs) (he : rpc.entry = some e) :
    0 < c.outstanding e :=
  List.countP_pos_iff.mpr ⟨rpc, hmem, by simpa using he⟩

/-- No request is for a descriptor that has not been made. -/
theorem EntriesOk.outstanding_new (h : c.EntriesOk) : c.outstanding c.nextEntry = 0 :=
  outstanding_eq_zero fun rpc hmem he => Nat.lt_irrefl _ (h.tokens rpc hmem _ he)

/-! ### One message -/

/-- A change of the files and of the requests for files. -/
theorem HandlesExact.of_same (h : c.HandlesExact) (hentries : c'.entries = c.entries)
    (htable : c'.filetable = c.filetable) (hactive : c'.isActive = c.isActive)
    (hcount : ∀ e, c'.outstanding e = c.outstanding e) : c'.HandlesExact where
  flag p fd e f hp hslot hf := by
    rw [hactive] at hp
    rw [Slot, htable] at hslot
    rw [hentries] at hf
    rw [hcount]
    exact h.flag p fd e f hp hslot hf
  owned e f hf := by
    rw [hentries] at hf
    rw [hcount, hactive]
    rcases h.owned e f hf with ⟨p, fd, hp, hslot⟩ | hkilled
    · refine Or.inl ⟨p, fd, hp, ?_⟩
      rw [Slot, htable]
      exact hslot
    · exact Or.inr hkilled
  used e hpos := by
    rw [hcount] at hpos
    rw [hentries]
    exact h.used e hpos

/-- An update that keeps the flag keeps the count. -/
theorem HandlesExact.setEntry (h : c.HandlesExact) {e : Nat} {f f' : FileTableEntry}
    (hf : c.entries e = some f) (hawaits : f'.awaitsCallback = f.awaitsCallback) :
    (c.setEntry e f').HandlesExact where
  flag p fd e' g hp hslot hg := by
    show c.outstanding e' = _
    -- Only the flag of an entry decides what the tables say about it, and `f'` keeps it.
    by_cases he : e' = e
    · subst he
      rw [setEntry_entries, Function.update_self, Option.some.injEq] at hg
      rw [← hg, hawaits]
      exact h.flag p fd e' f hp hslot hf
    · rw [setEntry_entries, Function.update_of_ne he] at hg
      exact h.flag p fd e' g hp hslot hg
  owned e' g hg := by
    by_cases he : e' = e
    · subst he
      rw [setEntry_entries, Function.update_self, Option.some.injEq] at hg
      rw [← hg, hawaits]
      exact h.owned e' f hf
    · rw [setEntry_entries, Function.update_of_ne he] at hg
      exact h.owned e' g hg
  used e' hpos := by
    by_cases he : e' = e
    · subst he
      exact ⟨f', Function.update_self ..⟩
    · rw [setEntry_entries, Function.update_of_ne he]
      exact h.used e' hpos

/-- A new entry in a free slot. -/
theorem HandlesExact.openSlot (h : c.HandlesExact) (hentries : c.EntriesOk) {p fd : Nat}
    {f : FileTableEntry} (hp : c.isActive p = true)
    (hfree : fd < processMaxFiles ∧ c.filetable p fd = none)
    (hidle : f.awaitsCallback = false) : (c.openSlot p fd f).HandlesExact where
  flag q fd' e g hq hslot hg := by
    show c.outstanding e = _
    rcases slot_openSlot hslot with ⟨rfl, rfl, rfl⟩ | ⟨-, hold⟩
    · rw [openSlot_entries, Function.update_self, Option.some.injEq] at hg
      rw [← hg, hidle]
      exact hentries.outstanding_new
    · rw [openSlot_entries, Function.update_of_ne (Nat.ne_of_lt (hentries.slot_lt hq hold))] at hg
      exact h.flag q fd' e g hq hold hg
  owned e g hg := by
    by_cases he : e = c.nextEntry
    · refine Or.inl ⟨p, fd, hp, hfree.1, ?_⟩
      rw [openSlot_filetable, Function.update_self, Function.update_self, he]
    · rw [openSlot_entries, Function.update_of_ne he] at hg
      rcases h.owned e g hg with ⟨q, fd', hq, hslot⟩ | hkilled
      · refine Or.inl ⟨q, fd', hq, hslot.1, ?_⟩
        rw [openSlot_filetable]
        by_cases hqp : q = p
        · subst hqp
          -- The slot that is filled was free.
          have hfd : fd' ≠ fd := by
            rintro rfl
            exact absurd (hfree.2.symm.trans hslot.2) nofun
          rw [Function.update_self, Function.update_of_ne hfd]
          exact hslot.2
        · rw [Function.update_of_ne hqp]
          exact hslot.2
      · exact Or.inr hkilled
  used e hpos := by
    by_cases he : e = c.nextEntry
    · subst he
      exact ⟨f, Function.update_self ..⟩
    · rw [openSlot_entries, Function.update_of_ne he]
      exact h.used e hpos

/-- A request for an entry that has none. -/
theorem HandlesExact.asked (h : c.HandlesExact) {p fd e : Nat} {f f' : FileTableEntry} {rpc : Rpc}
    (hp : c.isActive p = true) (hslot : c.Slot p fd e) (hf : c.entries e = some f)
    (hidle : f.awaitsCallback = false) (hrpc : rpc.entry = some e)
    (hawaits : f'.awaitsCallback = true) : ((c.send rpc).setEntry e f').HandlesExact where
  flag q fd' e' g hq hslot' hg := by
    show (c.send rpc).outstanding e' = _
    rw [outstanding_send, hrpc]
    -- The entry asked about gains one request and the flag; all other counts stay.
    by_cases he : e' = e
    · subst he
      rw [setEntry_entries, Function.update_self, Option.some.injEq] at hg
      rw [← hg, hawaits, h.flag p fd e' f hp hslot hf, hidle, if_neg nofun, if_pos rfl, if_pos rfl]
    · rw [setEntry_entries, Function.update_of_ne he] at hg
      rw [if_neg fun hsame => he (Option.some.inj hsame).symm]
      exact h.flag q fd' e' g hq hslot' hg
  owned e' g hg := by
    -- The entry asked about stands in a slot, so it needs no outstanding request to be owned.
    by_cases he : e' = e
    · subst he
      exact Or.inl ⟨p, fd, hp, hslot⟩
    · rw [setEntry_entries, Function.update_of_ne he] at hg
      show _ ∨ (_ ∧ (c.send rpc).outstanding e' = 1)
      rw [outstanding_send, hrpc, if_neg fun hsame => he (Option.some.inj hsame).symm]
      exact h.owned e' g hg
  used e' hpos := by
    by_cases he : e' = e
    · subst he
      exact ⟨f', Function.update_self ..⟩
    · rw [setEntry_entries, Function.update_of_ne he]
      change 0 < (c.send rpc).outstanding e' at hpos
      rw [outstanding_send, hrpc, if_neg fun hsame => he (Option.some.inj hsame).symm] at hpos
      exact h.used e' hpos

/-- An entry without an outstanding request is closed. -/
theorem HandlesExact.closeSlot (h : c.HandlesExact) (hentries : c.EntriesOk) {p fd e : Nat}
    {f : FileTableEntry} (hp : c.isActive p = true) (hslot : c.Slot p fd e)
    (hf : c.entries e = some f) (hidle : f.awaitsCallback = false) :
    (c.closeSlot p fd e).HandlesExact where
  flag q fd' e' g hq hslot' hg :=
    h.flag q fd' e' g hq (slot_closeSlot hslot').2 (entries_free hg)
  owned e' g hg := by
    have hold := entries_free hg
    have hne : e' ≠ e := by
      rintro rfl
      rw [closeSlot_entries, Function.update_self] at hg
      cases hg
    rcases h.owned e' g hold with ⟨q, fd', hq, hslot'⟩ | hkilled
    · have hother : ¬ (q = p ∧ fd' = fd) := by
        rintro ⟨rfl, rfl⟩
        exact hne (Option.some.inj (hslot'.2.symm.trans hslot.2))
      exact Or.inl ⟨q, fd', hq, (closeSlot_keeps hentries hq hp hslot' hslot hother).1⟩
    · exact Or.inr hkilled
  -- An entry that somebody still answers is not the one that is freed.
  used e' hpos := by
    have hne : e' ≠ e := by
      rintro rfl
      have hcount := h.flag p fd e' f hp hslot hf
      rw [hidle] at hcount
      change 0 < c.outstanding e' at hpos
      exact absurd hpos (by rw [hcount]; decide)
    rw [closeSlot_entries, Function.update_of_ne hne]
    exact h.used e' hpos

/-- The callback of an entry of a deleted process frees it. -/
theorem HandlesExact.dropped (h : c.HandlesExact) (hentries : c.EntriesOk) {k e : Nat} {rpc : Rpc}
    {f : FileTableEntry} (hrpc : c.rpcs[k]? = some rpc) (he : rpc.entry = some e)
    (hf : c.entries e = some f) (hkilled : f.awaitsCallback = false) :
    ((c.answer k).freeEntry e).HandlesExact := by
  have hmem := List.mem_of_getElem? hrpc
  -- An entry in a table would have the flag.
  have hnoslot : ∀ p fd, c.isActive p = true → ¬ c.Slot p fd e := fun p fd hp hslot =>
    absurd ((hentries.awaiting p fd e f hp hslot hf rpc hmem he).symm.trans hkilled) nofun
  -- So that this answer is its only one.
  have hone : c.outstanding e = 1 := by
    rcases h.owned e f hf with ⟨p, fd, hp, hslot⟩ | ⟨-, hone⟩
    · exact absurd hslot (hnoslot p fd hp)
    · exact hone
  have hcount (e' : Nat) (hne : e' ≠ e) :
      ((c.answer k).freeEntry e).outstanding e' = c.outstanding e' := by
    rw [outstanding_answer hrpc e', he, if_neg fun hsame => hne (Option.some.inj hsame).symm]
    rfl
  constructor
  case flag =>
    intro p fd e' g hp hslot hg
    have hne : e' ≠ e := by
      rintro rfl
      exact hnoslot p fd hp hslot
    rw [hcount e' hne]
    exact h.flag p fd e' g hp hslot (entries_free hg)
  case owned =>
    intro e' g hg
    have hne : e' ≠ e := by
      rintro rfl
      exact absurd ((Function.update_self ..).symm.trans hg) nofun
    rw [hcount e' hne]
    exact h.owned e' g (entries_free hg)
  case used =>
    intro e' hpos
    have hne : e' ≠ e := by
      rintro rfl
      have hleft := outstanding_answer hrpc e'
      rw [he, if_pos rfl, hone] at hleft
      change 0 < (c.answer k).outstanding e' at hpos
      omega
    rw [hcount e' hne] at hpos
    show ∃ g, Function.update c.entries e none e' = some g
    rw [Function.update_of_ne hne]
    exact h.used e' hpos

/-- A new process whose descriptor 0 does not have the flag. -/
theorem HandlesExact.register (h : c.HandlesExact) (hentries : c.EntriesOk) {p : Nat}
    {t : ThreadId} {f : FileTableEntry} (hp : c.isActive p = false)
    (hidle : f.awaitsCallback = false) : (c.register p t f).HandlesExact where
  flag q fd e g hq hslot hg := by
    show c.outstanding e = _
    -- The new console entry, or a slot that an earlier registration filled.
    rcases slot_register hslot with ⟨rfl, rfl, rfl⟩ | ⟨hne, hold⟩
    · rw [register_entries, Function.update_self, Option.some.injEq] at hg
      rw [← hg, hidle]
      exact hentries.outstanding_new
    · have hact := isActive_register hne hq
      rw [register_entries, Function.update_of_ne (Nat.ne_of_lt (hentries.slot_lt hact hold))] at hg
      exact h.flag q fd e g hact hold hg
  owned e g hg := by
    -- The new entry is owned by slot 0 of the registered process.
    by_cases he : e = c.nextEntry
    · refine Or.inl ⟨p, 0, Function.update_self .., by decide, ?_⟩
      rw [register_filetable, Function.update_self, Function.update_self, he]
    · rw [register_entries, Function.update_of_ne he] at hg
      rcases h.owned e g hg with ⟨q, fd, hq, hslot⟩ | hkilled
      · have hne : q ≠ p := by
          rintro rfl
          exact absurd (hq.symm.trans hp) nofun
        refine Or.inl ⟨q, fd, ?_, hslot.1, ?_⟩
        · rw [register_isActive, Function.update_of_ne hne, hq]
        · rw [register_filetable, Function.update_of_ne hne]
          exact hslot.2
      · exact Or.inr hkilled
  used e hpos := by
    by_cases he : e = c.nextEntry
    · subst he
      exact ⟨f, Function.update_self ..⟩
    · rw [register_entries, Function.update_of_ne he]
      exact h.used e hpos

/-- A process is deleted: what it has outstanding is left to the callbacks. -/
theorem HandlesExact.deleted (h : c.HandlesExact) (hentries : c.EntriesOk) {p : Nat}
    (hcloses : c.Closes p (List.range processMaxFiles) c') (hp : c.isActive p = true) :
    HandlesExact { c' with isActive := Function.update c'.isActive p false } := by
  have hcount (e : Nat) : c'.outstanding e = c.outstanding e := by
    unfold outstanding
    rw [hcloses.rpcs]
  -- An entry of the deleted process is killed or freed.
  have hmine (fd e : Nat) (f : FileTableEntry) (hslot : c.Slot p fd e) (hf : c.entries e = some f) :
      c'.entries e = if f.awaitsCallback then some { f with awaitsCallback := false } else none := by
    have hmem := List.mem_range.mpr hslot.1
    cases hawaits : f.awaitsCallback with
    | true => exact hcloses.killed fd hmem e f hslot.2 hf hawaits
    | false => exact hcloses.freed fd hmem e f hslot.2 hf hawaits
  constructor
  case flag =>
    intro q fd e g hq hslot hg
    obtain ⟨hne, hact⟩ := isActive_update_false hq
    rw [hcloses.isActive] at hact
    have hold := hcloses.slot hne hslot
    change c'.entries e = some g at hg
    rw [Closes.kept hentries hcloses hp hact hne hold] at hg
    show c'.outstanding e = _
    rw [hcount]
    exact h.flag q fd e g hact hold hg
  case owned =>
    intro e g hg
    change c'.entries e = some g at hg
    show _ ∨ (_ ∧ c'.outstanding e = 1)
    rw [hcount]
    by_cases hslot : ∃ fd, c.Slot p fd e
    · obtain ⟨fd, hslot⟩ := hslot
      obtain ⟨f, hf⟩ := hentries.slots p fd e hp hslot
      rw [hmine fd e f hslot hf] at hg
      cases hawaits : f.awaitsCallback with
      | true =>
          rw [hawaits, if_pos rfl, Option.some.injEq] at hg
          refine Or.inr ⟨hg ▸ rfl, ?_⟩
          rw [h.flag p fd e f hp hslot hf, hawaits, if_pos rfl]
      | false =>
          rw [hawaits] at hg
          cases hg
    · have hother : c'.entries e = c.entries e := by
        refine hcloses.other e fun fd hmem he => hslot ⟨fd, List.mem_range.mp hmem, he⟩
      rw [hother] at hg
      rcases h.owned e g hg with ⟨q, fd, hq, hqslot⟩ | hkilled
      · have hne : q ≠ p := by
          rintro rfl
          exact hslot ⟨fd, hqslot⟩
        refine Or.inl ⟨q, fd, ?_, hqslot.1, ?_⟩
        · show Function.update c'.isActive p false q = true
          rw [Function.update_of_ne hne, hcloses.isActive, hq]
        · show c'.filetable q fd = some e
          rw [hcloses.filetable q hne]
          exact hqslot.2
      · exact Or.inr hkilled
  case used =>
    intro e hpos
    change 0 < c'.outstanding e at hpos
    rw [hcount] at hpos
    show ∃ g, c'.entries e = some g
    obtain ⟨f, hf⟩ := h.used e hpos
    by_cases hslot : ∃ fd, c.Slot p fd e
    · obtain ⟨fd, hslot⟩ := hslot
      have hflag := h.flag p fd e f hp hslot hf
      cases hawaits : f.awaitsCallback with
      | true =>
          rw [hmine fd e f hslot hf, hawaits, if_pos rfl]
          exact ⟨_, rfl⟩
      | false =>
          rw [hawaits] at hflag
          exact absurd hpos (by rw [hflag]; decide)
    · refine ⟨f, ?_⟩
      rw [hcloses.other e fun fd hmem he => hslot ⟨fd, List.mem_range.mp hmem, he⟩, hf]

/-- So does a request that is for no descriptor. -/
theorem HandlesExact.send (h : c.HandlesExact) {rpc : Rpc} (hnone : rpc.entry = none) :
    (c.send rpc).HandlesExact :=
  h.of_same rfl rfl rfl (outstanding_send_none c hnone)

/-- So does a request for a new file. -/
theorem HandlesExact.request (h : c.HandlesExact) {i : FileInfo} {rpc : Nat → Rpc}
    (hnone : (rpc c.nextFile).entry = none) : (c.request i rpc).HandlesExact :=
  (h.send hnone).of_same rfl rfl rfl fun _ => rfl

/-- The lookups of one part of the listing, by induction on the names. -/
theorem HandlesExact.listed (h : c.HandlesExact) (names : List (List UInt8)) :
    (names.foldl lookup c).HandlesExact := by
  induction names generalizing c with
  | nil => exact h
  | cons name names ih =>
      rw [List.foldl_cons]
      exact ih (h.request rfl)

/-- The answer of a request for a file. -/
theorem HandlesExact.answer (h : c.HandlesExact) {k : Nat} {rpc : Rpc}
    (hrpc : c.rpcs[k]? = some rpc) (hnone : rpc.entry = none) : (c.answer k).HandlesExact :=
  h.of_same rfl rfl rfl (outstanding_answer_file hrpc hnone)

/-- A request for a file is for no descriptor. -/
theorem entry_of_file {rpc : Rpc} {file : Nat} (h : rpc.file = some file) :
    rpc.entry = none := by
  cases rpc with
  | create | lookup | readdir => rfl
  | read | write => cases h

/-- A step that leaves the flags in order keeps the count, by cases on the step. -/
theorem HandlesExact.outcome {a : FileAction} (h : c.HandlesExact) (hentries : c.EntriesOk)
    (hsent : c.Sent a) (hok : c.Undisturbed a) (ho : c.Outcome a c') : c'.HandlesExact := by
  cases ho with
  | same => exact h
  | buffers _ hf hsame => exact h.setEntry hf hsame.awaitsCallback
  | requested => exact h.request rfl
  | opened _ hfree hopens =>
      exact h.openSlot hentries (hsent.opens _ _ _ rfl).2.2.1 hfree hopens.awaitsCallback
  | @acquired p _ _ file _ _ _ hfree hopens =>
      have hreader : (c.setReader file (threadId p)).HandlesExact :=
        h.of_same rfl rfl rfl fun _ => rfl
      have hentries' : (c.setReader file (threadId p)).EntriesOk :=
        hentries.of_same rfl rfl rfl rfl fun _ hmem _ _ => hmem
      exact hreader.openSlot hentries' (hsent.opens _ _ _ rfl).2.2.1 hfree hopens.awaitsCallback
  | asked ha haccess hslot hf hsame _ _ hrpc _ hmode =>
      exact h.asked (hsent.names _ _ ha).2.2.1 hslot hf
        (hok.asks _ _ _ _ _ ha haccess hslot hf hmode) hrpc hsame.awaitsCallback
  | closed hslot hf =>
      exact h.closeSlot hentries (hsent.names _ _ rfl).2.2.1 hslot hf
        (hok.closes _ _ _ _ rfl hslot hf)
  | @released _ _ _ file _ hslot hf =>
      have hreader : (c.setReader file nilthread).HandlesExact :=
        h.of_same rfl rfl rfl fun _ => rfl
      have hentries' : (c.setReader file nilthread).EntriesOk :=
        hentries.of_same rfl rfl rfl rfl fun _ hmem _ _ => hmem
      exact hreader.closeSlot hentries' (hsent.names _ _ rfl).2.2.1 hslot hf
        (hok.closes _ _ _ _ rfl hslot hf)
  | answered hrpc he hf hawaits =>
      -- The condition excludes the answer of an entry with the flag.
      exact absurd (hawaits.symm.trans (hok.answers _ _ _ _ _ rfl hrpc he hf)) nofun
  | dropped hrpc he hf hkilled => exact h.dropped hentries hrpc he hf hkilled
  | failed hrpc hfile =>
      exact (h.answer hrpc (entry_of_file hfile)).of_same rfl rfl rfl fun _ => rfl
  | cached hrpc hfile =>
      exact (h.answer hrpc (entry_of_file hfile)).of_same rfl rfl rfl fun _ => rfl
  | @created k file _ _ i _ hrpc _ _ _ _ hactive hfree hopens =>
      have hinsert : ((c.answer k).insert file i).HandlesExact :=
        (h.answer hrpc rfl).of_same rfl rfl rfl fun _ => rfl
      have hentries' : ((c.answer k).insert file i).EntriesOk :=
        (hentries.answer k).of_same rfl rfl rfl rfl fun _ hmem _ _ => hmem
      exact hinsert.openSlot hentries' hactive hfree hopens.awaitsCallback
  | @listed _ r _ hrpc =>
      have hall := (h.answer hrpc rfl).listed r.listed
      unfold follow
      split
      · exact hall.send rfl
      · exact hall
  | @registered p _ heap _ _ hopens =>
      exact h.register hentries (hsent.creates _ _ _ rfl)
        (hopens.2.2.2.trans (hok.creates _ _ _ rfl))
  | deleted hcloses => exact h.deleted hentries hcloses (hsent.deletes _ rfl).2.2.1

end FileTables

/-! ### Freeing an entry does not stop the server -/

namespace Io

/-- The search in a file table returns if every descriptor in it is there. -/
theorem findEntry_total (s : Io) (pid : Nat) {q : Nat → FileTableEntry → Option Bool}
    (fds : List Nat) (h : ∀ fd ∈ fds, ∀ e, s.filetable pid fd = some e →
      ∃ f b, s.entries e = some f ∧ q e f = some b) : ∃ r, s.findEntry pid q fds = some r := by
  induction fds with
  | nil => exact ⟨none, rfl⟩
  | cons fd fds ih =>
      obtain ⟨r, hrest⟩ := ih fun fd' hmem => h fd' (List.mem_cons_of_mem _ hmem)
      unfold findEntry
      cases hslot : s.filetable pid fd with
      | none => exact ⟨r, hrest⟩
      | some e =>
          obtain ⟨f, b, hf, hq⟩ := h fd List.mem_cons_self e hslot
          dsimp only
          rw [hf, Option.bind_eq_bind, Option.bind_some, hq, Option.bind_eq_bind, Option.bind_some]
          cases b with
          | true => exact ⟨some e, rfl⟩
          | false => exact ⟨r, hrest⟩

/-- The entries in these slots are allocated and have files. -/
def Opened (s : Io) (p : Nat) (fds : List Nat) : Prop :=
  ∀ fd ∈ fds, ∀ e, s.filetable p fd = some e →
    ∃ f file, s.entries e = some f ∧ f.file = some file

/-- `close_serial` returns: its search looks at the owner's table. -/
theorem closeSerial_total {s : Io} {p fd e : Nat} {f : FileTableEntry}
    (hopen : s.Opened p (List.range processMaxFiles)) (hfd : fd < processMaxFiles)
    (hslot : s.filetable p fd = some e) (hf : s.entries e = some f)
    (howner : f.owner = threadId p) :
    ∃ s', s.closeSerial e = some s' ∧ s'.entries = s.entries := by
  obtain ⟨f₀, file, hf₀, hfile⟩ := hopen fd (List.mem_range.mpr hfd) e hslot
  have hff : f₀ = f := Option.some.inj (hf₀.symm.trans hf)
  subst hff
  unfold closeSerial
  rw [hf, Option.bind_eq_bind, Option.bind_some]
  by_cases hwrite : f₀.mode &&& fmRead = 0
  -- Without read access close_serial touches nothing.
  · exact ⟨s, by rw [if_pos hwrite], rfl⟩
  -- Otherwise it looks through the other descriptors for a second reader of this console.
  · obtain ⟨r, hfind⟩ := findEntry_total s p (List.range processMaxFiles)
      (q := fun entry' f' => do
        let file' ← f'.file
        some (decide (e ≠ entry') && decide (f'.mode &&& fmRead ≠ 0) &&
          (s.files file').serialHandle == (s.files file).serialHandle)) (by
        intro fd' hmem e' hslot'
        obtain ⟨f', file', hf', hfile'⟩ := hopen fd' hmem e' hslot'
        exact ⟨f', _, hf', by rw [hfile']; rfl⟩)
    rw [if_neg hwrite, hfile, howner, tid2pid_threadId, Option.bind_eq_bind, Option.bind_some]
    dsimp only
    rw [hfind, Option.bind_eq_bind, Option.bind_some]
    cases r with
    -- Another reader is left: the console keeps its handle; else it is reset.
    | some e' => exact ⟨s, rfl, rfl⟩
    | none => exact ⟨_, rfl, rfl⟩

/-- `close_file` returns for every message. -/
theorem closeFile_total {s : Io} {p : Nat} (words : List Nat)
    (hopen : s.Opened p (List.range processMaxFiles))
    (howner : ∀ fd e f, fd < processMaxFiles → s.filetable p fd = some e →
      s.entries e = some f → f.owner = threadId p) :
    ∃ r, s.closeFile (threadId p) words = some r := by
  unfold closeFile
  split
  next fd =>
    cases hvalid : s.isValidFiledescriptor (threadId p) fd with
    | none => exact ⟨_, rfl⟩
    | some e =>
        obtain ⟨hfd, hslot⟩ :=
          isValidFiledescriptor_spec (fun _ => true) threadId hvalid
        obtain ⟨f, file, hf, hfile⟩ := hopen fd (List.mem_range.mpr hfd) e hslot
        -- Only the console has a close routine of its own; the entry itself is freed after it.
        have hclose : ∃ s', s.closeDevice e (s.files file).device = some s' ∧
            s'.entries = s.entries := by
          unfold closeDevice
          cases (s.files file).device with
          | serial =>
              exact closeSerial_total hopen hfd hslot hf (howner fd e f hfd hslot hf)
          | nfs => exact ⟨s, rfl, rfl⟩
        obtain ⟨s', hs', hentries⟩ := hclose
        dsimp only
        rw [hf, Option.bind_eq_bind, Option.bind_some, hfile, Option.bind_eq_bind,
          Option.bind_some, hs', Option.bind_eq_bind, Option.bind_some, freeEntry, hentries, hf]
        exact ⟨_, rfl⟩
  next => exact ⟨_, rfl⟩

/-- One turn of the loop over the descriptors returns. -/
theorem closeEntry_total {s : Io} {p : Nat} (fd : Nat) (t : ThreadId) (hopen : s.Opened p [fd]) :
    ∃ s', closeEntry p t s fd = some s' := by
  unfold closeEntry
  cases hslot : s.filetable p fd with
  | none => exact ⟨s, rfl⟩
  | some e =>
      obtain ⟨f, file, hf, hfile⟩ := hopen fd (List.mem_singleton.mpr rfl) e hslot
      dsimp only
      rw [hf, Option.bind_eq_bind, Option.bind_some]
      cases f.awaitsCallback with
      -- An entry that still awaits its answer only loses the flag, the callback frees it later.
      | true => exact ⟨_, rfl⟩
      | false =>
          rw [hfile, if_neg nofun, Option.bind_eq_bind, Option.bind_some]
          -- Resetting the reader of the file changes no entry.
          have hkept : (if (s.files file).reader = t then
              s.updateFile file fun i => { i with reader := nilthread } else s).entries e =
                some f := by
            split
            · exact hf
            · exact hf
          rw [freeEntry, hkept]
          exact ⟨_, rfl⟩

/-- The whole loop returns, by induction on the slots that are left: a turn closes no descriptor
of a later one. -/
theorem closeFiles_total {s : Io} {p : Nat} {fds : List Nat} (hopen : s.Opened p fds)
    (hnodup : fds.Nodup) (hinj : ∀ fd ∈ fds, ∀ fd' ∈ fds, ∀ e, s.filetable p fd = some e →
      s.filetable p fd' = some e → fd = fd') :
    ∃ s', fds.foldlM (closeEntry p (threadId p)) s = some s' := by
  induction fds generalizing s with
  | nil => exact ⟨s, rfl⟩
  | cons fd fds ih =>
      obtain ⟨s₁, hs₁⟩ := closeEntry_total fd (threadId p) (s := s) (p := p)
        fun fd' hmem => hopen fd' (List.mem_singleton.mp hmem ▸ List.mem_cons_self)
      have hhead := closeEntry_closes (fun _ => true) threadId hs₁
      obtain ⟨hnot, hnodup⟩ := List.nodup_cons.mp hnodup
      have hsame : ∀ fd' ∈ fds, s₁.filetable p fd' = s.filetable p fd' := fun fd' hmem =>
        hhead.rest fd' fun hfd => hnot (List.mem_singleton.mp hfd ▸ hmem)
      rw [List.foldlM_cons, hs₁, Option.bind_eq_bind, Option.bind_some]
      refine ih ?_ hnodup ?_
      · intro fd' hmem e he
        rw [hsame fd' hmem] at he
        obtain ⟨f, file, hf, hfile⟩ := hopen fd' (List.mem_cons_of_mem _ hmem) e he
        -- The entry is not the one of the first slot.
        have hother : s₁.entries e = s.entries e := by
          refine hhead.other e fun fd₁ hmem₁ he₁ => ?_
          rw [List.mem_singleton.mp hmem₁] at he₁
          have hfd := hinj fd List.mem_cons_self fd' (List.mem_cons_of_mem _ hmem) e he₁ he
          exact hnot (hfd ▸ hmem)
        exact ⟨f, file, hother.trans hf, hfile⟩
      · intro fd₁ hmem₁ fd₂ hmem₂ e he₁ he₂
        rw [hsame fd₁ hmem₁] at he₁
        rw [hsame fd₂ hmem₂] at he₂
        exact hinj fd₁ (List.mem_cons_of_mem _ hmem₁) fd₂ (List.mem_cons_of_mem _ hmem₂) e he₁ he₂

end Io

namespace FileServer

/-! ### The condition -/

/-- The flag of an entry is not set. -/
def Idle (f : Option FileTableEntry) : Prop := ∀ g ∈ f, g.awaitsCallback = false

instance (f : Option FileTableEntry) : Decidable (Idle f) := by
  unfold Idle
  infer_instance

/-- The condition on a message: a request that is sent, a descriptor that is closed and a
request that is answered have an entry whose flag is not set, and `malloc` returns memory
without it. -/
def KeepsHandles (s : FileServer) : FileAction → Prop
  | .readFile p [fd, _] (some _) =>
    Idle ((s.io.canRead (threadId p) fd).join.map Prod.snd)
  | .writeFile p [fd, toWrite] (some _) _ =>
    toInt32 toWrite ≤ ipcMemorySize → Idle ((s.io.canWrite (threadId p) fd).join.map Prod.snd)
  | .closeFile p [fd] =>
    Idle ((s.io.isValidFiledescriptor (threadId p) fd).bind s.io.entries)
  | .nfsReply k _ => Idle ((s.io.rpcs[k]?.bind Rpc.entry).bind s.io.entries)
  | .createProcess _ _ heap => heap.awaitsCallback = false
  | _ => True

instance (s : FileServer) (a : FileAction) : Decidable (s.KeepsHandles a) := by
  match a with
  | .readFile _ [_, _] (some _) => exact inferInstanceAs (Decidable (Idle _))
  | .writeFile _ [_, _] (some _) _ => exact inferInstanceAs (Decidable (_ → Idle _))
  | .closeFile _ [_] => exact inferInstanceAs (Decidable (Idle _))
  | .nfsReply .. => exact inferInstanceAs (Decidable (Idle _))
  | .createProcess .. => exact inferInstanceAs (Decidable (_ = false))
  | .readFile _ [_, _] none | .readFile _ [] _ | .readFile _ [_] _ | .readFile _ (_ :: _ :: _ :: _) _
  | .writeFile _ [_, _] none _ | .writeFile _ [] _ _ | .writeFile _ [_] _ _
  | .writeFile _ (_ :: _ :: _ :: _) _ _ | .closeFile _ [] | .closeFile _ (_ :: _ :: _)
  | .openFile .. | .serialReceive _ | .deleteProcess _ => exact inferInstanceAs (Decidable True)

variable {null : Option (List UInt8)} {s s' : FileServer}

/-- The check of the mode passes for a slot whose descriptor has the mode. -/
theorem canAccess_of_slot {p fd bit e : Nat} {f : FileTableEntry} (hslot : s.tables.Slot p fd e)
    (hf : s.tables.entries e = some f) (hmode : f.mode &&& bit ≠ 0) :
    s.io.canAccess (threadId p) fd bit = some (some (e, f)) := by
  have hvalid : s.io.isValidFiledescriptor (threadId p) fd = some e := by
    rw [Io.isValidFiledescriptor, tid2pid_threadId, if_pos hslot.1]
    exact hslot.2
  have hentry : s.io.entries e = some f := hf
  rw [Io.canAccess, hvalid]
  dsimp only
  rw [hentry, Option.bind_eq_bind, Option.bind_some, if_pos hmode]

/-- The condition on the server's state is one on its tables. -/
theorem KeepsHandles.undisturbed {a : FileAction} (h : s.KeepsHandles a) :
    s.tables.Undisturbed a where
  asks p fd bit e f ha hmode hslot hf hbit := by
    have haccess := canAccess_of_slot hslot hf hbit
    -- One case for each message that names a descriptor: read, write, getdirent and close.
    unfold FileAction.descriptor at ha
    split at ha
    · cases ha
      next page =>
      cases page with
      | none => cases hmode
      | some page =>
          cases hmode
          refine h f ?_
          rw [Io.canRead, haccess]
          rfl
    · cases ha
      next page allocated =>
      cases page with
      | none => cases hmode
      | some page =>
          rw [FileAction.accessMode] at hmode
          split at hmode
          · cases hmode
          next hlimit =>
            cases hmode
            refine h (Int.not_lt.mp hlimit) f ?_
            rw [Io.canWrite, haccess]
            rfl
    · cases ha
      cases hmode
    · cases ha
  closes p fd e f ha hslot hf := by
    subst ha
    refine h f ?_
    rw [Io.isValidFiledescriptor, tid2pid_threadId, if_pos hslot.1]
    exact Option.bind_eq_some_iff.mpr ⟨e, hslot.2, hf⟩
  answers k r rpc e f ha hrpc he hf := by
    subst ha
    refine h f ?_
    exact Option.bind_eq_some_iff.mpr ⟨e, Option.bind_eq_some_iff.mpr ⟨rpc, hrpc, he⟩, hf⟩
  creates p page heap ha := by
    subst ha
    exact h

/-! ### Every run -/

/-- After booting no descriptor waits for an answer. -/
theorem booted_exact {c : FileTables} {heap : FileTableEntry} (h : Booted c heap)
    (hheap : heap.awaitsCallback = false) : c.HandlesExact := by
  have hzero (e : Nat) : c.outstanding e = 0 :=
    FileTables.outstanding_eq_zero fun rpc hmem he =>
      absurd ((h.no_tokens hmem).symm.trans he) nofun
  obtain ⟨f, g, hentries, hf, hg⟩ := h.entries
  have hidle (e : Nat) (f' : FileTableEntry) (hf' : c.entries e = some f') :
      f'.awaitsCallback = false := by
    rcases h.entry.mp ⟨f', hf'⟩ with rfl | rfl
    · rw [hentries, Function.update_of_ne (by decide), Function.update_self,
        Option.some.injEq] at hf'
      rw [← hf', hf, hheap]
    · rw [hentries, Function.update_self, Option.some.injEq] at hf'
      rw [← hf', hg]
  constructor
  case flag =>
    intro p fd e f' hp hslot hf'
    rw [hzero, hidle e f' hf', if_neg nofun]
  case owned =>
    intro e f' hf'
    -- Both entries are in the server's own file table.
    refine Or.inl ⟨0, e, by rw [h.isActive]; rfl, ?_⟩
    rcases h.entry.mp ⟨f', hf'⟩ with rfl | rfl
    · exact ⟨by decide, by rw [h.filetable]; rfl⟩
    · exact ⟨by decide, by rw [h.filetable]; rfl⟩
  case used =>
    intro e hpos
    rw [hzero] at hpos
    exact absurd hpos (Nat.lt_irrefl 0)

/-- By induction on the run. -/
theorem exact_of_path {rootThread : ThreadId} {heap : FileTableEntry} {s₀ : FileServer}
    (hboot : boot rootThread heap = some s₀) (hheap : heap.awaitsCallback = false)
    (hrun : (machine null).Path KeepsHandles s₀ s) : s.tables.Wf ∧ s.tables.HandlesExact := by
  have hbooted := boot_booted hboot
  refine hrun.invariant (fun s => s.tables.Wf ∧ s.tables.HandlesExact) ?_
    ⟨hbooted.wf, booted_exact hbooted hheap⟩
  rintro s a s' ⟨hwf, hexact⟩ hok hs
  obtain ⟨ho, hwf'⟩ := step_wf hwf hs
  obtain ⟨hen, -⟩ := step_eq_some hs
  exact ⟨hwf', hexact.outcome hwf.entries hen.sent hok.undisturbed ho⟩

/-- The entry is in the file table of an active process. -/
def InUse (s : FileServer) (e : Nat) : Prop :=
  ∃ p fd, s.isActive p = true ∧ s.tables.Slot p fd e

/-- The lifetime of the entries. -/
structure ExactHandles (null : Option (List UInt8)) (s : FileServer) : Prop where
  /-- The flag is set exactly when a request is outstanding, and there is no second one. -/
  flag : ∀ p fd e f, s.isActive p = true → s.tables.Slot p fd e → s.io.entries e = some f →
    (f.awaitsCallback = true ↔ s.tables.outstanding e = 1) ∧ s.tables.outstanding e ≤ 1
  /-- No request carries a freed entry. -/
  used : ∀ rpc ∈ s.io.rpcs, ∀ e, rpc.entry = some e → ∃ f, s.io.entries e = some f
  /-- Other entries wait for the answer of one request. -/
  notLeaked : ∀ e f, s.io.entries e = some f → ¬ s.InUse e →
    f.awaitsCallback = false ∧ s.tables.outstanding e = 1
  /-- The callback of this request frees them. -/
  freed : ∀ k r rpc e f, s.io.rpcs[k]? = some rpc → rpc.entry = some e →
    s.io.entries e = some f → ¬ s.InUse e →
    ∃ s', (machine null).step s (.nfsReply k r) = some s' ∧ s'.io.entries e = none
  /-- `close_file` does not free an entry twice. -/
  closes : ∀ p words, s.Enabled (.closeFile p words) →
    ∃ s', (machine null).step s (.closeFile p words) = some s'
  /-- Nor does `delete_process`, which frees the entries that no request carries. -/
  deletes : ∀ p, s.Live p → ∃ s', (machine null).step s (.deleteProcess p) = some s' ∧
    ∀ fd e f, s.tables.Slot p fd e → s.io.entries e = some f →
      s'.io.entries e =
        if f.awaitsCallback then some { f with awaitsCallback := false } else none

/-- All descriptors of a process that is there can be closed. -/
theorem opened_of_live {p : Nat} (hwf : s.tables.Wf) (hp : s.Live p) :
    s.io.cleared.Opened p (List.range processMaxFiles) := by
  intro fd hmem e he
  have hslot : s.tables.Slot p fd e := ⟨List.mem_range.mp hmem, he⟩
  obtain ⟨f, hf⟩ := hwf.entries.slots p fd e hp.2.2.1 hslot
  obtain ⟨file, -, hfile, -⟩ := (hwf.handles p fd e f hp.1 hp.2.2.1 hslot hf).file
  exact ⟨f, file, hf, hfile⟩

/-- A close is a step in every state that allows it. -/
theorem step_closeFile {p : Nat} {words : List Nat} (hwf : s.tables.Wf)
    (hen : s.Enabled (.closeFile p words)) :
    ∃ s', (machine null).step s (.closeFile p words) = some s' := by
  obtain ⟨r, hr⟩ := Io.closeFile_total words (opened_of_live hwf hen.1)
    fun fd e f hfd he hf =>
      (hwf.handles p fd e f hen.1.1 hen.1.2.2.1 ⟨hfd, he⟩ hf).owner hen.1.2.2.2
  refine ⟨{ s with io := r.1 }, ?_⟩
  show (if s.Enabled (.closeFile p words) then _ else none) = _
  rw [if_pos hen]
  exact Option.map_eq_some_iff.mpr ⟨r, hr, rfl⟩

/-- So is a deletion: a descriptor is freed, or marked if an answer is on its way. -/
theorem step_deleteProcess {p : Nat} (hwf : s.tables.Wf) (hp : s.Live p) :
    ∃ s', (machine null).step s (.deleteProcess p) = some s' ∧
      ∀ fd e f, s.tables.Slot p fd e → s.io.entries e = some f →
        s'.io.entries e =
          if f.awaitsCallback then some { f with awaitsCallback := false } else none := by
  -- Two slots of one process never hold the same entry, so the loop closes each entry once.
  have hinj : ∀ fd ∈ List.range processMaxFiles, ∀ fd' ∈ List.range processMaxFiles, ∀ e,
      s.io.cleared.filetable p fd = some e → s.io.cleared.filetable p fd' = some e → fd = fd' :=
    fun fd hfd fd' hfd' e he he' =>
      (hwf.entries.injective p p fd fd' e hp.2.2.1 hp.2.2.1 ⟨List.mem_range.mp hfd, he⟩
        ⟨List.mem_range.mp hfd', he'⟩).2
  obtain ⟨io, hio⟩ := Io.closeFiles_total (opened_of_live hwf hp) List.nodup_range hinj
  have hcloses := Io.closeFiles_closes s.isActive s.tid hio
    List.nodup_range hinj
  refine ⟨{ s with io := io, isActive := Function.update s.isActive p false }, ?_, ?_⟩
  · show (if s.Live p then _ else none) = _
    rw [if_pos hp]
    exact Option.map_eq_some_iff.mpr ⟨io, hio, rfl⟩
  · intro fd e f hslot hf
    have hmem := List.mem_range.mpr hslot.1
    cases hawaits : f.awaitsCallback with
    | true => exact hcloses.killed fd hmem e f hslot.2 hf hawaits
    | false => exact hcloses.freed fd hmem e f hslot.2 hf hawaits

/-- The callback of an entry that is killed frees it, whatever the answer is. -/
theorem step_nfsReply_killed {k e : Nat} {r : NfsReply} {rpc : Rpc} {f : FileTableEntry}
    (hrpc : s.io.rpcs[k]? = some rpc) (he : rpc.entry = some e) (hf : s.io.entries e = some f)
    (hkilled : f.awaitsCallback = false) :
    ∃ s', (machine null).step s (.nfsReply k r) = some s' ∧ s'.io.entries e = none := by
  obtain ⟨hk, -⟩ := List.getElem?_eq_some_iff.mp hrpc
  refine ⟨{ s with io :=
      { s.io.cleared with
        rpcs := s.io.rpcs.eraseIdx k
        entries := Function.update s.io.entries e none } }, ?_, Function.update_self ..⟩
  have hcleared : s.io.cleared.rpcs[k]? = some rpc := hrpc
  have hentry : s.io.cleared.entries e = some f := hf
  show (if k < s.io.rpcs.length then (s.io.cleared.nfsReply s.isActive k r).map _ else none) = _
  rw [if_pos hk, Io.nfsReply, hcleared, Option.bind_eq_bind, Option.bind_some]
  -- Only reads and writes carry an entry; their callback finds the flag cleared and frees it.
  cases rpc with
  | create | lookup | readdir => cases he
  | read entry | write entry =>
      obtain rfl := Option.some.inj he
      simp [Io.callback, Io.nfsReadCallback, Io.nfsWriteCallback, Io.freeEntry, hentry, hkilled]
      exact ⟨rfl, rfl⟩

/-- The lifetime of the entries, in every run that meets the condition. -/
theorem file_handles_exact {rootThread : ThreadId} {heap : FileTableEntry} {s₀ : FileServer}
    (hboot : boot rootThread heap = some s₀) (hheap : heap.awaitsCallback = false)
    (hrun : (machine null).Path KeepsHandles s₀ s) : ExactHandles null s := by
  obtain ⟨hwf, hexact⟩ := exact_of_path hboot hheap hrun
  -- An entry out of use belongs to a process deleted while the answer was on its way.
  have howned (e : Nat) (f : FileTableEntry) (hf : s.io.entries e = some f)
      (hno : ¬ s.InUse e) : f.awaitsCallback = false ∧ s.tables.outstanding e = 1 :=
    (hexact.owned e f hf).resolve_left hno
  constructor
  case flag =>
    intro p fd e f hp hslot hf
    have hcount := hexact.flag p fd e f hp hslot hf
    cases hawaits : f.awaitsCallback with
    | true =>
        rw [hawaits, if_pos rfl] at hcount
        rw [hcount]
        exact ⟨⟨fun _ => rfl, fun _ => rfl⟩, Nat.le_refl 1⟩
    | false =>
        rw [hawaits, if_neg nofun] at hcount
        rw [hcount]
        exact ⟨⟨nofun, nofun⟩, Nat.zero_le 1⟩
  case used => exact fun rpc hmem e he => hexact.used e (FileTables.outstanding_pos hmem he)
  case notLeaked => exact howned
  case freed =>
    intro k r rpc e f hrpc he hf hno
    exact step_nfsReply_killed hrpc he hf (howned e f hf hno).1
  case closes => exact fun p words hen => step_closeFile hwf hen
  case deletes => exact fun p hp => step_deleteProcess hwf hp

/-- A process is deleted while a read is outstanding. -/
theorem file_handles_exact_killed : ∃ s : FileServer,
    s.isActive 1 = false ∧ s.tables.outstanding 3 = 1 ∧ ExactHandles none s := by
  obtain ⟨s, hrun, -, hkilled⟩ := Lib.Machine.exists_run (machine none) KeepsHandles booted_init
    (startup ++ [.openFile 1 [oRdonly] (some (namedPage shell)),
      .readFile 1 [1, 4] (some (namedPage [])), .deleteProcess 1])
    (fun s => s.isActive 1 = false ∧ s.tables.outstanding 3 = 1) (by decide +kernel)
  exact ⟨s, hkilled.1, hkilled.2, file_handles_exact (Option.some_get _).symm rfl
    (Lib.Machine.path_runIf hrun)⟩

/-- A flag that is set without a request, an entry of a deleted process that no callback will
free, and a request that carries a freed entry. -/
theorem file_handles_broken :
    (∃ s f, (machine none).Reachable Lib.Machine.anyStep s ∧ s.isActive 1 = true ∧
      s.tables.Slot 1 1 3 ∧ s.io.entries 3 = some f ∧ f.awaitsCallback = true ∧
      s.tables.outstanding 3 = 0) ∧
    (∃ s f, (machine none).Reachable Lib.Machine.anyStep s ∧ s.io.entries 3 = some f ∧
      f.owner = threadId 1 ∧ s.isActive 1 = false ∧ s.tables.outstanding 3 = 0) ∧
    ∃ s, (machine none).Reachable Lib.Machine.anyStep s ∧
      (∃ rpc ∈ s.io.rpcs, rpc.entry = some 3) ∧ s.io.entries 3 = none := by
  have hrun (actions : List FileAction) (P : FileServer → Prop) [DecidablePred P] :=
    Lib.Machine.exists_run (machine none) Lib.Machine.anyStep booted_init (startup ++ actions) P
  refine ⟨?_, ?_, ?_⟩
  -- The flag is left set by the answer with `NFS_OK` to a read.
  · obtain ⟨s, -, hreach, hactive, hslot, hf, hcount⟩ := hrun
      [.openFile 1 [oRdonly] (some (namedPage shell)), .readFile 1 [1, 4] (some (namedPage [])),
        .nfsReply 1 (okReply 0)]
      (fun s => s.isActive 1 = true ∧ s.tables.Slot 1 1 3 ∧
        (s.io.entries 3).any (·.awaitsCallback) = true ∧ s.tables.outstanding 3 = 0)
      (by decide +kernel)
    obtain ⟨f, hf, hawaits⟩ := (Option.any_eq_true ..).mp hf
    exact ⟨s, f, hreach, hactive, hslot, hf, hawaits, hcount⟩
  -- So a later delete only clears the flag and nobody frees the entry.
  · obtain ⟨s, -, hreach, hf, hactive, hcount⟩ := hrun
      [.openFile 1 [oRdonly] (some (namedPage shell)), .readFile 1 [1, 4] (some (namedPage [])),
        .nfsReply 1 (okReply 0), .deleteProcess 1]
      (fun s => (s.io.entries 3).any (·.owner = threadId 1) = true ∧ s.isActive 1 = false ∧
        s.tables.outstanding 3 = 0)
      (by decide +kernel)
    obtain ⟨f, hf, howner⟩ := (Option.any_eq_true ..).mp hf
    exact ⟨s, f, hreach, hf, of_decide_eq_true howner, hactive, hcount⟩
  -- Closing the descriptor frees the entry while the answer is still under way.
  · obtain ⟨s, -, hreach, hrpc, hf⟩ := hrun
      [.openFile 1 [oRdonly] (some (namedPage shell)), .readFile 1 [1, 4] (some (namedPage [])),
        .closeFile 1 [1]]
      (fun s => (∃ rpc ∈ s.io.rpcs, rpc.entry = some 3) ∧ s.io.entries 3 = none)
      (by decide +kernel)
    exact ⟨s, hreach, hrpc, hf⟩

end FileServer

end Sos
