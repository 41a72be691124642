import Sos.Client.Stubs
import Sos.Properties.Replies

/-!
# `Sos.Properties.ProcessStatus`: `process_status` honours its limit

`get_process_status` writes a `process_t` for each active process to the IPC page, in the order of
the table, and replies their number; the stub copies that many. `reported` says which processes
these should be: the first ones, as many as the caller wants and as there are in a page.

`process_status_iff`: this is what happens, and nothing is written behind the page, if and only
if the limit is not zero or there is no active process. The loop compares the count with the
limit after it has written an entry, so that a limit of zero is none at all (`no_limit`).
-/

set_option autoImplicit false

namespace Sos

open Lib (store storeString)

/-! ### The bytes of the entries -/

/-- What `get_process_status` stores for a process, in its order. -/
def storeProcess (mem : Nat → UInt8) (dest : Nat) (e : ProcessT) : Nat → UInt8 :=
  let mem := storeString mem (dest + 16) e.command
  let mem := store mem dest (wordMemory e.pid)
  let mem := store mem (dest + 4) (wordMemory e.size)
  let mem := store mem (dest + 8) (wordMemory e.stime)
  store mem (dest + 12) (wordMemory e.ctime)

def storeProcesses (mem : Nat → UInt8) (dest : Nat) : List ProcessT → Nat → UInt8
  | [] => mem
  | e :: rest => storeProcesses (storeProcess mem dest e) (dest + sizeofProcessT) rest

/-- There is a `process_t` in memory. Its name has a terminating zero if it is not as long as
`command`. -/
structure HoldsProcess (mem : Nat → UInt8) (dest : Nat) (e : ProcessT) : Prop where
  pid : Lib.Holds mem dest (wordMemory e.pid)
  size : Lib.Holds mem (dest + 4) (wordMemory e.size)
  stime : Lib.Holds mem (dest + 8) (wordMemory e.stime)
  ctime : Lib.Holds mem (dest + 12) (wordMemory e.ctime)
  command : Lib.Holds mem (dest + 16) ((e.command ++ [0]).take nName)

section

variable {mem mem' : Nat → UInt8} {dest : Nat} {e : ProcessT} {entries : List ProcessT}

/-- The first bytes of what memory holds. -/
theorem holds_take {a n : Nat} {bytes : List UInt8} (h : Lib.Holds mem a bytes) :
    Lib.Holds mem a (bytes.take n) := by
  intro i hi
  rw [List.getElem_take]
  exact h i (hi.trans_le (List.length_take_le' _ _))

/-- A record that has been stored is there. -/
theorem holdsProcess_storeProcess (mem : Nat → UInt8) (dest : Nat) (e : ProcessT) :
    HoldsProcess (storeProcess mem dest e) dest e := by
  have word {a b w w' : Nat} (h : a + 4 ≤ b) :
      a + (wordMemory w).length ≤ b ∨ b + (wordMemory w').length ≤ a := Or.inl h
  constructor
  case pid => exact (((Lib.holds_store _ _ _).store (word (Nat.le_refl _))).store
    (word (by omega))).store (word (by omega))
  case size => exact ((Lib.holds_store _ _ _).store (word (Nat.le_refl _))).store (word (by omega))
  case stime => exact (Lib.holds_store _ _ _).store (word (Nat.le_refl _))
  case ctime => exact Lib.holds_store _ _ _
  case command =>
    -- The words are all before the name.
    have before {k w : Nat} (hk : k + 4 ≤ 16) : dest + k + (wordMemory w).length ≤ dest + 16 := by
      rw [length_wordMemory]
      omega
    exact holds_take (((((Lib.holds_store _ _ _).store (Or.inr (before (k := 0) (by decide)))).store
      (Or.inr (before (by decide)))).store (Or.inr (before (by decide)))).store
      (Or.inr (before (by decide))))

/-- An entry does not write more than its size and one byte. -/
theorem storeProcess_outside {a : Nat} (hname : e.command.length ≤ nName)
    (ha : a < dest ∨ dest + sizeofProcessT < a) : storeProcess mem dest e a = mem a := by
  simp only [sizeofProcessT, nName] at ha hname
  unfold storeProcess storeString
  rw [Lib.store_outside, Lib.store_outside, Lib.store_outside, Lib.store_outside,
    Lib.store_outside]
  all_goals
    simp only [List.length_append, List.length_singleton, length_wordMemory]
    omega

/-- Storing the records touches no other byte, but for the zero of the last name. -/
theorem storeProcesses_outside {a : Nat} (hnames : ∀ e ∈ entries, e.command.length ≤ nName)
    (ha : a < dest ∨ dest + entries.length * sizeofProcessT < a) :
    storeProcesses mem dest entries a = mem a := by
  induction entries generalizing mem dest with
  | nil => rfl
  | cons e rest ih =>
      rw [List.length_cons, Nat.succ_mul] at ha
      rw [storeProcesses, ih (fun e he => hnames e (List.mem_cons_of_mem _ he)) (by omega),
        storeProcess_outside (hnames e List.mem_cons_self) (by omega)]

/-- A record in any memory that agrees on its bytes. -/
theorem HoldsProcess.congr (h : HoldsProcess mem dest e) {dest' : Nat}
    (heq : ∀ i < sizeofProcessT, mem' (dest' + i) = mem (dest + i)) :
    HoldsProcess mem' dest' e := by
  have part {k : Nat} {bytes : List UInt8} (hpart : Lib.Holds mem (dest + k) bytes)
      (hk : k + bytes.length ≤ sizeofProcessT) : Lib.Holds mem' (dest' + k) bytes := by
    intro i hi
    rw [Nat.add_assoc, heq _ (by omega), ← Nat.add_assoc]
    exact hpart i hi
  have hcommand : ((e.command ++ [0]).take nName).length ≤ nName := List.length_take_le _ _
  simp only [sizeofProcessT] at part
  constructor
  case pid => exact part (k := 0) h.pid (by rw [length_wordMemory]; omega)
  case size => exact part h.size (by rw [length_wordMemory]; omega)
  case stime => exact part h.stime (by rw [length_wordMemory]; omega)
  case ctime => exact part h.ctime (by rw [length_wordMemory]; omega)
  case command => exact part h.command (by omega)

/-- The entries are all in memory: a later one does not write to an earlier one. -/
theorem holdsProcess_storeProcesses (hnames : ∀ e ∈ entries, e.command.length ≤ nName) {k : Nat}
    (hk : entries[k]? = some e) :
    HoldsProcess (storeProcesses mem dest entries) (dest + k * sizeofProcessT) e := by
  induction entries generalizing mem dest k with
  | nil => cases hk
  | cons e' rest ih =>
      have hrest : ∀ e ∈ rest, e.command.length ≤ nName :=
        fun e he => hnames e (List.mem_cons_of_mem _ he)
      cases k with
      | zero =>
          obtain rfl : e' = e := Option.some.inj hk
          rw [Nat.zero_mul, Nat.add_zero, storeProcesses]
          refine (holdsProcess_storeProcess mem dest e').congr fun i hi => ?_
          rw [storeProcesses_outside hrest (Or.inl (by omega))]
      | succ k =>
          rw [storeProcesses, Nat.succ_mul, Nat.add_comm (k * sizeofProcessT), ← Nat.add_assoc]
          exact ih hrest hk

/-- What the stub copies. -/
theorem copyProcesses_apply (ipc mem : Nat → UInt8) (processes returned a : Nat) :
    Client.copyProcesses ipc mem processes returned a =
      if processes ≤ a ∧ a < processes + returned * sizeofProcessT then ipc (a - processes)
      else mem a := by
  -- Induction on the records copied: the last one is written over what is there.
  induction returned with
  | zero => exact (if_neg (by omega)).symm
  | succ n ih =>
      have hsucc : Client.copyProcesses ipc mem processes (n + 1) a =
          memcpy (Client.copyProcesses ipc mem processes n) (processes + n * sizeofProcessT)
            (fun a => ipc (n * sizeofProcessT + a)) sizeofProcessT a := by
        unfold Client.copyProcesses
        rw [List.range_succ, List.foldl_append]
        rfl
      rw [hsucc, memcpy, Nat.succ_mul]
      -- Either the address lies in the last record, or in one before, or in none.
      by_cases hlast : processes + n * sizeofProcessT ≤ a ∧
          a < processes + n * sizeofProcessT + sizeofProcessT
      · rw [if_pos hlast, if_pos (by omega)]
        congr 1
        omega
      · rw [if_neg hlast, ih]
        by_cases hbefore : processes ≤ a ∧ a < processes + n * sizeofProcessT
        · rw [if_pos hbefore, if_pos (by omega)]
        · rw [if_neg hbefore, if_neg (by omega)]

end

/-! ### The loop over the table -/

namespace Server

variable {s : Server} {max : Nat}

/-- The processes that should be reported. -/
def reported (s : Server) (max : Nat) : List ProcessT :=
  (((List.range maxRunningProcess).filter fun i => (s.mm.ptable i).isActive).take
    (min max (pageSize / sizeofProcessT))).map fun i => s.statusEntry (s.mm.ptable i)

/-- The loop takes active processes until the count is the limit, when it is still below. -/
theorem statusEntries_eq_take {limit added : Nat} (indices : List Nat) (h : added < limit) :
    s.statusEntries limit indices added =
      ((indices.filter fun i => (s.mm.ptable i).isActive).take (limit - added)).map
        fun i => s.statusEntry (s.mm.ptable i) := by
  -- Induction on the slots left; `added` counts what the page holds already.
  induction indices generalizing added with
  | nil => rw [statusEntries, List.filter_nil, List.take_nil, List.map_nil]
  | cons i rest ih =>
      rw [statusEntries]
      by_cases hactive : (s.mm.ptable i).isActive = true
      · obtain ⟨left, hleft⟩ : ∃ left, limit - added = left + 1 := ⟨limit - added - 1, by omega⟩
        rw [if_pos hactive, List.filter_cons, if_pos hactive, hleft, List.take_succ_cons,
          List.map_cons]
        -- The record that reaches the limit is the last one written.
        by_cases hlast : added + 1 = limit
        · obtain rfl : left = 0 := by omega
          rw [if_pos hlast, List.take_zero, List.map_nil]
        · rw [if_neg hlast, ih (by omega)]
          congr
          omega
      · rw [if_neg hactive, List.filter_cons, if_neg hactive, ih h]

/-- Without an active process nothing is written. -/
theorem statusEntries_inactive {limit added : Nat} {indices : List Nat}
    (h : ∀ i ∈ indices, (s.mm.ptable i).isActive = false) :
    s.statusEntries limit indices added = [] := by
  induction indices with
  | nil => rfl
  | cons i rest ih =>
      rw [statusEntries, h i List.mem_cons_self, if_neg Bool.false_ne_true,
        ih fun j hj => h j (List.mem_cons_of_mem _ hj)]

/-- One active process is enough for an entry, whatever the limit. -/
theorem inactive_of_statusEntries {limit added : Nat} {indices : List Nat}
    (h : s.statusEntries limit indices added = []) :
    ∀ i ∈ indices, (s.mm.ptable i).isActive = false := by
  induction indices with
  | nil => exact nofun
  | cons i rest ih =>
      rw [statusEntries] at h
      by_cases hactive : (s.mm.ptable i).isActive = true
      · rw [if_pos hactive] at h
        cases h
      · rw [if_neg hactive] at h
        exact List.forall_mem_cons.mpr ⟨Bool.not_eq_true _ ▸ hactive, ih h⟩

/-- The names are as long as `create_process` takes them from the IPC page. -/
def NamesFit (s : Server) : Prop :=
  ∀ i < maxRunningProcess, (s.mm.ptable i).isActive = true →
    (s.mm.ptable i).command.length ≤ nName

/-- A call of `process_status` with this limit reports the processes it should. `page` and `mem`
are the IPC page and the other memory of the caller before the call. -/
structure HonoursLimit (s : Server) (max : Nat) (page : IpcPage) (mem : Nat → UInt8)
    (processes : Nat) (entries : List ProcessT) : Prop where
  reply : s.getProcessStatus [max] (some page) =
    (some [(entries.length : Int)], some (.processes entries))
  reported : entries = s.reported max
  limit : entries.length ≤ max
  /-- Nothing is written behind the page. -/
  inside : ∀ a, pageSize ≤ a → storeProcesses page.bytes 0 entries a = page.bytes a
  received : ∃ mem', Client.processStatus (storeProcesses page.bytes 0 entries) mem processes max
      entries.length = some (entries.length, mem') ∧
    (∀ (k : Nat) e, entries[k]? = some e → HoldsProcess mem' (processes + k * sizeofProcessT) e) ∧
    ∀ a, (a < processes ∨ processes + entries.length * sizeofProcessT ≤ a) → mem' a = mem a

/-- No more records than are asked for and than fit into the page. -/
theorem length_reported_le (s : Server) (max : Nat) :
    (s.reported max).length ≤ min max (pageSize / sizeofProcessT) := by
  rw [reported, List.length_map]
  exact List.length_take_le _ _

/-- The records have the names of the table. -/
theorem NamesFit.reported (h : s.NamesFit) : ∀ e ∈ s.reported max, e.command.length ≤ nName := by
  intro e he
  obtain ⟨i, hi, rfl⟩ := List.mem_map.mp he
  obtain ⟨hrange, hactive⟩ := List.mem_filter.mp (List.mem_of_mem_take hi)
  exact h i (List.mem_range.mp hrange) hactive

/-- What the loop writes is what should be reported. -/
theorem statusEntries_eq_reported
    (h : 0 < max ∨ ∀ i < maxRunningProcess, (s.mm.ptable i).isActive = false) :
    s.statusEntries (min max (pageSize / sizeofProcessT)) (List.range maxRunningProcess) 0 =
      s.reported max := by
  rcases h with hpos | hinactive
  · exact statusEntries_eq_take _ (lt_min hpos (by decide))
  · have hnone : ∀ i ∈ List.range maxRunningProcess, (s.mm.ptable i).isActive = false :=
      fun i hi => hinactive i (List.mem_range.mp hi)
    rw [statusEntries_inactive hnone, Server.reported, List.filter_eq_nil_iff.mpr, List.take_nil,
      List.map_nil]
    intro i hi
    rw [hnone i hi]
    exact Bool.false_ne_true

/-- The stub copies the records that the server has stored. -/
theorem honoursLimit_reported (hnames : s.NamesFit) (page : IpcPage) (mem : Nat → UInt8)
    {processes : Nat} (hprocesses : processes ≠ 0)
    (h : 0 < max ∨ ∀ i < maxRunningProcess, (s.mm.ptable i).isActive = false) :
    s.HonoursLimit max page mem processes (s.reported max) := by
  have hlength := length_reported_le s max
  have hmax : (s.reported max).length ≤ max := hlength.trans (min_le_left _ _)
  constructor
  case reply =>
    rw [getProcessStatus, statusEntries_eq_reported h]
  case reported => rfl
  case limit => exact hmax
  case inside =>
    intro a ha
    refine storeProcesses_outside hnames.reported (Or.inr ?_)
    -- 85 records fill the page.
    have hentries : (s.reported max).length ≤ 85 := hlength.trans (min_le_right _ _)
    simp only [pageSize, sizeofProcessT, nName] at ha ⊢
    omega
  case received =>
    refine ⟨Client.copyProcesses (storeProcesses page.bytes 0 (s.reported max)) mem processes
      (s.reported max).length, ?_, fun k e hk => ?_, fun a ha => ?_⟩
    · rw [Client.processStatus, if_neg hprocesses, if_pos hmax]
    · have hlt : k < (s.reported max).length := (List.getElem?_eq_some_iff.mp hk).1
      have hle : (k + 1) * sizeofProcessT ≤ (s.reported max).length * sizeofProcessT :=
        Nat.mul_le_mul_right _ hlt
      rw [Nat.succ_mul] at hle
      have hholds : HoldsProcess (storeProcesses page.bytes 0 (s.reported max))
          (0 + k * sizeofProcessT) e := holdsProcess_storeProcesses hnames.reported hk
      refine hholds.congr fun i hi => ?_
      rw [copyProcesses_apply, if_pos (by omega)]
      congr 1
      omega
    · rw [copyProcesses_apply, if_neg (by omega)]

/-- A limit of zero is not kept when there is an active process. -/
theorem HonoursLimit.inactive {page : IpcPage} {mem : Nat → UInt8} {processes : Nat}
    {entries : List ProcessT} (h : s.HonoursLimit 0 page mem processes entries) :
    ∀ i < maxRunningProcess, (s.mm.ptable i).isActive = false := by
  obtain rfl : entries = [] := List.length_eq_zero_iff.mp (Nat.le_zero.mp h.limit)
  have hreply := congrArg Prod.snd h.reply
  rw [getProcessStatus] at hreply
  have hnil := PageData.processes.inj (Option.some.inj hreply)
  exact fun i hi => inactive_of_statusEntries hnil i (List.mem_range.mpr hi)

/-- `process_status` honours its limit if and only if the limit is not zero or there is no active
process. -/
theorem process_status_iff (hnames : s.NamesFit) (page : IpcPage) (mem : Nat → UInt8)
    {processes : Nat} (hprocesses : processes ≠ 0) :
    (∃ entries, s.HonoursLimit max page mem processes entries) ↔
      0 < max ∨ ∀ i < maxRunningProcess, (s.mm.ptable i).isActive = false := by
  constructor
  · rintro ⟨entries, h⟩
    rcases Nat.eq_zero_or_pos max with rfl | hpos
    · exact Or.inr h.inactive
    · exact Or.inl hpos
  · exact fun h => ⟨_, honoursLimit_reported hnames page mem hprocesses h⟩

instance (s : Server) : Decidable s.NamesFit :=
  inferInstanceAs (Decidable (∀ i < maxRunningProcess, _ → _))

/-- Two processes run, and a caller that wants two entries gets those of the server and of the
first process. -/
theorem process_status_twoOfThree : ∃ (s : Mm) (entries : List ProcessT),
    s.Reachable Mm.anyStep ∧ (s.ptable 2).isActive = true ∧
      HonoursLimit ⟨s, FileServer.booted.io, Clock.started⟩ 2 (FileServer.namedPage [])
        (fun _ => 0) 4096 entries ∧
      entries.map (·.pid) = [0, 1] := by
  obtain ⟨s, -, hreach, hactive, hnames, hpids⟩ := Mm.exists_runOn Mm.anyStep
    (Mm.Boot.small_ok Nat.two_pos (by decide)) [.createProcess [115] 0, .createProcess [116] 0]
    (fun s => (s.ptable 2).isActive = true ∧
      NamesFit ⟨s, FileServer.booted.io, Clock.started⟩ ∧
      (reported ⟨s, FileServer.booted.io, Clock.started⟩ 2).map (·.pid) = [0, 1])
    (by decide +kernel)
  have hkept : ∃ entries, HonoursLimit ⟨s, FileServer.booted.io, Clock.started⟩ 2
      (FileServer.namedPage []) (fun _ => 0) 4096 entries :=
    (process_status_iff hnames _ _ (by decide)).mpr (Or.inl (by decide))
  obtain ⟨entries, hlimit⟩ := hkept
  exact ⟨s, entries, hreach, hactive, hlimit, by rw [hlimit.reported]; exact hpids⟩

/-- With a limit of zero the server still reports itself. -/
theorem no_limit : ¬ ∃ entries,
    bootedSystem.server.HonoursLimit 0 (FileServer.namedPage []) (fun _ => 0) 4096 entries := by
  rintro ⟨entries, h⟩
  have hactive : (bootedSystem.server.mm.ptable 0).isActive = true := by decide +kernel
  exact absurd (hactive.symm.trans (h.inactive 0 (by decide))) nofun

end Server

end Sos
