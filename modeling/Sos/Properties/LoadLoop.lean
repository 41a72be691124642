import Sos.Client.Initializer

/-!
# `Sos.Properties.LoadLoop`: the initializer loads the file

`Serves` is what the calls of `read` get from the server: pieces of the file, one after the other,
and then 0 for the end of the file, or -1 from some call on. `LoadsOrFails` is what is expected of
the initializer: its loop ends, the file is at `HEAP_START` when no call has failed, and a failure
is reported with `process_start`.

`load_loop_iff`: this is so if and only if no call fails. The loop takes -1 for a number of bytes
and reads on (`loop_runs_on`). The file has to fit into the address space above `HEAP_START`;
`create_process` refuses files of more than 4 MB.
-/

set_option autoImplicit false

namespace Sos

namespace Client

variable {reads : Nat → Nat × (Nat → UInt8)} {file : List UInt8} {stop k : Nat}

/-- The bytes that the first `k` calls have read. -/
def bytesBefore (reads : Nat → Nat × (Nat → UInt8)) (k : Nat) : Nat :=
  ((List.range k).map fun j => (reads j).1).sum

/-- A call of `read` that fails. -/
def Fails (reads : Nat → Nat × (Nat → UInt8)) (k : Nat) : Prop := toInt32 (reads k).1 = -1

/-- The calls before `stop` read between 1 and 512 bytes of the file, one piece after the other,
and from `stop` on they are at the end of the file, or fail. -/
structure Serves (file : List UInt8) (reads : Nat → Nat × (Nat → UInt8)) (stop : Nat) : Prop where
  counts : ∀ k < stop, 1 ≤ (reads k).1 ∧ (reads k).1 ≤ 512
  within : bytesBefore reads stop ≤ file.length
  data : ∀ k < stop,
    Lib.Holds (reads k).2 0 ((file.drop (bytesBefore reads k)).take (reads k).1)
  ending : (bytesBefore reads stop = file.length ∧ ∀ k ≥ stop, (reads k).1 = 0) ∨
    ∀ k ≥ stop, Fails reads k

/-- The loop ends, with the file in memory when no call has failed, and with a 0 for
`process_start` when one has. -/
def LoadsOrFails (elfLoadFile : (Nat → UInt8) → Nat → Int) (file : List UInt8)
    (reads : Nat → Nat × (Nat → UInt8)) (mem : Nat → UInt8) : Prop :=
  ∃ turns loaded ret, initializer elfLoadFile reads mem turns = some (loaded, ret) ∧
    ((∀ k, ¬ Fails reads k) → Lib.Holds loaded heapStart file) ∧
    ((∃ k, Fails reads k) → ret = 0)

/-- One call more reads its own bytes more. -/
theorem bytesBefore_succ (reads : Nat → Nat × (Nat → UInt8)) (k : Nat) :
    bytesBefore reads (k + 1) = bytesBefore reads k + (reads k).1 := by
  rw [bytesBefore, List.range_succ, List.map_append, List.sum_append, List.map_singleton,
    List.sum_singleton]
  rfl

/-- Later calls start further back in the file. -/
theorem bytesBefore_mono {j : Nat} (h : j ≤ k) : bytesBefore reads j ≤ bytesBefore reads k := by
  induction k with
  | zero =>
      obtain rfl := Nat.le_zero.mp h
      exact Nat.le_refl _
  | succ k ih =>
      rcases Nat.lt_or_eq_of_le h with hlt | rfl
      · rw [bytesBefore_succ]
        exact (ih (Nat.le_of_lt_succ hlt)).trans (Nat.le_add_right _ _)
      · exact Nat.le_refl _

/-! ### One turn -/

/-- A number of bytes that has been read is copied. -/
theorem read_count (ipc mem : Nat → UInt8) {buf word : Nat} (hbuf : buf ≠ 0)
    (hword : word ≤ 512) :
    read ipc mem buf 512 word = some ((word : Int), memcpy mem buf ipc word) := by
  have hint : toInt32 word = word := toInt32_of_lt (by omega)
  have hmod : word % 2 ^ 32 = word := Nat.mod_eq_of_lt (by omega)
  unfold read
  simp only
  rw [hint, hmod, if_neg hbuf, if_neg (by decide), if_neg (by omega),
    if_pos ⟨by simp only [maxIoBuf]; omega, hword⟩]

/-- An error, or the null pointer, changes nothing. -/
theorem read_error (ipc mem : Nat → UInt8) {buf word : Nat}
    (h : buf = 0 ∨ toInt32 word = -1) : read ipc mem buf 512 word = some (-1, mem) := by
  unfold read
  by_cases hbuf : buf = 0
  · rw [if_pos hbuf]
  · simp only
    rw [if_neg hbuf, if_neg (by decide), if_pos (h.resolve_left hbuf)]

/-- A turn at the end of the file is the last one. -/
theorem loadTurn_eof {s : Loading} (hcopy : s.copyTo ≠ 0) (h : (reads s.calls).1 = 0) :
    loadTurn reads s = some (.inr (memcpy s.mem s.copyTo (reads s.calls).2 0)) := by
  have hread := read_count (reads s.calls).2 s.mem hcopy (Nat.zero_le 512)
  unfold loadTurn
  simp only [h, hread, Option.bind_eq_bind, Option.bind_some]
  rfl

/-- A turn that has read bytes copies them and goes on behind them. -/
theorem loadTurn_count {s : Loading} (hcopy : s.copyTo ≠ 0) (hpos : 1 ≤ (reads s.calls).1)
    (hword : (reads s.calls).1 ≤ 512) :
    loadTurn reads s = some (.inl ⟨s.calls + 1,
      memcpy s.mem s.copyTo (reads s.calls).2 (reads s.calls).1,
      ((s.copyTo + (reads s.calls).1 : Int) % 2 ^ 32).toNat⟩) := by
  have hread := read_count (reads s.calls).2 s.mem hcopy hword
  unfold loadTurn
  simp only [hread, Option.bind_eq_bind, Option.bind_some]
  rw [if_neg (by omega)]

/-- So does a turn that has read -1. -/
theorem loadTurn_error {s : Loading} (h : s.copyTo = 0 ∨ Fails reads s.calls) :
    loadTurn reads s =
      some (.inl ⟨s.calls + 1, s.mem, ((s.copyTo + -1 : Int) % 2 ^ 32).toNat⟩) := by
  have hread := read_error (reads s.calls).2 s.mem h
  unfold loadTurn
  simp only [hread, Option.bind_eq_bind, Option.bind_some]
  rfl

/-! ### The loop -/

/-- A loop that never reads the end of the file is never left. -/
theorem loop_runs_on (h : ∀ k, 1 ≤ (reads k).1 ∧ (reads k).1 ≤ 512 ∨ Fails reads k)
    (s : Loading) (turns : Nat) : Lib.iterate (loadTurn reads) turns s = none := by
  refine Lib.iterate_runs_on (fun _ => True) (fun s _ => ?_) trivial turns
  by_cases hcopy : s.copyTo = 0
  · exact ⟨_, loadTurn_error (Or.inl hcopy), trivial⟩
  · rcases h s.calls with ⟨hpos, hword⟩ | herror
    · exact ⟨_, loadTurn_count hcopy hpos hword, trivial⟩
    · exact ⟨_, loadTurn_error (Or.inr herror), trivial⟩

/-- Between two turns the bytes that have been read are at `HEAP_START`, and `copy_to` is behind
them. -/
structure Loaded (file : List UInt8) (reads : Nat → Nat × (Nat → UInt8)) (stop : Nat)
    (s : Loading) : Prop where
  calls : s.calls ≤ stop
  copyTo : s.copyTo = heapStart + bytesBefore reads s.calls
  holds : Lib.Holds s.mem heapStart (file.take (bytesBefore reads s.calls))

/-- Bytes behind others make them longer. -/
theorem holds_memcpy {mem data : Nat → UInt8} {a count : Nat} {bytes more : List UInt8}
    (h : Lib.Holds mem a bytes) (hdata : Lib.Holds data 0 more) (hcount : more.length = count) :
    Lib.Holds (memcpy mem (a + bytes.length) data count) a (bytes ++ more) := by
  refine Lib.holds_append.mpr ⟨fun i hi => ?_, fun i hi => ?_⟩
  · rw [memcpy, if_neg (by omega)]
    exact h i hi
  · rw [memcpy, if_pos (by omega), Nat.add_sub_cancel_left]
    have hbyte := hdata i hi
    rwa [Nat.zero_add] at hbyte

/-- A turn of the loop loads the next piece, and fewer pieces are left. -/
theorem Loaded.next (hserves : Serves file reads stop) (hspace : heapStart + file.length < 2 ^ 32)
    {s : Loading} (h : Loaded file reads stop s) (hlt : s.calls < stop) :
    ∃ s', loadTurn reads s = some (.inl s') ∧ Loaded file reads stop s' ∧
      stop - s'.calls < stop - s.calls := by
  obtain ⟨hpos, hword⟩ := hserves.counts s.calls hlt
  have hsucc := bytesBefore_succ reads s.calls
  have hlength : bytesBefore reads (s.calls + 1) ≤ file.length :=
    (bytesBefore_mono hlt).trans hserves.within
  -- The copy starts at the heap, which is not the null page.
  have hcopy : s.copyTo ≠ 0 := by
    rw [h.copyTo, heapStart]
    omega
  refine ⟨_, loadTurn_count hcopy hpos hword, ⟨hlt, ?_, ?_⟩, by dsimp only; omega⟩
  · dsimp only
    rw [h.copyTo, hsucc]
    omega
  · dsimp only
    have htake : (file.take (bytesBefore reads s.calls)).length = bytesBefore reads s.calls :=
      List.length_take_of_le (by omega)
    -- The bytes of this read stand in the file right behind those read before.
    have hmore : ((file.drop (bytesBefore reads s.calls)).take (reads s.calls).1).length =
        (reads s.calls).1 := by
      rw [List.length_take, List.length_drop]
      omega
    have hholds := holds_memcpy h.holds (hserves.data s.calls hlt) hmore
    rwa [htake, ← h.copyTo, ← List.take_add, ← hsucc] at hholds

/-- With the end of the file the loop ends, and the file is in memory. -/
theorem load_ends (hserves : Serves file reads stop) (hspace : heapStart + file.length < 2 ^ 32)
    (heof : bytesBefore reads stop = file.length ∧ ∀ k ≥ stop, (reads k).1 = 0)
    (mem : Nat → UInt8) : ∃ loaded,
      Lib.iterate (loadTurn reads) (stop + 1) ⟨0, mem, heapStart⟩ = some loaded ∧
        Lib.Holds loaded heapStart file := by
  refine Lib.iterate_ends (Loaded file reads stop) (fun loaded => Lib.Holds loaded heapStart file)
    (fun s => stop - s.calls) (fun s hs => ?_) ?_ (by dsimp only; omega)
  · rcases Nat.lt_or_eq_of_le hs.calls with hlt | heq
    · exact Or.inl (hs.next hserves hspace hlt)
    -- At `stop` the bytes that have been read are the whole file.
    · have hcopy : s.copyTo ≠ 0 := by
        rw [hs.copyTo, heapStart]
        omega
      refine Or.inr ⟨_, loadTurn_eof hcopy (heof.2 s.calls (Nat.le_of_eq heq.symm)), ?_⟩
      have hholds := hs.holds
      rw [heq, heof.1, List.take_length] at hholds
      refine hholds.congr fun i _ => ?_
      rw [memcpy, if_neg (by omega)]
  · exact ⟨Nat.zero_le _, rfl, fun i hi => absurd hi (Nat.not_lt_zero i)⟩

/-- The initializer loads the file, or reports that it could not, if and only if no call of
`read` fails. -/
theorem load_loop_iff (elfLoadFile : (Nat → UInt8) → Nat → Int) (mem : Nat → UInt8)
    (hserves : Serves file reads stop) (hspace : heapStart + file.length < 2 ^ 32) :
    LoadsOrFails elfLoadFile file reads mem ↔ ∀ k, ¬ Fails reads k := by
  constructor
  · rintro ⟨turns, loaded, ret, hrun, -, -⟩ k hk
    obtain ⟨mem', hloop, -⟩ := Option.bind_eq_some_iff.mp hrun
    -- One call has failed, so that there is no end of the file.
    have herror : ∀ k ≥ stop, Fails reads k := by
      refine hserves.ending.resolve_left fun heof => ?_
      rcases Nat.lt_or_ge k stop with hlt | hge
      · have hcount := (hserves.counts k hlt).2
        rw [Fails, toInt32_of_lt (by omega)] at hk
        omega
      · rw [Fails, heof.2 k hge] at hk
        exact absurd hk (by decide)
    rw [loop_runs_on (fun k => ?_)] at hloop
    · cases hloop
    · rcases Nat.lt_or_ge k stop with hlt | hge
      · exact Or.inl (hserves.counts k hlt)
      · exact Or.inr (herror k hge)
  · intro hall
    obtain ⟨loaded, hloop, hholds⟩ := load_ends hserves hspace
      (hserves.ending.resolve_right fun herror => hall stop (herror stop (Nat.le_refl _))) mem
    refine ⟨stop + 1, loaded, elfLoadFile loaded heapStart, ?_, fun _ => hholds, ?_⟩
    · rw [initializer, hloop]
      rfl
    · rintro ⟨k, hk⟩
      exact absurd hk (hall k)

/-! ### A file that is read, and one that is not -/

/-- The calls of `read` for a file of which the server always sends as much as is asked for. -/
def pieces (file : List UInt8) (k : Nat) : Nat × (Nat → UInt8) :=
  (((file.drop (512 * k)).take 512).length, fun i => (file.drop (512 * k)).getD i 0)

/-- A piece is 512 bytes long, but for the last one. -/
theorem pieces_count (file : List UInt8) (k : Nat) :
    (pieces file k).1 = min 512 (file.length - 512 * k) := by
  rw [pieces, List.length_take, List.length_drop]

/-- The pieces before the `k`-th are 512 bytes each, as far as the file goes. -/
theorem bytesBefore_pieces (file : List UInt8) (k : Nat) :
    bytesBefore (pieces file) k = min (512 * k) file.length := by
  induction k with
  | zero => exact (Nat.zero_min _).symm
  | succ k ih =>
      rw [bytesBefore_succ, ih, pieces_count]
      omega

/-- The server sends the file in pieces. -/
theorem pieces_serves (file : List UInt8) : Serves file (pieces file) ((file.length + 511) / 512) := by
  constructor
  case counts =>
    intro k hk
    rw [pieces_count]
    omega
  case within =>
    rw [bytesBefore_pieces]
    exact Nat.min_le_right _ _
  case data =>
    intro k hk i hi
    -- All reads before this one were full.
    have hstart : bytesBefore (pieces file) k = 512 * k := by
      rw [bytesBefore_pieces]
      omega
    rw [hstart, List.length_take] at hi
    simp only [hstart, List.getElem_take, Nat.zero_add]
    exact List.getD_eq_getElem _ _ (hi.trans_le (Nat.min_le_right _ _))
  case ending =>
    -- The read at the end of the file returns zero bytes, and so does every later one.
    refine Or.inl ⟨?_, fun k hk => ?_⟩
    · rw [bytesBefore_pieces]
      omega
    · rw [pieces_count]
      omega

/-- None of these calls fails. -/
theorem pieces_not_fails (file : List UInt8) (k : Nat) : ¬ Fails (pieces file) k := by
  have hcount : (pieces file k).1 ≤ 512 := by
    rw [pieces_count]
    exact Nat.min_le_left _ _
  rw [Fails, toInt32_of_lt (by omega)]
  omega

/-- The bytes of a file that is read in two pieces. -/
def twoPieces : List UInt8 := (List.range 700).map UInt8.ofNat

/-- A file that is read in two pieces. -/
theorem load_loop_twoPieces :
    LoadsOrFails (fun _ _ => 1) twoPieces (pieces twoPieces) fun _ => 0 :=
  (load_loop_iff _ _ (pieces_serves twoPieces)
    (by rw [twoPieces, List.length_map, List.length_range]; decide)).mpr
    (pieces_not_fails twoPieces)

/-- The calls of `read` when `open` has failed: the file may be executed, but not read. -/
def failingReads (_ : Nat) : Nat × (Nat → UInt8) := (2 ^ 32 - 1, fun _ => 0)

/-- Each of them fails. -/
theorem failingReads_fails (k : Nat) : Fails failingReads k :=
  show toInt32 (2 ^ 32 - 1) = -1 by decide

/-- They are the calls for any file that cannot be read. -/
theorem failingReads_serves (file : List UInt8) : Serves file failingReads 0 where
  counts _ hk := absurd hk (Nat.not_lt_zero _)
  within := Nat.zero_le _
  data _ hk := absurd hk (Nat.not_lt_zero _)
  ending := Or.inr fun k _ => failingReads_fails k

/-- The loop runs on for ever. -/
theorem unreadable_runs_on : Serves [7, 8] failingReads 0 ∧
    ¬ LoadsOrFails (fun _ _ => 0) [7, 8] failingReads (fun _ => 0) := by
  refine ⟨failingReads_serves _, ?_⟩
  rintro ⟨turns, loaded, ret, hrun, -, -⟩
  obtain ⟨mem', hloop, -⟩ := Option.bind_eq_some_iff.mp hrun
  rw [loop_runs_on fun k => Or.inr (failingReads_fails k)] at hloop
  cases hloop

end Client

end Sos
