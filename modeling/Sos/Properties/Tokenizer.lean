import Mathlib.Data.List.TakeWhile
import Sos.Client.Shell

/-!
# `Sos.Properties.Tokenizer`: the arguments of a command

`words` are the maximal runs of characters of a line that are not spaces. `Tokenized` says that
`argv` has them, each with a terminating zero, and `TokenizesInBounds` that the parsing loop of
the shell ends so and that neither it nor the shift for `exec` writes behind `argv`.

`tokenizer_iff`: that is so if and only if the line has at most `MAX_ARGS` words, and one less
when `exec` is put before them. The loop looks at the line only: one of 127 characters may have
64 words (`many_words`).
-/

set_option autoImplicit false

namespace Sos

open Lib (IsString)

namespace Client

/-! ### Words -/

/-- The maximal runs of characters that are not spaces. -/
def words (line : List UInt8) : List (List UInt8) := (line.splitOnP (· = 32)).filter (· ≠ [])

/-- An empty line has no words. -/
theorem words_nil : words [] = [] := rfl

/-- A space in front is skipped. -/
theorem words_space (rest : List UInt8) : words (32 :: rest) = words rest := by
  rw [words, List.splitOnP_cons_eq_if_modifyHead, if_pos (by decide), List.filter_cons,
    if_neg (by decide), words]

/-- So are all spaces in front. -/
theorem words_dropWhile (rest : List UInt8) : words (rest.dropWhile (· = 32)) = words rest := by
  induction rest with
  | nil => rfl
  | cons c rest ih =>
      rw [List.dropWhile_cons]
      by_cases hc : c = 32
      · rw [if_pos (decide_eq_true hc), hc, words_space, ih]
      · rw [if_neg (by rwa [decide_eq_true_iff])]

section

variable {word rest : List UInt8} (hword : ∀ c ∈ word, c ≠ 32) (hne : word ≠ [])

include hword hne

/-- A word at the end of a line. -/
theorem words_word : words word = [word] := by
  rw [words, List.splitOnP_eq_singleton fun c hc => decide_eq_false (hword c hc),
    List.filter_cons, if_pos (decide_eq_true hne), List.filter_nil]

/-- A word up to a space. -/
theorem words_word_space : words (word ++ 32 :: rest) = word :: words rest := by
  rw [words, List.splitOnP_append_cons_of_forall_mem
    (fun c hc => decide_eq_false (hword c hc)) 32 (by decide), List.filter_cons,
    if_pos (decide_eq_true hne), words]

end

/-- What the inner loops find in the rest of a line: spaces, and a word behind them. -/
structure NextWord (rest spaces word rest' : List UInt8) : Prop where
  split : rest = spaces ++ (word ++ rest')
  spaces : rest.takeWhile (· = 32) = spaces
  scan : (word ++ rest').takeWhile (fun c => c ≠ 32 ∧ c ≠ 0) = word
  ne_nil : word ≠ []

namespace NextWord

variable {rest spaces word rest' : List UInt8}

/-- The line is the spaces, the word and the rest. -/
theorem length (h : NextWord rest spaces word rest') :
    rest.length = spaces.length + (word.length + rest'.length) := by
  rw [h.split, List.length_append, List.length_append]

/-- Behind the spaces the word and the rest are a string. -/
theorem string {mem : Nat → UInt8} {p : Nat} (h : NextWord rest spaces word rest')
    (hrest : IsString mem p rest) : IsString mem (p + spaces.length) (word ++ rest') := by
  rw [h.split] at hrest
  exact hrest.right

/-- The spaces in front do not matter. -/
theorem words_eq (h : NextWord rest spaces word rest') :
    words rest = words (word ++ rest') := by
  have hdrop : rest.dropWhile (· = 32) = word ++ rest' := by
    have hparts := List.takeWhile_append_dropWhile (p := (· = 32)) (l := rest)
    rw [h.spaces] at hparts
    exact List.append_cancel_left (hparts.trans h.split)
  rw [← words_dropWhile, hdrop]

/-- A word has no space. -/
theorem no_space (h : NextWord rest spaces word rest') : ∀ c ∈ word, c ≠ 32 := by
  intro c hc
  rw [← h.scan] at hc
  have hcond := List.mem_takeWhile_imp hc
  exact (of_decide_eq_true hcond).1

/-- A word with nothing behind it is the last one. -/
theorem words_last (h : NextWord rest spaces word []) : words rest = [word] := by
  rw [h.words_eq, List.append_nil, words_word h.no_space h.ne_nil]

/-- A word with a space behind it is followed by the words of the rest. -/
theorem words_more (h : NextWord rest spaces word (32 :: rest')) :
    words rest = word :: words rest' := by
  rw [h.words_eq, words_word_space h.no_space h.ne_nil]

end NextWord

/-- The first character that does not meet the condition. -/
theorem dropWhile_cases (cond : UInt8 → Bool) (l : List UInt8) :
    l.dropWhile cond = [] ∨ ∃ c ∈ l, ∃ l', l.dropWhile cond = c :: l' ∧ cond c = false := by
  by_cases hnil : l.dropWhile cond = []
  · exact Or.inl hnil
  · obtain ⟨c, l', hcons⟩ := List.exists_cons_of_ne_nil hnil
    refine Or.inr ⟨c, ?_, l', hcons, ?_⟩
    · refine (List.dropWhile_sublist cond).subset ?_
      rw [hcons]
      exact List.mem_cons_self
    · have hhead := List.head_dropWhile_not cond hnil
      simp only [hcons, List.head_cons] at hhead
      exact hhead

/-- There is a word if there is more than spaces. It ends at a space or with the line. -/
theorem exists_nextWord {rest : List UInt8} (hzero : 0 ∉ rest)
    (hrest : rest.dropWhile (· = 32) ≠ []) : ∃ spaces word rest',
      NextWord rest spaces word rest' ∧ (rest' = [] ∨ ∃ rest'', rest' = 32 :: rest'') := by
  let cond : UInt8 → Bool := fun c => c ≠ 32 ∧ c ≠ 0
  have hsub : ∀ c ∈ rest.dropWhile (· = 32), c ≠ 0 := by
    rintro c hc rfl
    exact hzero ((List.dropWhile_sublist _).subset hc)
  -- Behind the spaces a word begins, and it ends at a space or at the zero byte.
  obtain hnil | ⟨c, hc, l, hcons, hfirst⟩ := dropWhile_cases (· = 32) rest
  · exact absurd hnil hrest
  · refine ⟨_, (rest.dropWhile (· = 32)).takeWhile cond, (rest.dropWhile (· = 32)).dropWhile cond,
      ⟨?_, rfl, ?_, ?_⟩, ?_⟩
    · rw [List.takeWhile_append_dropWhile, List.takeWhile_append_dropWhile]
    · rw [List.takeWhile_append_dropWhile]
    · have hc0 : c ≠ 0 := hsub c (by rw [hcons]; exact List.mem_cons_self)
      rw [hcons, List.takeWhile_cons, if_pos (decide_eq_true ⟨of_decide_eq_false hfirst, hc0⟩)]
      exact List.cons_ne_nil _ _
    · obtain hend | ⟨d, hd, l', hcons', hlast⟩ :=
        dropWhile_cases cond (rest.dropWhile (· = 32))
      · exact Or.inl hend
      · have hd32 : d = 32 := by
          by_contra hne
          exact of_decide_eq_false hlast ⟨hne, hsub d hd⟩
        exact Or.inr ⟨l', hd32 ▸ hcons'⟩

/-! ### What is expected of the loops -/

variable {buf : Nat → UInt8} {line rest : List UInt8} {argv : Nat → Option Arg} {s : Parsing}
  {turns : Nat}

/-- The arguments are these words, each with a terminating zero. -/
def HasArgs (s : Parsing) (ws : List (List UInt8)) : Prop :=
  ∀ (k : Nat) w, ws[k]? = some w → ∃ p, s.argv k = some (.line p) ∧ IsString s.buf p w

/-- The line has been divided: the arguments are its words, nothing but their entries of `argv`
has been written, and nothing in memory from the terminating zero of the line on. -/
structure Tokenized (line : List UInt8) (buf : Nat → UInt8) (s : Parsing) : Prop where
  argc : s.argc = (words line).length
  args : HasArgs s (words line)
  written : ∀ i, i ∈ s.written ↔ i < s.argc
  kept : ∀ a ≥ line.length, s.buf a = buf a

/-- Only `argv` has been written, and `argc` counts entries of it. -/
structure InBounds (s : Parsing) : Prop where
  argc : s.argc ≤ maxArgs
  written : ∀ i ∈ s.written, i < maxArgs

/-- `exec` is before the arguments. -/
structure ExecBefore (s s' : Parsing) : Prop where
  exec : s'.argv 0 = some .exec
  args : ∀ k < s.argc, s'.argv (k + 1) = s.argv k
  argc : s'.argc = s.argc + 1

/-- The parsing loop ends with the words of the line, and inside of `argv`, and so does the shift
when the first word is an executable file (`external`). -/
def TokenizesInBounds (external : List UInt8 → Bool) (line : List UInt8) (buf : Nat → UInt8)
    (argv : Nat → Option Arg) : Prop :=
  ∃ turns s, parse buf argv turns = some s ∧ Tokenized line buf s ∧ InBounds s ∧
    ∀ w, (words line).head? = some w → external w = true →
      ExecBefore s (prependExec s) ∧ InBounds (prependExec s)

/-! ### One turn -/

/-- A scan stops at the first character that does not meet the condition, at the end of the
string at the latest. -/
theorem scan_eq {cond : UInt8 → Bool} (hcond : cond 0 = false) {p : Nat}
    (h : IsString buf p rest) (hturns : rest.length < turns) :
    scan buf cond turns p = some (p + (rest.takeWhile cond).length) := by
  obtain ⟨turns, rfl⟩ : ∃ n, turns = n + 1 := ⟨turns - 1, by omega⟩
  -- Induction on the string: the scan goes on while the condition holds of its next byte.
  induction rest generalizing p turns with
  | nil =>
      have hzero : buf p = 0 := h.zero
      exact Lib.iterate_done (by rw [hzero, hcond, if_neg Bool.false_ne_true]; rfl) turns
  | cons c rest ih =>
      have hbyte : buf p = c := h.byte (Nat.succ_pos _)
      rw [List.takeWhile_cons]
      -- The condition fails at the zero byte, so the scan never leaves the string.
      by_cases hc : cond c = true
      · obtain ⟨turns, rfl⟩ : ∃ n, turns = n + 1 :=
          ⟨turns - 1, by rw [List.length_cons] at hturns; omega⟩
        have hrest : IsString buf (p + 1) rest := IsString.right (s := [c]) h
        have hplace : p + ((rest.takeWhile cond).length + 1) =
            p + 1 + (rest.takeWhile cond).length := by omega
        rw [if_pos hc, List.length_cons, hplace, ← ih hrest turns (Nat.lt_of_succ_lt_succ hturns)]
        exact Lib.iterate_next (by rw [hbyte, if_pos hc]) (turns + 1)
      · rw [if_neg hc]
        exact Lib.iterate_done (by rw [hbyte, if_neg hc]; rfl) turns

/-- Between two turns: the words so far are arguments, in memory that the rest of the line does
not reach. -/
structure Dividing (line : List UInt8) (buf : Nat → UInt8) (s : Parsing) (rest : List UInt8)
    (ws : List (List UInt8)) : Prop where
  string : IsString s.buf s.p rest
  place : s.p + rest.length = line.length
  argc : s.argc = ws.length
  words : ws ++ words rest = words line
  args : ∀ (k : Nat) w, ws[k]? = some w →
    ∃ p, s.argv k = some (.line p) ∧ IsString s.buf p w ∧ p + w.length < s.p
  written : ∀ i, i ∈ s.written ↔ i < s.argc
  kept : ∀ a ≥ line.length, s.buf a = buf a

namespace Dividing

variable {ws : List (List UInt8)} (h : Dividing line buf s rest ws)

include h

/-- When there are no more words, the line has been divided. -/
theorem tokenized (hrest : Client.words rest = []) (p : Nat) :
    Tokenized line buf { s with p := p } := by
  have hwords := h.words
  rw [hrest, List.append_nil] at hwords
  constructor
  case argc => rw [h.argc, hwords]
  case args =>
    intro k w hw
    obtain ⟨p, hp, hstring, -⟩ := h.args k w (hwords ▸ hw)
    exact ⟨p, hp, hstring⟩
  case written => exact h.written
  case kept => exact h.kept

/-- One more argument, when the characters before `s.p` are kept. -/
theorem args_append {mem : Nat → UInt8} {p₁ p₂ : Nat} {word : List UInt8}
    (hmem : ∀ a < s.p, mem a = s.buf a) (hword : IsString mem p₁ word) (hle : s.p ≤ p₁) (k : Nat)
    (w : List UInt8) (hw : (ws ++ [word])[k]? = some w) (hp : p₁ + word.length < p₂) :
    ∃ p, Function.update s.argv s.argc (some (Arg.line p₁)) k = some (.line p) ∧
      IsString mem p w ∧ p + w.length < p₂ := by
  have hlt : k < (ws ++ [word]).length := (List.getElem?_eq_some_iff.mp hw).1
  rw [List.length_append, List.length_singleton] at hlt
  rcases Nat.lt_or_eq_of_le (Nat.le_of_lt_succ hlt) with hk | rfl
  · rw [List.getElem?_append_left hk] at hw
    obtain ⟨p, hp', hstring, hend⟩ := h.args k w hw
    refine ⟨p, ?_, hstring.congr fun i hi => hmem _ (by omega), by omega⟩
    rw [Function.update_of_ne (by rw [h.argc]; exact Nat.ne_of_lt hk)]
    exact hp'
  · rw [List.getElem?_concat_length] at hw
    obtain rfl := Option.some.inj hw
    refine ⟨p₁, ?_, hword, hp⟩
    rw [← h.argc, Function.update_self]

/-- The places that are written, one more than before. -/
theorem written_append (i : Nat) : i ∈ s.argc :: s.written ↔ i < s.argc + 1 := by
  rw [List.mem_cons, h.written]
  omega

/-- A turn at the end of the line, with or without spaces before it. -/
theorem turn_end (hturns : line.length < turns) (hrest : rest.dropWhile (· = 32) = []) :
    ∃ s', parseTurn turns s = some (.inr s') ∧ Tokenized line buf s' := by
  have hwords : Client.words rest = [] := by rw [← words_dropWhile, hrest, words_nil]
  have hplace := h.place
  by_cases hp : s.buf s.p = 0
  · exact ⟨s, if_pos hp, h.tokenized hwords s.p⟩
  · have hspaces : rest.takeWhile (· = 32) = rest := by
      conv_rhs => rw [← List.takeWhile_append_dropWhile (p := (· = 32)) (l := rest), hrest,
        List.append_nil]
    have hskip : skipSpaces s.buf turns s.p = some (s.p + rest.length) := by
      rw [skipSpaces, scan_eq (by decide) h.string (by omega), hspaces]
    refine ⟨{ s with p := s.p + rest.length }, ?_, h.tokenized hwords _⟩
    rw [parseTurn, if_neg hp, hskip, Option.bind_eq_bind, Option.bind_some,
      if_pos h.string.zero]

/-- A turn with a word finds its first character and the one behind it. -/
theorem parseTurn_word {spaces word rest' : List UInt8} (hnext : NextWord rest spaces word rest')
    (hturns : line.length < turns) :
    let p := s.p + spaces.length
    let q := p + word.length
    let s' := { s.setArg s.argc (some (.line p)) with argc := s.argc + 1 }
    parseTurn turns s = if s.buf q = 0 then some (.inr { s' with p := q })
      else some (.inl { s' with buf := Lib.store s.buf q [0], p := q + 1 }) := by
  have hlength := hnext.length
  have hword : 0 < word.length := List.length_pos_iff.mpr hnext.ne_nil
  have hplace := h.place
  have hstring := hnext.string h.string
  have hfirst : s.buf s.p ≠ 0 := h.string.byte_ne_zero (i := 0) (by omega)
  have hstart : s.buf (s.p + spaces.length) ≠ 0 :=
    hstring.byte_ne_zero (i := 0) (by rw [List.length_append]; omega)
  have hskip : skipSpaces s.buf turns s.p = some (s.p + spaces.length) := by
    rw [skipSpaces, scan_eq (by decide) h.string (by omega), hnext.spaces]
  have hend : scanWord s.buf turns (s.p + spaces.length) =
      some (s.p + spaces.length + word.length) := by
    rw [scanWord, scan_eq (by decide) hstring (by rw [List.length_append]; omega), hnext.scan]
  -- Spaces, then a word that is not empty, then its end: the turn has all three parts.
  rw [parseTurn, if_neg hfirst, hskip, Option.bind_eq_bind, Option.bind_some, if_neg hstart]
  simp only [Parsing.setArg]
  rw [hend, Option.bind_some]
  rfl

/-- The last word of a line, without a space behind it. -/
theorem turn_last {spaces word : List UInt8} (hnext : NextWord rest spaces word [])
    (hturns : line.length < turns) :
    ∃ s', parseTurn turns s = some (.inr s') ∧ Tokenized line buf s' := by
  have hstring := hnext.string h.string
  rw [List.append_nil] at hstring
  -- The line ends with this word, so no zero byte has to be written.
  have hwords : ws ++ [word] = Client.words line := by rw [← h.words, hnext.words_last]
  refine ⟨_, (h.parseTurn_word hnext hturns).trans (if_pos hstring.zero), ?_⟩
  constructor
  case argc =>
    rw [← hwords, List.length_append, ← h.argc]
    rfl
  case args =>
    intro k w hw
    rw [← hwords] at hw
    obtain ⟨p, hp, hargument, -⟩ := h.args_append (fun _ _ => rfl) hstring (Nat.le_add_right _ _)
      k w hw (Nat.lt_succ_self _)
    exact ⟨p, hp, hargument⟩
  case written => exact h.written_append
  case kept => exact h.kept

/-- A word with a space behind it: that becomes its terminating zero. -/
theorem turn_word {spaces word rest' : List UInt8}
    (hnext : NextWord rest spaces word (32 :: rest')) (hturns : line.length < turns) :
    ∃ s', parseTurn turns s = some (.inl s') ∧ Dividing line buf s' rest' (ws ++ [word]) ∧
      s.p < s'.p := by
  have hlength := hnext.length
  rw [List.length_cons] at hlength
  have hplace := h.place
  have hstring := hnext.string h.string
  have hspace : s.buf (s.p + spaces.length + word.length) = 32 :=
    hstring.right.byte (Nat.succ_pos _)
  have hbehind : IsString s.buf (s.p + spaces.length + word.length + 1) rest' :=
    IsString.right (s := [32]) hstring.right
  refine ⟨_, (h.parseTurn_word hnext hturns).trans (if_neg (by rw [hspace]; decide)), ?_, ?_⟩
  · constructor
    -- The zero byte stands before the rest of the line.
    case string => exact hbehind.store (Or.inr (Nat.le_refl _))
    case place =>
      dsimp only
      omega
    case argc =>
      rw [List.length_append, ← h.argc]
      rfl
    case words => rw [List.append_assoc, ← h.words, hnext.words_more, List.singleton_append]
    case args =>
      -- The words found before lie in front of it as well.
      intro k w hw
      exact h.args_append (fun a ha => Lib.store_outside (Or.inl (by omega))) hstring.terminate
        (Nat.le_add_right _ _) k w hw (Nat.lt_succ_self _)
    case written => exact h.written_append
    case kept =>
      intro a ha
      rw [← h.kept a ha]
      refine Lib.store_outside (Or.inr ?_)
      rw [List.length_singleton]
      omega
  · dsimp only
    omega

end Dividing

/-! ### The loop -/

/-- The loop divides a line. -/
theorem parse_ends (argv : Nat → Option Arg) (hline : IsString buf 0 line) :
    ∃ s, parse buf argv (line.length + 1) = some s ∧ Tokenized line buf s := by
  -- The place in the line grows with every turn that goes on.
  refine Lib.iterate_ends (fun s => ∃ rest ws, Dividing line buf s rest ws) (Tokenized line buf)
    (fun s => line.length - s.p) ?_ ⟨line, [], ?_⟩ (by dsimp only; omega)
  · rintro s ⟨rest, ws, h⟩
    have hturns := Nat.lt_succ_self line.length
    -- Only spaces are left, or one more word and perhaps the rest of the line.
    by_cases hrest : rest.dropWhile (· = 32) = []
    · exact Or.inr (h.turn_end hturns hrest)
    · obtain ⟨spaces, word, rest', hnext, rfl | ⟨rest', rfl⟩⟩ :=
        exists_nextWord h.string.no_zero hrest
      · exact Or.inr (h.turn_last hnext hturns)
      · obtain ⟨s', hturn, h', hlt⟩ := h.turn_word hnext hturns
        have hplace := h'.place
        exact Or.inl ⟨s', hturn, ⟨_, _, h'⟩, by omega⟩
  · constructor
    case string => exact hline
    case place => exact Nat.zero_add _
    case argc => rfl
    case words => rfl
    case args => exact nofun
    case written => exact fun i => iff_of_false nofun (Nat.not_lt_zero i)
    case kept => exact fun _ _ => rfl

/-! ### The shift for `exec` -/

/-- The arguments up to `i` are where the ones before them were. -/
theorem shiftArgs_argv (i : Nat) (s : Parsing) (j : Nat) :
    (shiftArgs i s).argv j = if 1 ≤ j ∧ j ≤ i then s.argv (j - 1) else s.argv j := by
  induction i generalizing s with
  | zero => exact (if_neg (by omega)).symm
  | succ i ih =>
      rw [shiftArgs, ih]
      simp only [Parsing.setArg]
      by_cases hlast : j = i + 1
      · rw [if_neg (by omega), if_pos (by omega), hlast, Function.update_self, Nat.add_sub_cancel]
      · rw [Function.update_of_ne hlast]
        by_cases hj : 1 ≤ j ∧ j ≤ i
        · rw [if_pos hj, if_pos (by omega), Function.update_of_ne (by omega)]
        · rw [if_neg hj, if_neg (by omega)]

/-- Shifting the arguments does not change their number. -/
theorem shiftArgs_argc (i : Nat) (s : Parsing) : (shiftArgs i s).argc = s.argc := by
  induction i generalizing s with
  | zero => rfl
  | succ i ih => rw [shiftArgs, ih, Parsing.setArg]

/-- It writes the places up to the last one. -/
theorem shiftArgs_written {i j : Nat} {s : Parsing} (h : j ∈ (shiftArgs i s).written) :
    j ∈ s.written ∨ j ≤ i := by
  induction i generalizing s with
  | zero => exact Or.inl h
  | succ i ih =>
      rcases ih h with hset | hle
      · rcases List.mem_cons.mp hset with rfl | hold
        · exact Or.inr (Nat.le_refl _)
        · exact Or.inl hold
      · exact Or.inr (Nat.le_succ_of_le hle)

/-- With room for one more argument, `exec` gets before the others. -/
theorem execBefore_prependExec (hroom : s.argc < maxArgs) : ExecBefore s (prependExec s) := by
  have hmin : min s.argc (maxArgs - 1) = s.argc := Nat.min_eq_left (Nat.le_sub_one_of_lt hroom)
  constructor
  case exec =>
    show Function.update (shiftArgs (min s.argc (maxArgs - 1)) s).argv 0 (some Arg.exec) 0 = _
    rw [Function.update_self]
  case args =>
    intro k hk
    rw [prependExec, hmin]
    show Function.update (shiftArgs s.argc s).argv 0 (some Arg.exec) (k + 1) = _
    rw [Function.update_of_ne (Nat.succ_ne_zero k), shiftArgs_argv, if_pos (by omega),
      Nat.succ_sub_one]
  case argc => exact congrArg (· + 1) (shiftArgs_argc _ s)

/-- Putting `exec` in front stays in the array if there is room. -/
theorem inBounds_prependExec (h : InBounds s) (hroom : s.argc < maxArgs) :
    InBounds (prependExec s) := by
  constructor
  case argc =>
    rw [(execBefore_prependExec hroom).argc]
    exact hroom
  case written =>
    intro i hi
    rcases List.mem_cons.mp hi with rfl | hshift
    · decide
    · rcases shiftArgs_written hshift with hold | hle
      · exact h.written i hold
      · exact Nat.lt_of_le_of_lt (hle.trans (Nat.min_le_right _ _)) (by decide)

/-! ### The main result -/

/-- The loops stay in bounds if and only if there are at most `MAX_ARGS` words, and fewer when
`exec` is put before them. -/
theorem tokenizer_iff (external : List UInt8 → Bool) (argv : Nat → Option Arg)
    (hline : IsString buf 0 line) : TokenizesInBounds external line buf argv ↔
      (words line).length ≤ maxArgs ∧ ∀ w, (words line).head? = some w → external w = true →
        (words line).length < maxArgs := by
  constructor
  -- Left to right: the words counted are those of the line.
  · rintro ⟨turns, s, -, htokenized, hbounds, hexec⟩
    have hargc := htokenized.argc
    refine ⟨hargc ▸ hbounds.argc, fun w hw hexternal => ?_⟩
    obtain ⟨hbefore, hbounds'⟩ := hexec w hw hexternal
    have hroom := hbounds'.argc
    rw [hbefore.argc] at hroom
    exact hargc ▸ hroom
  · rintro ⟨hwords, hexternal⟩
    obtain ⟨s, hparse, htokenized⟩ := parse_ends argv hline
    have hargc := htokenized.argc
    have hbounds : InBounds s := by
      -- Right to left: `argv` is only written below `argc`.
      refine ⟨hargc ▸ hwords, fun i hi => ?_⟩
      have hlt := (htokenized.written i).mp hi
      omega
    refine ⟨_, s, hparse, htokenized, hbounds, fun w hw hexec => ?_⟩
    have hroom : s.argc < maxArgs := hargc ▸ hexternal w hw hexec
    exact ⟨execBefore_prependExec hroom, inBounds_prependExec hbounds hroom⟩

/-! ### Two lines -/

/-- The memory of a line. -/
def lineMemory (line : List UInt8) (i : Nat) : UInt8 := line.getD i 0

/-- A line of this number of one-letter words. -/
def letters : Nat → List UInt8
  | 0 => []
  | n + 1 => 97 :: 32 :: letters n

/-- A line of single letters has one word for each. -/
theorem words_letters (n : Nat) : words (letters n) = List.replicate n [97] := by
  induction n with
  | zero => rfl
  | succ n ih =>
      have hword : ∀ c ∈ [(97 : UInt8)], c ≠ 32 := List.forall_mem_singleton.mpr (by decide)
      rw [List.replicate_succ, ← ih]
      exact words_word_space hword (List.cons_ne_nil _ _)

/-- Two words, with an executable file for the first. -/
theorem tokenizer_two_words :
    TokenizesInBounds (fun _ => true) (letters 2) (lineMemory (letters 2)) (fun _ => none) :=
  (tokenizer_iff _ _ (Lib.isString_getD (by decide))).mpr
    (by rw [words_letters]; decide)

/-- There is no room for 33 words, and none for `exec` and 32 words. -/
theorem many_words :
    (letters 33).length < bufSiz ∧
    ¬ TokenizesInBounds (fun _ => false) (letters 33) (lineMemory (letters 33)) (fun _ => none) ∧
    ¬ TokenizesInBounds (fun _ => true) (letters 32) (lineMemory (letters 32)) (fun _ => none) := by
  refine ⟨by decide, ?_, ?_⟩
  · rintro ⟨turns, s, -, htokenized, hbounds, -⟩
    have hargc := hbounds.argc
    rw [htokenized.argc, words_letters, List.length_replicate] at hargc
    exact absurd hargc (by decide)
  · rintro ⟨turns, s, -, htokenized, -, hexec⟩
    obtain ⟨hbefore, hbounds⟩ := hexec [97] (by rw [words_letters]; rfl) rfl
    have hargc := hbounds.argc
    rw [hbefore.argc, htokenized.argc, words_letters, List.length_replicate] at hargc
    exact absurd hargc (by decide)

end Client

end Sos
