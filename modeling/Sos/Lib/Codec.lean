import Mathlib.Algebra.Group.Nat.Defs
import Mathlib.Data.List.Basic
import Mathlib.Data.List.Induction

/-!
# `Sos.Lib.Codec`: values in a message

A codec writes the values it can carry as bytes, and reads them back whatever comes behind
them. The last is a field, so that a codec that is put together from others carries the proof
with it.

* `word`, `fixed`, `var`: big-endian words, strings of a fixed length, and strings behind their
  length with a fill to a multiple of four bytes, as XDR has them.
* `prod`, `iso`: two values one behind the other, and a value in the form of another type.

`digits_foldl` is about bytes that stand for one number, the first of them the highest.
-/

set_option autoImplicit false

namespace Sos.Lib

/-- Values as bytes. `Ok` are the values that can be written. -/
structure Codec (α : Type) where
  Ok : α → Prop
  decidableOk : DecidablePred Ok
  encode : α → List UInt8
  decode : List UInt8 → Option (α × List UInt8)
  decode_encode : ∀ (a : α) (rest : List UInt8), Ok a → decode (encode a ++ rest) = some (a, rest)

namespace Codec

variable {α β : Type}

instance (c : Codec α) : DecidablePred c.Ok := c.decidableOk

/-! ### Words and strings -/

/-- The bytes of a big-endian word. -/
def wordEncode (n : Nat) : List UInt8 :=
  [UInt8.ofNat (n / 2 ^ 24), UInt8.ofNat (n / 2 ^ 16), UInt8.ofNat (n / 2 ^ 8), UInt8.ofNat n]

def wordDecode : List UInt8 → Option (Nat × List UInt8)
  | a :: b :: c :: d :: rest =>
    some (((a.toNat * 2 ^ 8 + b.toNat) * 2 ^ 8 + c.toNat) * 2 ^ 8 + d.toNat, rest)
  | _ => none

/-- A word of 32 bits is read back. -/
theorem wordDecode_wordEncode {n : Nat} (h : n < 2 ^ 32) (rest : List UInt8) :
    wordDecode (wordEncode n ++ rest) = some (n, rest) := by
  show some (_, rest) = some (n, rest)
  rw [UInt8.toNat_ofNat', UInt8.toNat_ofNat', UInt8.toNat_ofNat', UInt8.toNat_ofNat']
  congr 2
  omega

/-- A word of 32 bits. -/
def word : Codec Nat where
  Ok n := n < 2 ^ 32
  decidableOk _ := inferInstance
  encode := wordEncode
  decode := wordDecode
  decode_encode _ rest h := wordDecode_wordEncode h rest

/-- Takes bytes off the front of a message. -/
def takeBytes (n : Nat) (bytes : List UInt8) : Option (List UInt8 × List UInt8) :=
  if n ≤ bytes.length then some (bytes.take n, bytes.drop n) else none

/-- As many bytes as the front has are the front. -/
theorem takeBytes_append {front : List UInt8} {n : Nat} (h : front.length = n)
    (rest : List UInt8) : takeBytes n (front ++ rest) = some (front, rest) := by
  unfold takeBytes
  rw [if_pos (by rw [List.length_append]; omega), List.take_left' h, List.drop_left' h]

/-- A string of `n` bytes. -/
def fixed (n : Nat) : Codec { bytes : List UInt8 // bytes.length = n } where
  Ok _ := True
  decidableOk _ := inferInstance
  encode bytes := bytes.val
  decode bytes :=
    if h : n ≤ bytes.length then
      some (⟨bytes.take n, by rw [List.length_take, Nat.min_eq_left h]⟩, bytes.drop n)
    else none
  decode_encode bytes rest _ := by
    have hlength := bytes.property
    rw [dif_pos (by rw [List.length_append]; omega), Option.some.injEq, Prod.mk.injEq]
    exact ⟨Subtype.ext (List.take_left' hlength), List.drop_left' hlength⟩

/-- The bytes between the end of a string and the next multiple of four. -/
def fill (n : Nat) : Nat := (4 - n % 4) % 4

/-- A string behind its length, with the fill. -/
def var : Codec (List UInt8) where
  Ok bytes := bytes.length < 2 ^ 32
  decidableOk _ := inferInstance
  encode bytes := wordEncode bytes.length ++ (bytes ++ List.replicate (fill bytes.length) 0)
  decode bytes := do
    let (length, bytes) ← wordDecode bytes
    let (value, bytes) ← takeBytes length bytes
    let (_, bytes) ← takeBytes (fill length) bytes
    some (value, bytes)
  decode_encode bytes rest h := by
    rw [List.append_assoc, wordDecode_wordEncode h, Option.bind_eq_bind, Option.bind_some]
    dsimp only
    rw [List.append_assoc, takeBytes_append rfl, Option.bind_eq_bind, Option.bind_some]
    dsimp only
    rw [takeBytes_append List.length_replicate]
    rfl

/-! ### Composition -/

/-- Two values, one behind the other. -/
def prod (c : Codec α) (d : Codec β) : Codec (α × β) where
  Ok x := c.Ok x.1 ∧ d.Ok x.2
  decidableOk _ := inferInstance
  encode x := c.encode x.1 ++ d.encode x.2
  decode bytes := do
    let (a, bytes) ← c.decode bytes
    let (b, bytes) ← d.decode bytes
    some ((a, b), bytes)
  decode_encode x rest h := by
    rw [List.append_assoc, c.decode_encode _ _ h.1, Option.bind_eq_bind, Option.bind_some]
    dsimp only
    rw [d.decode_encode _ _ h.2]
    rfl

/-- A value of `β` written as one of `α`. -/
def iso (c : Codec α) (f : α → β) (g : β → α) (hfg : ∀ b, f (g b) = b) : Codec β where
  Ok b := c.Ok (g b)
  decidableOk _ := inferInstance
  encode b := c.encode (g b)
  decode bytes := (c.decode bytes).map fun x => (f x.1, x.2)
  decode_encode b rest h := by
    rw [c.decode_encode _ _ h, Option.map_some, hfg]

/-! ### Sizes -/

/-- The length field, the bytes and the fill. -/
theorem length_var (bytes : List UInt8) :
    (var.encode bytes).length = 4 + bytes.length + fill bytes.length := by
  show (wordEncode _ ++ (bytes ++ List.replicate _ 0)).length = _
  rw [List.length_append, List.length_append, List.length_replicate, Nat.add_assoc]
  rfl

end Codec

/-! ### Numbers of many bytes -/

/-- The digits of a number in base 256, as many as a list of bytes has, are those bytes. -/
theorem digits_foldl (bytes : List UInt8) :
    (List.range bytes.length).map (fun i => UInt8.ofNat
      (bytes.foldl (fun n byte => n * 2 ^ 8 + byte.toNat) 0 / 2 ^ (8 * (bytes.length - 1 - i)))) =
      bytes := by
  induction bytes using List.reverseRecOn with
  | nil => rfl
  | append_singleton bytes byte ih =>
      rw [List.length_append, List.length_singleton, List.range_succ, List.map_append,
        List.foldl_append, List.foldl_cons, List.foldl_nil]
      have hbyte := byte.toNat_lt
      congr 1
      · -- the last byte is not in the digits before it
        refine Eq.trans (List.map_congr_left fun i hi => ?_) ih
        have hlt := List.mem_range.mp hi
        have hexp : 8 * (bytes.length + 1 - 1 - i) = 8 + 8 * (bytes.length - 1 - i) := by omega
        rw [hexp, Nat.pow_add, ← Nat.div_div_eq_div_mul]
        congr 2
        omega
      · rw [List.map_singleton]
        congr 1
        rw [show 8 * (bytes.length + 1 - 1 - bytes.length) = 0 by omega, Nat.pow_zero, Nat.div_one]
        refine UInt8.toNat_inj.mp ?_
        rw [UInt8.toNat_ofNat']
        omega

end Sos.Lib
