import Kadpeer.Core.Fips
import Kadpeer.L1Number.KadID
import Mathlib.Tactic

/-!
# The hash of the node ids (`common/sha1.h`, `common/sha1.cpp`)

`SHA1` takes a message in as many calls as the program likes, pads it on the
first `Result` and then only repeats the digest. It counts the bits in two
32-bit words, and a message of 2^61 bytes or input after a `Result` leaves it
`Corrupted` until the next `Reset`. A store past the end of `Message_Block` is a
fault.

* `processMessageBlock_H`: a block is mixed in as the standard's compression.
* `answers_eq`: in every order of calls the digests are those of `Session`, which
  knows the messages only, and no store leaves the block.
* `kadID_eq`: `KadID()` is the SHA-1 of the clock reading's decimal digits.
-/
namespace Kadpeer.L1

open Kadpeer.Core
open Kadpeer.Core.Fips (Byte Word Words)

/-- mirrors src/include/common/sha1.h:17-85 (`class SHA1`) -/
structure SHA1 where
  H : Words
  lengthLow : Word
  lengthHigh : Word
  messageBlock : Vector Byte 64
  messageBlockIndex : Nat
  computed : Bool
  corrupted : Bool

namespace SHA1

/-! ## One block -/

/-- mirrors src/src/common/sha1.cpp:308-311 -/
def circularShift (bits : Nat) (word : Word) : Word :=
  ((word <<< bits) &&& 0xFFFFFFFF) ||| ((word &&& 0xFFFFFFFF) >>> (32 - bits))

/-- `((unsigned) Message_Block[i]) << bits` -/
def byteAt (block : Vector Byte 64) (i bits : Nat) : Word :=
  (block.toList.getD i 0).setWidth 32 <<< bits

/-- mirrors src/src/common/sha1.cpp:180-186 -/
def firstWords (block : Vector Byte 64) : List Word :=
  (List.range 16).map fun t =>
    byteAt block (t * 4) 24 ||| byteAt block (t * 4 + 1) 16 ||| byteAt block (t * 4 + 2) 8 |||
      byteAt block (t * 4 + 3) 0

/-- `W` grows from the front: `W[t]` is set from words set before. Mirrors
src/src/common/sha1.cpp:188-191. -/
def nextWord (W : List Word) (t : Nat) : List Word :=
  W ++ [circularShift 1 (W.getD (t - 3) 0 ^^^ W.getD (t - 8) 0 ^^^ W.getD (t - 14) 0 ^^^
    W.getD (t - 16) 0)]

def schedule (block : Vector Byte 64) : List Word :=
  (List.range' 16 64).foldl nextWord (firstWords block)

/-- The body of the four loops; mirrors src/src/common/sha1.cpp:201-207. -/
def round (f : Word → Word → Word → Word) (k : Word) (W : List Word) (v : Words) (t : Nat) : Words :=
  let temp := (circularShift 5 v.a + f v.b v.c v.d + v.e + W.getD t 0 + k) &&& 0xFFFFFFFF
  ⟨temp, v.a, circularShift 30 v.b, v.c, v.d⟩

/-- One of the four loops, twenty rounds from `first` on; mirrors
src/src/common/sha1.cpp:199-242. -/
def rounds (f : Word → Word → Word → Word) (k : Word) (W : List Word) (first : Nat) (v : Words) :
    Words :=
  (List.range' first 20).foldl (round f k W) v

/-- mirrors src/src/common/sha1.cpp:164-251 -/
def processMessageBlock (s : SHA1) : SHA1 :=
  let W := schedule s.messageBlock
  let v := rounds (fun B C D => (B &&& C) ||| (~~~B &&& D)) 0x5A827999 W 0 s.H
  let v := rounds (fun B C D => B ^^^ C ^^^ D) 0x6ED9EBA1 W 20 v
  let v := rounds (fun B C D => (B &&& C) ||| (B &&& D) ||| (C &&& D)) 0x8F1BBCDC W 40 v
  let v := rounds (fun B C D => B ^^^ C ^^^ D) 0xCA62C1D6 W 60 v
  { s with
    H := ⟨(s.H.a + v.a) &&& 0xFFFFFFFF, (s.H.b + v.b) &&& 0xFFFFFFFF,
      (s.H.c + v.c) &&& 0xFFFFFFFF, (s.H.d + v.d) &&& 0xFFFFFFFF, (s.H.e + v.e) &&& 0xFFFFFFFF⟩
    messageBlockIndex := 0 }

theorem and_mask (x : Word) : x &&& 0xFFFFFFFF = x := BitVec.and_allOnes

theorem circularShift_eq {bits : Nat} (h : bits < 32) (x : Word) :
    circularShift bits x = x.rotateLeft bits := by
  rw [circularShift, and_mask, and_mask, BitVec.rotateLeft_def, Nat.mod_eq_of_lt h]

theorem ch_or (x y z : Word) : (x &&& y) ||| (~~~x &&& z) = Fips.ch x y z := by
  refine BitVec.eq_of_getLsbD_eq fun i hi => ?_
  simp only [Fips.ch, BitVec.getLsbD_or, BitVec.getLsbD_and, BitVec.getLsbD_xor,
    BitVec.getLsbD_not, hi, decide_true, Bool.true_and]
  cases x.getLsbD i <;> simp

theorem maj_or (x y z : Word) : (x &&& y) ||| (x &&& z) ||| (y &&& z) = Fips.maj x y z := by
  refine BitVec.eq_of_getLsbD_eq fun i _ => ?_
  simp only [Fips.maj, BitVec.getLsbD_or, BitVec.getLsbD_and, BitVec.getLsbD_xor]
  cases x.getLsbD i <;> cases y.getLsbD i <;> cases z.getLsbD i <;> rfl

/-- Four bytes, the first one on top. -/
theorem bytes_or (b₀ b₁ b₂ b₃ : Byte) :
    b₀.setWidth 32 <<< 24 ||| b₁.setWidth 32 <<< 16 ||| b₂.setWidth 32 <<< 8 |||
      b₃.setWidth 32 <<< 0 = (b₀ ++ b₁ ++ b₂ ++ b₃ : BitVec 32) := by
  refine BitVec.eq_of_getLsbD_eq fun i hi => ?_
  simp only [BitVec.getLsbD_or, BitVec.getLsbD_shiftLeft, BitVec.getLsbD_setWidth,
    BitVec.getLsbD_append, hi, decide_true, Bool.true_and]
  -- Only one of the four bytes reaches each bit.
  by_cases h₀ : i < 8
  · simp [h₀, hi, show i < 16 by omega, show i < 24 by omega]
  by_cases h₁ : i < 16
  · simp (disch := omega) [h₀, h₁, show i < 24 by omega, show i - 8 < 8 by omega,
      show i - 8 < 32 by omega]
  by_cases h₂ : i < 24
  · simp (disch := omega) [h₀, h₁, h₂, Nat.sub_sub, show ¬ i - 8 < 8 by omega,
      show i - 16 < 8 by omega, show i - 16 < 32 by omega]
  · simp (disch := omega) [h₀, h₁, h₂, Nat.sub_sub, show ¬ i - 8 < 8 by omega,
      show ¬ i - 16 < 8 by omega, show i - 24 < 32 by omega]

theorem getD_firstWords (block : Vector Byte 64) {t : Nat} (h : t < 16) :
    (firstWords block).getD t 0 = Fips.W block.toList t := by
  rw [Fips.W, if_pos h, firstWords, List.getD_eq_getElem?_getD, List.getElem?_map,
    List.getElem?_range h, Option.map_some, Option.getD_some, Fips.word, ← bytes_or]
  simp only [byteAt, Nat.mul_comm t 4]

/-- The words set so far are those of the standard, and each round sets one more. -/
theorem getD_nextWords (block : Vector Byte 64) (n : Nat) :
    ((List.range' 16 n).foldl nextWord (firstWords block)).length = 16 + n ∧
      ∀ t < 16 + n, ((List.range' 16 n).foldl nextWord (firstWords block)).getD t 0 =
        Fips.W block.toList t := by
  induction n with
  | zero => exact ⟨by simp [firstWords], fun t ht => getD_firstWords block ht⟩
  | succ n ih =>
    obtain ⟨hlen, hget⟩ := ih
    rw [List.range'_1_concat, List.foldl_append, List.foldl_cons, List.foldl_nil]
    generalize (List.range' 16 n).foldl nextWord (firstWords block) = W at hlen hget ⊢
    refine ⟨by simp only [nextWord, List.length_append, List.length_singleton, hlen]; omega,
      fun t ht => ?_⟩
    rw [nextWord, List.getD_eq_getElem?_getD]
    by_cases hlt : t < 16 + n
    · rw [List.getElem?_append_left (by omega), ← List.getD_eq_getElem?_getD, hget t hlt]
    · obtain rfl : t = 16 + n := by omega
      rw [List.getElem?_append_right (by omega), hlen, Nat.sub_self, List.getElem?_cons_zero,
        Option.getD_some, circularShift_eq (by decide), hget _ (by omega), hget _ (by omega),
        hget _ (by omega), hget _ (by omega)]
      conv_rhs => rw [Fips.W, if_neg (by omega)]

theorem getD_schedule (block : Vector Byte 64) {t : Nat} (h : t < 80) :
    (schedule block).getD t 0 = Fips.W block.toList t := (getD_nextWords block 64).2 t h

/-- A loop is twenty rounds of the standard, if it has their function and constant. -/
theorem rounds_eq (f : Word → Word → Word → Word) (k : Word) (block : Vector Byte 64) (first : Nat)
    (v : Words) (hlast : first ≤ 60)
    (hround : ∀ t, first ≤ t → t < first + 20 → (∀ x y z, f x y z = Fips.f t x y z) ∧ k = Fips.K t) :
    rounds f k (schedule block) first v =
      (List.range' first 20).foldl (Fips.round block.toList) v := by
  refine List.foldl_ext _ _ v fun v t ht => ?_
  obtain ⟨h₁, h₂⟩ := List.mem_range'_1.mp ht
  obtain ⟨hf, hk⟩ := hround t h₁ h₂
  rw [Fips.round, ← hk]
  simp only [round]
  rw [hf, getD_schedule block (by omega), and_mask, circularShift_eq (by decide),
    circularShift_eq (by decide), BitVec.add_assoc _ k, BitVec.add_comm k, ← BitVec.add_assoc]

/-- **A block is mixed in as the standard says.** -/
theorem processMessageBlock_H (s : SHA1) :
    s.processMessageBlock.H = Fips.compress s.H s.messageBlock.toList := by
  have hsplit : List.range 80 =
      List.range' 0 20 ++ List.range' 20 20 ++ List.range' 40 20 ++ List.range' 60 20 := by
    decide
  rw [Fips.compress, hsplit, List.foldl_append, List.foldl_append, List.foldl_append]
  simp only [processMessageBlock, and_mask]
  rw [rounds_eq _ _ _ 0 _ (by decide), rounds_eq _ _ _ 20 _ (by decide),
    rounds_eq _ _ _ 40 _ (by decide), rounds_eq _ _ _ 60 _ (by decide)]
  · rfl
  · intro t h₁ h₂
    simp only [Fips.f, Fips.K, Fips.parity, show ¬ t < 20 by omega, show ¬ t < 40 by omega,
      show ¬ t < 60 by omega, if_false, implies_true, and_self]
  · intro t h₁ h₂
    simp only [Fips.f, Fips.K, maj_or, show ¬ t < 20 by omega, show ¬ t < 40 by omega,
      show t < 60 by omega, if_false, if_true, implies_true, and_self]
  · intro t h₁ h₂
    simp only [Fips.f, Fips.K, Fips.parity, show ¬ t < 20 by omega, show t < 40 by omega,
      if_false, if_true, implies_true, and_self]
  · intro t h₁ h₂
    simp only [Fips.f, Fips.K, ch_or, show t < 20 by omega, if_true, implies_true, and_self]

theorem processMessageBlock_eq (s : SHA1) :
    s.processMessageBlock =
      { s with H := Fips.compress s.H s.messageBlock.toList, messageBlockIndex := 0 } := by
  rw [← processMessageBlock_H]
  rfl

/-! ## The calls -/

/-- `Message_Block[Message_Block_Index++] = b;` -/
def store (s : SHA1) (b : Byte) : Except Fault SHA1 :=
  if h : s.messageBlockIndex < 64 then
    .ok { s with
      messageBlock := s.messageBlock.set s.messageBlockIndex b h
      messageBlockIndex := s.messageBlockIndex + 1 }
  else .error .outOfBounds

/-- `while(Message_Block_Index < limit) Message_Block[Message_Block_Index++] = 0;` -/
def fill (s : SHA1) (limit : Nat) : Except Fault SHA1 :=
  (List.replicate (limit - s.messageBlockIndex) 0).foldlM store s

/-- mirrors src/src/common/sha1.cpp:7-22 -/
def reset (s : SHA1) : SHA1 :=
  { s with
    lengthLow := 0, lengthHigh := 0, messageBlockIndex := 0, H := Fips.initial
    computed := false, corrupted := false }

/-- The bits of one more byte; mirrors src/src/common/sha1.cpp:95-105. -/
def countByte (s : SHA1) : SHA1 :=
  let s := { s with lengthLow := (s.lengthLow + 8) &&& 0xFFFFFFFF }
  if s.lengthLow = 0 then
    let s := { s with lengthHigh := (s.lengthHigh + 1) &&& 0xFFFFFFFF }
    if s.lengthHigh = 0 then { s with corrupted := true } else s
  else s

/-- One round of the loop of `Input`; mirrors src/src/common/sha1.cpp:91-113. -/
def inputByte (s : SHA1) (b : Byte) : Except Fault SHA1 :=
  if s.corrupted then .ok s
  else do
    let s ← s.store (b &&& 0xFF)
    let s := s.countByte
    return if s.messageBlockIndex = 64 then s.processMessageBlock else s

/-- `length` is the length of the array. Mirrors src/src/common/sha1.cpp:77-114. -/
def input (s : SHA1) (messageArray : List Byte) : Except Fault SHA1 :=
  if messageArray.length = 0 then .ok s
  else if s.computed || s.corrupted then .ok { s with corrupted := true }
  else messageArray.foldlM inputByte s

/-- One byte a call, up to the terminating zero; mirrors src/src/common/sha1.cpp:133-144
(`operator<<`). -/
def shl (s : SHA1) (messageArray : List Byte) : Except Fault SHA1 :=
  (messageArray.takeWhile (· ≠ 0)).foldlM (fun s p => s.input [p]) s

/-- The eight bytes at the end of the block; mirrors src/src/common/sha1.cpp:289-302. -/
def storeLength (s : SHA1) : SHA1 :=
  let byte (x : Word) : Byte := (x &&& 0xFF).setWidth 8
  { s with
    messageBlock := s.messageBlock
      |>.set 56 (byte (s.lengthHigh >>> 24)) |>.set 57 (byte (s.lengthHigh >>> 16))
      |>.set 58 (byte (s.lengthHigh >>> 8)) |>.set 59 (byte s.lengthHigh)
      |>.set 60 (byte (s.lengthLow >>> 24)) |>.set 61 (byte (s.lengthLow >>> 16))
      |>.set 62 (byte (s.lengthLow >>> 8)) |>.set 63 (byte s.lengthLow) }

/-- `PadMessage` up to the length; mirrors src/src/common/sha1.cpp:261-284. -/
def padBlock (s : SHA1) : Except Fault SHA1 :=
  if s.messageBlockIndex > 55 then do
    let s ← s.store 0x80
    let s ← s.fill 64
    s.processMessageBlock.fill 56
  else do
    let s ← s.store 0x80
    s.fill 56

/-- mirrors src/src/common/sha1.cpp:254-305 -/
def padMessage (s : SHA1) : Except Fault SHA1 := do
  let s ← s.padBlock
  return s.storeLength.processMessageBlock

/-- `false` is `none`; mirrors src/src/common/sha1.cpp:25-47. -/
def result (s : SHA1) : Except Fault (Option Words × SHA1) :=
  if s.corrupted then .ok (none, s)
  else if s.computed then .ok (some s.H, s)
  else do
    let s ← s.padMessage
    return (some s.H, { s with computed := true })

/-! ## Stores -/

/-- The bytes of the block that is not full yet. -/
def held (s : SHA1) : List Byte := s.messageBlock.toList.take s.messageBlockIndex

/-- What the object has absorbed. -/
def view (s : SHA1) : Absorber Byte Words := ⟨s.H, s.held⟩

/-- Stores that fit append to what is held and change nothing else. -/
theorem store_all (s : SHA1) (bs : List Byte) (h : s.messageBlockIndex + bs.length ≤ 64) :
    ∃ block : Vector Byte 64,
      bs.foldlM store s = .ok { s with
        messageBlock := block, messageBlockIndex := s.messageBlockIndex + bs.length } ∧
      block.toList.take (s.messageBlockIndex + bs.length) = s.held ++ bs := by
  induction bs generalizing s with
  | nil => exact ⟨s.messageBlock, rfl, by simp [held]⟩
  | cons b bs ih =>
    rw [List.length_cons] at h
    have hidx : s.messageBlockIndex < 64 := by omega
    obtain ⟨block, hfold, htake⟩ := ih { s with
      messageBlock := s.messageBlock.set s.messageBlockIndex b hidx
      messageBlockIndex := s.messageBlockIndex + 1 } (by simp only; omega)
    have hlen : s.messageBlockIndex + (b :: bs).length = s.messageBlockIndex + 1 + bs.length := by
      rw [List.length_cons]; omega
    have hset : (s.messageBlock.toList.set s.messageBlockIndex b).take (s.messageBlockIndex + 1) =
        s.held ++ [b] := by
      have hle : s.messageBlockIndex ≤ s.messageBlock.toList.length := by
        rw [Vector.length_toList]; omega
      rw [List.set_eq_take_append_cons_drop, if_pos (by rw [Vector.length_toList]; exact hidx),
        List.take_append, List.length_take_of_le hle, Nat.add_sub_cancel_left, held]
      simp
    refine ⟨block, ?_, ?_⟩
    · rw [List.foldlM_cons, store, dif_pos hidx, hlen]
      exact hfold
    · rw [hlen, htake, held, Vector.toList_set, hset, List.append_assoc, List.singleton_append]

theorem fill_eq (s : SHA1) (limit : Nat) (h : s.messageBlockIndex ≤ limit) (hl : limit ≤ 64) :
    ∃ block : Vector Byte 64,
      s.fill limit = .ok { s with messageBlock := block, messageBlockIndex := limit } ∧
      block.toList.take limit = s.held ++ List.replicate (limit - s.messageBlockIndex) 0 := by
  obtain ⟨block, hfold, htake⟩ := store_all s (List.replicate (limit - s.messageBlockIndex) 0)
    (by rw [List.length_replicate]; omega)
  rw [List.length_replicate, Nat.add_sub_cancel' h] at hfold htake
  exact ⟨block, hfold, htake⟩

/-! ## Padding -/

/-- The two counters hold the length of a message of `len` bytes, in bits. -/
def Counts (s : SHA1) (len : Nat) : Prop :=
  s.lengthHigh.toNat * 2 ^ 32 + s.lengthLow.toNat = 8 * len

theorem byte_shr (x : Word) (k : Nat) :
    (((x >>> k) &&& 0xFF).setWidth 8 : Byte) = BitVec.ofNat 8 (x.toNat / 2 ^ k) := by
  refine BitVec.eq_of_toNat_eq ?_
  have hmask : (0xFF : Word).toNat = 2 ^ 8 - 1 := rfl
  rw [BitVec.toNat_setWidth, BitVec.toNat_and, hmask, Nat.and_two_pow_sub_one_eq_mod,
    BitVec.toNat_ushiftRight, Nat.shiftRight_eq_div_pow, BitVec.toNat_ofNat, Nat.mod_mod]

theorem ofNat_congr {a b : Nat} (h : a % 256 = b % 256) : (BitVec.ofNat 8 a : Byte) = BitVec.ofNat 8 b :=
  BitVec.eq_of_toNat_eq (by rw [BitVec.toNat_ofNat, BitVec.toNat_ofNat]; exact h)

/-- The bytes of the two counters, the high one first. -/
theorem lengthField_eq {high low len : Nat} (hlow : low < 2 ^ 32) (h : high * 2 ^ 32 + low = 8 * len) :
    Fips.lengthField len =
      [BitVec.ofNat 8 (high / 2 ^ 24), BitVec.ofNat 8 (high / 2 ^ 16), BitVec.ofNat 8 (high / 2 ^ 8),
        BitVec.ofNat 8 (high / 2 ^ 0), BitVec.ofNat 8 (low / 2 ^ 24), BitVec.ofNat 8 (low / 2 ^ 16),
        BitVec.ofNat 8 (low / 2 ^ 8), BitVec.ofNat 8 (low / 2 ^ 0)] := by
  simp only [Fips.lengthField, ← h, List.range_succ_eq_map, List.range_zero, List.map_cons,
    List.map_nil, List.cons.injEq, and_true]
  refine ⟨?_, ?_, ?_, ?_, ?_, ?_, ?_, ?_⟩ <;> refine ofNat_congr ?_ <;> norm_num <;> omega

/-- The last eight bytes are the standard's length field. -/
theorem storeLength_toList (s : SHA1) {len : Nat} (h : s.Counts len) :
    s.storeLength.messageBlock.toList = s.messageBlock.toList.take 56 ++ Fips.lengthField len := by
  -- Eight stores from position 56 on set the same places.
  obtain ⟨block, hfold, htake⟩ := store_all { s with messageBlockIndex := 56 }
    (Fips.lengthField len) (by simp [Fips.lengthField])
  rw [lengthField_eq s.lengthLow.isLt h] at hfold htake ⊢
  simp only [← byte_shr] at hfold htake ⊢
  have hblock : s.storeLength.messageBlock = block :=
    congrArg messageBlock (Except.ok.inj hfold)
  rw [hblock]
  have hlen : block.toList.take 64 = block.toList := List.take_of_length_le (by simp)
  rw [← hlen]
  exact htake

theorem length_held {s : SHA1} (h : s.messageBlockIndex ≤ 64) :
    s.held.length = s.messageBlockIndex :=
  List.length_take_of_le (by rw [Vector.length_toList]; exact h)

/-- A full block goes into the chain with what was held. -/
theorem absorb_block (s : SHA1) (bs block : List Byte) (hne : bs ≠ [])
    (hidx : s.messageBlockIndex ≤ 64) (hlen : s.messageBlockIndex + bs.length = 64)
    (hblock : block = s.held ++ bs) :
    s.view.absorb 64 Fips.compress bs = ⟨Fips.compress s.H block, []⟩ := by
  rw [hblock]
  exact Absorber.absorb_full (s := s.view) hne (by rw [view, length_held hidx, hlen])

/-- The end of `PadMessage`: the length stored and the block mixed in. -/
theorem absorb_storeLength (s : SHA1) {len : Nat} (h : s.Counts len)
    (hidx : s.messageBlockIndex = 56) :
    s.view.absorb 64 Fips.compress (Fips.lengthField len) =
      ⟨s.storeLength.processMessageBlock.H, []⟩ := by
  have hlength : (Fips.lengthField len).length = 8 := by simp [Fips.lengthField]
  rw [processMessageBlock_H]
  refine absorb_block s _ _ (by rw [← List.length_pos_iff]; omega) (by omega) (by omega) ?_
  rw [storeLength_toList s h, held, hidx]

/-- The closing bit and zeros up to `limit`, as both branches of `PadMessage` begin. -/
theorem mark_fill (s : SHA1) (limit : Nat) (h : s.messageBlockIndex < limit) (hl : limit ≤ 64) :
    ∃ block : Vector Byte 64,
      (do let s ← s.store 0x80; s.fill limit) =
        .ok { s with messageBlock := block, messageBlockIndex := limit } ∧
      block.toList.take limit =
        s.held ++ 0x80 :: List.replicate (limit - (s.messageBlockIndex + 1)) 0 := by
  have hidx : s.messageBlockIndex < 64 := by omega
  have hlen : s.messageBlockIndex +
      (0x80 :: List.replicate (limit - (s.messageBlockIndex + 1)) (0 : Byte)).length = limit := by
    rw [List.length_cons, List.length_replicate]; omega
  obtain ⟨block, hfold, htake⟩ := store_all s
    (0x80 :: List.replicate (limit - (s.messageBlockIndex + 1)) 0) (by omega)
  rw [hlen] at hfold htake
  refine ⟨block, ?_, htake⟩
  rw [List.foldlM_cons, store, dif_pos hidx] at hfold
  rw [store, dif_pos hidx]
  exact hfold

/-- Up to 55 bytes leave room for the length. -/
theorem padBlock_short (s : SHA1) {len : Nat} (hidx : s.messageBlockIndex = len % 64)
    (h55 : s.messageBlockIndex ≤ 55) :
    ∃ block : Vector Byte 64,
      s.padBlock = .ok { s with messageBlock := block, messageBlockIndex := 56 } ∧
      s.view.absorb 64 Fips.compress (0x80 :: List.replicate (Fips.zeros len) 0) =
        ⟨s.H, block.toList.take 56⟩ := by
  obtain ⟨block, hmark, htake⟩ := mark_fill s 56 (by omega) (by decide)
  have hzeros : Fips.zeros len = 56 - (s.messageBlockIndex + 1) := by rw [Fips.zeros]; omega
  have hheld := length_held (s := s) (by omega)
  refine ⟨block, by rw [padBlock, if_neg (by omega), hmark], ?_⟩
  rw [Absorber.absorb_of_lt (by
    rw [view, hheld, List.length_cons, List.length_replicate]; omega), hzeros, htake]
  rfl

/-- More of them leave a block for the length alone. -/
theorem padBlock_long (s : SHA1) {len : Nat} (hidx : s.messageBlockIndex = len % 64)
    (h55 : 55 < s.messageBlockIndex) :
    ∃ (block : Vector Byte 64) (H : Words),
      s.padBlock = .ok { s with H := H, messageBlock := block, messageBlockIndex := 56 } ∧
      s.view.absorb 64 Fips.compress (0x80 :: List.replicate (Fips.zeros len) 0) =
        ⟨H, block.toList.take 56⟩ := by
  obtain ⟨block₁, hmark, htake₁⟩ := mark_fill s 64 (by omega) (Nat.le_refl _)
  obtain ⟨block₂, hfill, htake₂⟩ := fill_eq { s with
    H := Fips.compress s.H block₁.toList, messageBlock := block₁, messageBlockIndex := 0 }
    56 (Nat.zero_le _) (by decide)
  have hzeros : Fips.zeros len = 64 - (s.messageBlockIndex + 1) + 56 := by rw [Fips.zeros]; omega
  have hfirst := absorb_block s (0x80 :: List.replicate (64 - (s.messageBlockIndex + 1)) 0)
    block₁.toList (List.cons_ne_nil _ _) (by omega)
    (by rw [List.length_cons, List.length_replicate]; omega)
    (by rw [← htake₁, List.take_of_length_le (by rw [Vector.length_toList])])
  refine ⟨block₂, Fips.compress s.H block₁.toList, ?_, ?_⟩
  · rw [padBlock, if_pos h55, ← bind_assoc, hmark, ok_bind, processMessageBlock_eq]
    exact hfill
  · rw [hzeros, List.replicate_add, ← List.cons_append, Absorber.absorb_append, hfirst,
      Absorber.absorb_of_lt (by rw [List.length_replicate, List.length_nil]; decide), htake₂]
    simp only [held, List.take_zero, Nat.sub_zero]

/-- **`PadMessage` absorbs the standard's padding**, in one block more or in two. -/
theorem padMessage_eq (s : SHA1) {len : Nat} (h : s.Counts len)
    (hidx : s.messageBlockIndex = len % 64) :
    ∃ s', s.padMessage = .ok s' ∧ s'.corrupted = s.corrupted ∧
      s.view.absorb 64 Fips.compress (Fips.padding len) = ⟨s'.H, []⟩ := by
  obtain ⟨block, H, hpad, hview⟩ : ∃ (block : Vector Byte 64) (H : Words),
      s.padBlock = .ok { s with H := H, messageBlock := block, messageBlockIndex := 56 } ∧
      s.view.absorb 64 Fips.compress (0x80 :: List.replicate (Fips.zeros len) 0) =
        ⟨H, block.toList.take 56⟩ := by
    rcases Nat.lt_or_ge 55 s.messageBlockIndex with h55 | h55
    · exact padBlock_long s hidx h55
    · obtain ⟨block, hpad⟩ := padBlock_short s hidx h55
      exact ⟨block, s.H, hpad⟩
  refine ⟨_, by rw [padMessage, hpad]; rfl, by rw [processMessageBlock_eq]; rfl, ?_⟩
  rw [Fips.padding, Absorber.absorb_append, hview]
  exact absorb_storeLength { s with H := H, messageBlock := block, messageBlockIndex := 56 } h rfl

/-! ## One byte -/

/-- Counting reads and sets the counters only. -/
theorem countByte_with (s : SHA1) (block : Vector Byte 64) (idx : Nat) :
    ({ s with messageBlock := block, messageBlockIndex := idx } : SHA1).countByte =
      { s with
        messageBlock := block, messageBlockIndex := idx, lengthLow := s.countByte.lengthLow
        lengthHigh := s.countByte.lengthHigh, corrupted := s.countByte.corrupted } := by
  simp only [countByte]
  split
  · split <;> rfl
  · rfl

/-- The counters hold one byte more, and the one that makes 2^61 is too many. -/
theorem countByte_counts {s : SHA1} {len : Nat} (h : s.Counts len) (hc : s.corrupted = false)
    (hlt : len < 2 ^ 61) :
    if len + 1 < 2 ^ 61 then s.countByte.corrupted = false ∧ s.countByte.Counts (len + 1)
    else s.countByte.corrupted = true := by
  have hlow := s.lengthLow.isLt
  have hhigh := s.lengthHigh.isLt
  have hlow' : (s.lengthLow + 8).toNat = (s.lengthLow.toNat + 8) % 2 ^ 32 := BitVec.toNat_add _ _
  have hhigh' : (s.lengthHigh + 1).toNat = (s.lengthHigh.toNat + 1) % 2 ^ 32 := BitVec.toNat_add _ _
  simp only [Counts] at h
  by_cases hl : s.lengthLow + 8 = 0
  · rw [hl, show (0 : Word).toNat = 0 from rfl] at hlow'
    by_cases hh : s.lengthHigh + 1 = 0
    · rw [hh, show (0 : Word).toNat = 0 from rfl] at hhigh'
      rw [if_neg (by omega)]
      simp only [countByte, and_mask, hl, hh, if_true]
    · have hh' : (s.lengthHigh + 1).toNat ≠ 0 := fun h0 => hh (BitVec.eq_of_toNat_eq h0)
      rw [Nat.mod_eq_of_lt (by omega)] at hhigh'
      rw [if_pos (by omega)]
      simp only [countByte, and_mask, hl, hh, if_true, if_false, hc, Counts, hhigh', true_and,
        show (0 : Word).toNat = 0 from rfl, Nat.add_mul, Nat.one_mul, Nat.add_zero]
      omega
  · have hl' : (s.lengthLow + 8).toNat ≠ 0 := fun h0 => hl (BitVec.eq_of_toNat_eq h0)
    rw [if_pos (by omega)]
    simp only [countByte, and_mask, hl, if_false, hc, Counts, hlow', true_and]
    omega

/-- A byte that is taken goes where the standard has it. -/
theorem inputByte_eq (s : SHA1) (b : Byte) (hc : s.corrupted = false)
    (hidx : s.messageBlockIndex < 64) :
    ∃ s', s.inputByte b = .ok s' ∧ s'.view = s.view.push 64 Fips.compress b ∧
      s'.messageBlockIndex = (s.messageBlockIndex + 1) % 64 ∧ s'.computed = s.computed ∧
      s'.corrupted = s.countByte.corrupted ∧ (∀ len, s'.Counts len ↔ s.countByte.Counts len) := by
  obtain ⟨block, hstore, htake⟩ := store_all s [b] (by simpa using hidx)
  simp only [List.foldlM_cons, List.foldlM_nil, bind_pure, List.length_singleton] at hstore
  rw [List.length_singleton] at htake
  have hmask : b &&& 0xFF = b := BitVec.and_allOnes
  have hheld := length_held (s := s) (by omega)
  have hbyte : s.inputByte b = .ok (
      let s₁ := ({ s with
        messageBlock := block, messageBlockIndex := s.messageBlockIndex + 1 } : SHA1).countByte
      if s₁.messageBlockIndex = 64 then s₁.processMessageBlock else s₁) := by
    rw [inputByte, if_neg (by rw [hc]; decide), hmask, hstore]
    rfl
  rw [countByte_with] at hbyte
  by_cases hfull : s.messageBlockIndex + 1 = 64
  · rw [hfull, List.take_of_length_le (by rw [Vector.length_toList])] at htake
    simp only [hfull, if_true] at hbyte
    rw [processMessageBlock_eq] at hbyte
    refine ⟨_, hbyte, ?_, by rw [hfull], rfl, rfl, fun len => by rw [Counts, Counts]⟩
    rw [Absorber.push, view, view, if_pos (by rw [hheld, hfull]), ← htake]
    simp only [held, List.take_zero]
  · simp only [hfull, if_false] at hbyte
    refine ⟨_, hbyte, ?_, by simp only; omega, rfl, rfl,
      fun len => by rw [Counts, Counts]⟩
    rw [Absorber.push, view, view, if_neg (by rw [hheld]; exact hfull), ← htake]
    simp only [held]

/-! ## Sessions -/

/-- What the object stands for between two calls. -/
inductive Session
  /-- Taking input; the bytes since the last `Reset`. -/
  | taking (m : List Byte)
  | finished (m : List Byte)
  /-- Too long, or written to after a digest was read. -/
  | spoiled

inductive Call
  | reset
  | input (messageArray : List Byte)
  /-- `operator<<` on a C string. -/
  | shl (messageArray : List Byte)
  | result

namespace Session

def input (p : Session) (bs : List Byte) : Session :=
  if bs = [] then p
  else match p with
    | .taking m => if m.length + bs.length < 2 ^ 61 then .taking (m ++ bs) else .spoiled
    | .finished _ => .spoiled
    | .spoiled => .spoiled

def digest : Session → Option Words
  | .taking m => some (Fips.sha1 m)
  | .finished m => some (Fips.sha1 m)
  | .spoiled => none

def finish : Session → Session
  | .taking m => .finished m
  | .finished m => .finished m
  | .spoiled => .spoiled

def call (p : Session) : Call → List (Option Words) × Session
  | .reset => ([], .taking [])
  | .input messageArray => ([], p.input messageArray)
  | .shl messageArray => ([], p.input (messageArray.takeWhile (· ≠ 0)))
  | .result => ([p.digest], p.finish)

def answers : Session → List Call → List (Option Words)
  | _, [] => []
  | p, c :: cs => (p.call c).1 ++ (p.call c).2.answers cs

end Session

/-- The digests a call reads, and the object after it. -/
def call (s : SHA1) : Call → Except Fault (List (Option Words) × SHA1)
  | .reset => return ([], s.reset)
  | .input messageArray => return ([], ← s.input messageArray)
  | .shl messageArray => return ([], ← s.shl messageArray)
  | .result => do
    let (digest, s) ← s.result
    return ([digest], s)

def answers : SHA1 → List Call → Except Fault (List (Option Words))
  | _, [] => return []
  | s, c :: cs => do
    let (digests, s) ← s.call c
    return digests ++ (← s.answers cs)

/-- The object after the input `m`. -/
structure Taking (s : SHA1) (m : List Byte) : Prop where
  computed : s.computed = false
  corrupted : s.corrupted = false
  short : m.length < 2 ^ 61
  counts : s.Counts m.length
  index : s.messageBlockIndex = m.length % 64
  view : s.view = (Absorber.mk Fips.initial []).absorb 64 Fips.compress m

/-- The object is in the session. -/
def In (s : SHA1) : Session → Prop
  | .taking m => s.Taking m
  | .finished m => s.computed = true ∧ s.corrupted = false ∧ s.H = Fips.sha1 m
  | .spoiled => s.corrupted = true

theorem in_reset (s : SHA1) : s.reset.In (.taking []) where
  computed := rfl
  corrupted := rfl
  short := by decide
  counts := by simp [Counts, reset]
  index := rfl
  view := by simp [SHA1.view, held, reset]

theorem inputByte_taking {s : SHA1} {m : List Byte} (h : s.Taking m) (b : Byte) :
    ∃ s', s.inputByte b = .ok s' ∧ s'.In ((Session.taking m).input [b]) := by
  have hidx : s.messageBlockIndex < 64 := by rw [h.index]; exact Nat.mod_lt _ (by decide)
  obtain ⟨s', hb, hview, hindex, hcomp, hcorr, hcounts⟩ := inputByte_eq s b h.corrupted hidx
  refine ⟨s', hb, ?_⟩
  have hcount := countByte_counts h.counts h.corrupted h.short
  rw [Session.input, if_neg (List.cons_ne_nil _ _)]
  simp only [List.length_singleton]
  split at hcount <;> rename_i hlt
  · rw [if_pos hlt]
    refine ⟨hcomp.trans h.computed, hcorr.trans hcount.1, ?_, ?_, ?_, ?_⟩
    · rwa [List.length_append]
    · rw [List.length_append]; exact (hcounts _).mpr hcount.2
    · rw [hindex, h.index, List.length_append, List.length_singleton]; omega
    · rw [hview, h.view, Absorber.absorb_snoc]
  · rw [if_neg hlt]
    exact hcorr.trans hcount

/-- A spoiled object takes no more input. -/
theorem foldlM_inputByte_spoiled {s : SHA1} (h : s.corrupted = true) (bs : List Byte) :
    bs.foldlM inputByte s = .ok s := by
  induction bs with
  | nil => rfl
  | cons b bs ih =>
    rw [List.foldlM_cons, inputByte, if_pos h]
    exact ih

namespace Session

theorem input_nil (p : Session) : p.input [] = p := if_pos rfl

theorem input_taking {m bs : List Byte} (h : bs ≠ []) :
    (taking m).input bs = if m.length + bs.length < 2 ^ 61 then taking (m ++ bs) else spoiled :=
  if_neg h

theorem input_finished {m bs : List Byte} (h : bs ≠ []) : (finished m).input bs = spoiled := if_neg h

theorem input_spoiled (bs : List Byte) : spoiled.input bs = spoiled := by
  rw [input]
  split <;> rfl

/-- Input in two calls is input in one. -/
theorem input_append (p : Session) (bs bs' : List Byte) :
    p.input (bs ++ bs') = (p.input bs).input bs' := by
  by_cases hb : bs = []
  · rw [hb, List.nil_append, input_nil]
  by_cases hb' : bs' = []
  · rw [hb', List.append_nil, input_nil]
  have hne : bs ++ bs' ≠ [] := fun h => hb (List.append_eq_nil_iff.mp h).1
  cases p with
  | finished m => rw [input_finished hne, input_finished hb, input_spoiled]
  | spoiled => rw [input_spoiled, input_spoiled, input_spoiled]
  | taking m =>
    rw [input_taking hne, input_taking hb, List.length_append]
    split
    · rw [if_pos (by omega), input_taking hb', List.length_append, if_pos (by omega),
        List.append_assoc]
    · split
      · rw [input_taking hb', List.length_append, if_neg (by omega)]
      · rw [input_spoiled]

end Session

/-- The loop of `Input`, from an object that takes input. -/
theorem foldlM_inputByte {s : SHA1} {m : List Byte} (h : s.Taking m) (bs : List Byte) :
    ∃ s', bs.foldlM inputByte s = .ok s' ∧ s'.In ((Session.taking m).input bs) := by
  induction bs generalizing s m with
  | nil => exact ⟨s, rfl, h⟩
  | cons b bs ih =>
    obtain ⟨s₁, hb, hin⟩ := inputByte_taking h b
    rw [← List.singleton_append, Session.input_append, List.singleton_append, List.foldlM_cons, hb]
    rw [Session.input_taking (List.cons_ne_nil _ _)] at hin ⊢
    split at hin <;> rename_i hlt
    · rw [if_pos hlt]
      exact ih hin
    · rw [if_neg hlt, Session.input_spoiled]
      exact ⟨s₁, foldlM_inputByte_spoiled hin bs, hin⟩

/-! ## Every call -/

theorem input_in {s : SHA1} {p : Session} (h : s.In p) (bs : List Byte) :
    ∃ s', s.input bs = .ok s' ∧ s'.In (p.input bs) := by
  by_cases hb : bs = []
  · rw [hb, Session.input_nil]
    exact ⟨s, rfl, h⟩
  · have hlen : ¬ bs.length = 0 := fun h => hb (List.length_eq_zero_iff.mp h)
    rw [SHA1.input, if_neg hlen]
    cases p with
    | taking m =>
      rw [if_neg (by rw [h.computed, h.corrupted]; decide)]
      exact foldlM_inputByte h bs
    | finished m =>
      rw [if_pos (by rw [h.1, Bool.true_or]), Session.input_finished hb]
      exact ⟨_, rfl, rfl⟩
    | spoiled =>
      have hc : s.corrupted = true := h
      rw [if_pos (by rw [hc, Bool.or_true]), Session.input_spoiled]
      exact ⟨_, rfl, rfl⟩

/-- `operator<<` is one call of `Input` with the bytes before the terminator. -/
theorem foldlM_input_in {s : SHA1} {p : Session} (h : s.In p) (bs : List Byte) :
    ∃ s', bs.foldlM (fun s b => s.input [b]) s = .ok s' ∧ s'.In (p.input bs) := by
  induction bs generalizing s p with
  | nil => exact ⟨s, rfl, by rw [Session.input_nil]; exact h⟩
  | cons b bs ih =>
    obtain ⟨s₁, hb, hin⟩ := input_in h [b]
    rw [← List.singleton_append, Session.input_append, List.singleton_append, List.foldlM_cons, hb]
    exact ih hin

theorem result_in {s : SHA1} {p : Session} (h : s.In p) :
    ∃ s', s.result = .ok (p.digest, s') ∧ s'.In p.finish := by
  cases p with
  | taking m =>
    obtain ⟨s', hpad, hcorr, hview⟩ := padMessage_eq s h.counts h.index
    have hH : s'.H = Fips.sha1 m := by
      rw [h.view, ← Absorber.absorb_append] at hview
      exact congrArg Absorber.chain (hview.symm.trans (Fips.sha1_eq_absorb m))
    refine ⟨{ s' with computed := true }, ?_, rfl, hcorr.trans h.corrupted, hH⟩
    rw [result, if_neg (by rw [h.corrupted]; decide), if_neg (by rw [h.computed]; decide), hpad,
      Session.digest, ← hH]
    rfl
  | finished m =>
    refine ⟨s, ?_, h⟩
    rw [result, if_neg (by rw [h.2.1]; decide), if_pos h.1, h.2.2, Session.digest]
  | spoiled => exact ⟨s, if_pos h, h⟩

theorem call_in {s : SHA1} {p : Session} (h : s.In p) (c : Call) :
    ∃ s', s.call c = .ok ((p.call c).1, s') ∧ s'.In (p.call c).2 := by
  cases c with
  | reset => exact ⟨_, rfl, in_reset s⟩
  | input messageArray =>
    obtain ⟨s', hs, hin⟩ := input_in h messageArray
    exact ⟨s', by rw [call, hs]; rfl, hin⟩
  | shl messageArray =>
    obtain ⟨s', hs, hin⟩ := foldlM_input_in h (messageArray.takeWhile (· ≠ 0))
    exact ⟨s', by rw [call, shl, hs]; rfl, hin⟩
  | result =>
    obtain ⟨s', hs, hin⟩ := result_in h
    exact ⟨s', by rw [call, hs]; rfl, hin⟩

theorem answers_of_in {s : SHA1} {p : Session} (h : s.In p) (cs : List Call) :
    s.answers cs = .ok (p.answers cs) := by
  induction cs generalizing s p with
  | nil => rfl
  | cons c cs ih =>
    obtain ⟨s', hs, hin⟩ := call_in h c
    rw [answers, hs, ok_bind]
    simp only [ih hin]
    rfl

/-- **In every order of calls the digests are those of the session.** -/
theorem answers_eq (s : SHA1) (cs : List Call) :
    s.reset.answers cs = .ok ((Session.taking []).answers cs) := answers_of_in (in_reset s) cs

/-- `"abc"`, an example of the standard. -/
example : ((⟨⟨0, 0, 0, 0, 0⟩, 0, 0, Vector.replicate 64 0, 0, true, true⟩ : SHA1).reset.answers
    [.input [0x61, 0x62], .shl [0x63, 0, 0x64], .result]) =
      .ok [some ⟨0xa9993e36, 0x4706816a, 0xba3e2571, 0x7850c26c, 0x9cd0d89d⟩] := by
  decide +kernel

/-! ## `KadID()` -/

/-- mirrors src/src/common/sha1.cpp:50-75 (`Result(Rossi&)`); `none` leaves `bint` alone. -/
def resultRossi (s : SHA1) : Except Fault (Option Rossi × SHA1) := do
  let (digest, s) ← s.result
  return (digest.map fun d => (KadID.ofDigest ![d.a, d.b, d.c, d.d, d.e]).rawId, s)

/-- `std::ostringstream << long` -/
def decimal (x : Int) : List Byte :=
  ((if x < 0 then ['-'] else []) ++ Nat.toDigits 10 x.natAbs).map fun c => BitVec.ofNat 8 c.toNat

/-- `sha1` is the local object before its constructor, `tmpTime` is `timer.current()`. Mirrors
src/src/kademlia/kadid.cpp:22-33. -/
def kadID (sha1 : SHA1) (tmpTime : BitVec 64) : Except Fault (Option KadID) := do
  let sha1 := sha1.reset.reset
  let sha1 ← sha1.shl (decimal tmpTime.toInt)
  let (rawId, _) ← sha1.resultRossi
  return rawId.map KadID.mk

/-- A digest as one number. -/
def number (d : Words) : Nat := KadID.digestNumber ![d.a, d.b, d.c, d.d, d.e]

/-- What is written is never a terminator. -/
theorem ne_zero_of_mem_decimal {x : Int} {b : Byte} (h : b ∈ decimal x) : b ≠ 0 := by
  have hdigit : ∀ c : Char, c.isDigit = true → (BitVec.ofNat 8 c.toNat : Byte) ≠ 0 := by
    intro c hc h0
    rw [Char.isDigit_iff_toNat, show '0'.toNat = 48 from rfl, show '9'.toNat = 57 from rfl] at hc
    have h0' : c.toNat % 2 ^ 8 = 0 := by rw [← BitVec.toNat_ofNat, h0]; rfl
    omega
  rw [decimal, List.map_append, List.mem_append] at h
  rcases h with h | h
  · split at h
    · simp only [List.map_cons, List.map_nil, List.mem_singleton] at h
      rw [h]
      decide
    · cases h
  · obtain ⟨c, hc, rfl⟩ := List.mem_map.mp h
    exact hdigit c (Nat.isDigit_of_mem_toDigits (by decide) (by decide) hc)

/-- A sign and at most twenty digits. -/
theorem length_decimal_le (x : BitVec 64) : (decimal x.toInt).length ≤ 21 := by
  have hdigits : (Nat.toDigits 10 x.toInt.natAbs).length ≤ 20 := by
    rw [Nat.length_toDigits_le_iff (by decide) (by decide)]
    have hle := BitVec.toInt_lt (x := x)
    have hge := BitVec.le_toInt x
    omega
  rw [decimal, List.length_map, List.length_append]
  split
  · rw [List.length_singleton]; omega
  · rw [List.length_nil]; omega

/-- **`KadID()` is the hash of the clock reading**, and no step of it fails. -/
theorem kadID_eq (sha1 : SHA1) (tmpTime : BitVec 64) :
    ∃ id : KadID, kadID sha1 tmpTime = .ok (some id) ∧
      id.toNat = number (Fips.sha1 (decimal tmpTime.toInt)) ∧ id < KadID.kMaxID := by
  have htake : (decimal tmpTime.toInt).takeWhile (· ≠ 0) = decimal tmpTime.toInt := by
    rw [List.takeWhile_eq_self_iff]
    intro b hb
    exact decide_eq_true (ne_zero_of_mem_decimal hb)
  have hsession : ((Session.taking []).input (decimal tmpTime.toInt)).digest =
      some (Fips.sha1 (decimal tmpTime.toInt)) := by
    have hlen := length_decimal_le tmpTime
    by_cases hne : decimal tmpTime.toInt = []
    · rw [hne, Session.input_nil, Session.digest]
    · rw [Session.input_taking hne, if_pos (by rw [List.length_nil]; omega), List.nil_append,
        Session.digest]
  obtain ⟨s₁, hshl, hin⟩ := foldlM_input_in (in_reset sha1.reset) (decimal tmpTime.toInt)
  obtain ⟨s₂, hresult, -⟩ := result_in hin
  rw [hsession] at hresult
  generalize Fips.sha1 (decimal tmpTime.toInt) = d at hresult ⊢
  have hrossi : s₁.resultRossi =
      .ok (some (KadID.ofDigest ![d.a, d.b, d.c, d.d, d.e]).rawId, s₂) := by
    rw [resultRossi, hresult]
    rfl
  refine ⟨KadID.ofDigest ![d.a, d.b, d.c, d.d, d.e], ?_, KadID.toNat_ofDigest _,
    KadID.ofDigest_lt_kMaxID _⟩
  rw [kadID, shl, htake, hshl, ok_bind, hrossi]
  rfl

end SHA1
end Kadpeer.L1
