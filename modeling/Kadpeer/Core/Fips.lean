import Kadpeer.Core.Absorb
import Mathlib.Data.BitVec

/-!
# SHA-1, as the Secure Hash Standard (FIPS 180) defines it

The hash of a message of less than 2^64 bits: the message is padded to whole
blocks of 512 bits (`pad`), every block is expanded to eighty words (`W`) and
mixed into five words in eighty rounds (`compress`).

* `length_pad`: the padded message is a whole number of blocks.
* `sha1_eq_absorb`: the hash is the chain value an `Absorber` ends with.
-/
namespace Kadpeer.Core.Fips

abbrev Byte := BitVec 8
abbrev Word := BitVec 32

/-- Five working variables, or the five words of a hash value. -/
@[ext]
structure Words where
  a : Word
  b : Word
  c : Word
  d : Word
  e : Word
deriving DecidableEq

/-- Wordwise addition. -/
def Words.add (x y : Words) : Words := ⟨x.a + y.a, x.b + y.b, x.c + y.c, x.d + y.d, x.e + y.e⟩

/-- The big-endian words of a block. -/
def word (block : List Byte) (t : Nat) : Word :=
  block.getD (4 * t) 0 ++ block.getD (4 * t + 1) 0 ++ block.getD (4 * t + 2) 0 ++
    block.getD (4 * t + 3) 0

/-- The message schedule. -/
def W (block : List Byte) (t : Nat) : Word :=
  if t < 16 then word block t
  else (W block (t - 3) ^^^ W block (t - 8) ^^^ W block (t - 14) ^^^ W block (t - 16)).rotateLeft 1
termination_by t

def ch (x y z : Word) : Word := (x &&& y) ^^^ (~~~x &&& z)

def parity (x y z : Word) : Word := x ^^^ y ^^^ z

def maj (x y z : Word) : Word := (x &&& y) ^^^ (x &&& z) ^^^ (y &&& z)

def f (t : Nat) : Word → Word → Word → Word :=
  if t < 20 then ch else if t < 40 then parity else if t < 60 then maj else parity

def K (t : Nat) : Word :=
  if t < 20 then 0x5a827999 else if t < 40 then 0x6ed9eba1 else if t < 60 then 0x8f1bbcdc
  else 0xca62c1d6

def round (block : List Byte) (v : Words) (t : Nat) : Words :=
  ⟨v.a.rotateLeft 5 + f t v.b v.c v.d + v.e + K t + W block t, v.a, v.b.rotateLeft 30, v.c, v.d⟩

def compress (h : Words) (block : List Byte) : Words :=
  h.add ((List.range 80).foldl (round block) h)

def initial : Words := ⟨0x67452301, 0xefcdab89, 0x98badcfe, 0x10325476, 0xc3d2e1f0⟩

/-- The number of zero bytes between the closing bit and the length. -/
def zeros (len : Nat) : Nat := (119 - len % 64) % 64

/-- The message's length in bits, eight bytes with the high one first. -/
def lengthField (len : Nat) : List Byte :=
  (List.range 8).map fun i => BitVec.ofNat 8 (8 * len / 2 ^ (56 - 8 * i))

/-- What is appended to a message of `len` bytes. -/
def padding (len : Nat) : List Byte := 0x80 :: List.replicate (zeros len) 0 ++ lengthField len

def pad (m : List Byte) : List Byte := m ++ padding m.length

def sha1 (m : List Byte) : Words := (Absorber.chunks 64 (pad m)).foldl compress initial

theorem length_pad (m : List Byte) : 64 ∣ (pad m).length := by
  have hlen : (pad m).length = m.length + (zeros m.length + 9) := by
    simp [pad, padding, lengthField]
  rw [hlen, zeros]
  omega

/-- The hash is what absorbing the padded message leaves in the chain. -/
theorem sha1_eq_absorb (m : List Byte) :
    (Absorber.mk initial []).absorb 64 compress (pad m) = ⟨sha1 m, []⟩ :=
  Absorber.absorb_of_dvd (by decide) initial (length_pad m)

end Kadpeer.Core.Fips
