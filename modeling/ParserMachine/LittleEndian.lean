/-!
# Little-endian bytes

Naturals written as a fixed number of bytes, least significant first, and read back.

* `encode w n` is the `w` bytes of `n`; whatever `n` holds above `bound w` is dropped.
* `decode bs` is the natural that the bytes stand for.

`decode_encode` says that writing and reading is reduction modulo `bound w`, hence exact below it,
and `encode_decode` that every run of bytes is the encoding of what it reads as. Instruction
operands, stack headers and stack index entries are all written this way.
-/

set_option autoImplicit false

namespace ParserMachine.LittleEndian

/-- How many naturals the given number of bytes can tell. -/
def bound : Nat → Nat
  | 0 => 1
  | width + 1 => 256 * bound width

/-- The `width` low bytes of a natural, least significant first. -/
def encode : Nat → Nat → List UInt8
  | 0, _ => []
  | width + 1, n => UInt8.ofNat (n % 256) :: encode width (n / 256)

/-- The natural with the given bytes, least significant first. -/
def decode : List UInt8 → Nat
  | [] => 0
  | b :: bs => b.toNat + 256 * decode bs

/-- A number takes as many bytes as it is given, whatever its size. -/
@[simp] theorem length_encode (width n : Nat) : (encode width n).length = width := by
  induction width generalizing n with
  | zero => rfl
  | succ width ih => simp [encode, ih]

/-- What does not fit into the bytes is lost: the number comes back modulo their bound. -/
theorem decode_encode (width n : Nat) : decode (encode width n) = n % bound width := by
  induction width generalizing n with
  | zero => simp [encode, decode, bound, Nat.mod_one]
  | succ width ih =>
    have low : (UInt8.ofNat (n % 256)).toNat = n % 256 := by
      simp [UInt8.toNat_ofNat']
    rw [encode, decode, ih, low, bound, Nat.mod_mul]

/-- Below the bound of its width a natural is read back exactly. -/
theorem decode_encode_of_lt {width n : Nat} (h : n < bound width) :
    decode (encode width n) = n := by
  rw [decode_encode, Nat.mod_eq_of_lt h]

/-- Bytes never stand for a number past what their number allows. -/
theorem decode_lt (bs : List UInt8) : decode bs < bound bs.length := by
  induction bs with
  | nil => exact Nat.zero_lt_one
  | cons b bs ih =>
    have hb : b.toNat < 256 := b.toNat_lt
    rw [decode, List.length_cons, bound]
    omega

/-- No two byte strings of one length stand for the same number. -/
theorem encode_decode (bs : List UInt8) : encode bs.length (decode bs) = bs := by
  induction bs with
  | nil => rfl
  | cons b bs ih =>
    have hb : b.toNat < 256 := b.toNat_lt
    have hmod : (b.toNat + 256 * decode bs) % 256 = b.toNat := by omega
    have hdiv : (b.toNat + 256 * decode bs) / 256 = decode bs := by omega
    rw [List.length_cons, encode, decode, hmod, hdiv, ih, UInt8.ofNat_toNat]

end ParserMachine.LittleEndian
