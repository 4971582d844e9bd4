import ParserMachine.LittleEndian
import ParserMachine.Position

/-!
# Values stored inline

A value that a stack keeps in its own bytes, rather than in its object list, is written at a fixed
size and read back exactly. `Inline α` says how; the two laws of the class are what makes a typed
read of raw bytes sound.

Every stored value carries a tag naming its type, so that a read at another type is refused. `Tag`
lists the types the library stores inline, and `Tag.code_injective` says that no two share a code.
Tags handed out on demand, to types nobody listed in advance, are the subject of `TypeTag`.
-/

set_option autoImplicit false

namespace ParserMachine

/-- The types of inline values. -/
inductive Tag where
  | u8 | u16 | u32 | u64 | i8 | i32 | i64 | char | bool | unit | pair | triple
  /-- A run of input tokens, by place and length. -/
  | span
  /-- A place in the input. -/
  | cursor
  /-- A mark in a pending error frame. -/
  | marker
  /-- The routine that applies a function to values on the stack. -/
  | dispatcher
  /-- The routine that turns the reply of a block into a value. -/
  | observer
  deriving DecidableEq, Repr

namespace Tag

/-- The number written in a slot header. -/
def code : Tag → Nat
  | u8 => 1 | u16 => 2 | u32 => 3 | u64 => 4 | i8 => 5 | i32 => 6 | i64 => 7 | char => 8
  | bool => 9 | unit => 10 | pair => 11 | triple => 12 | span => 13 | cursor => 14
  | marker => 15 | dispatcher => 16 | observer => 17

/-- Distinct tags have distinct codes, so the code in a header tells the type of its payload. -/
theorem code_injective {a b : Tag} (h : a.code = b.code) : a = b := by
  cases a <;> cases b <;> first | rfl | exact absurd h (by decide)

/-- A code fits into the four bytes that a header has for it. -/
theorem code_lt (t : Tag) : t.code < LittleEndian.bound 4 := by
  cases t <;> decide

/-- Whether the machine keeps the type for its own use, so that no token type may carry its tag. -/
def isReserved : Tag → Bool
  | unit | span | cursor | marker | dispatcher | observer => true
  | _ => false

end Tag

/-- Values written as a fixed number of bytes. -/
class Inline (α : Type) where
  /-- The tag of the type. -/
  tag : Tag
  /-- The number of bytes that a value takes. -/
  size : Nat
  /-- The bytes of a value. -/
  encode : α → List UInt8
  /-- The value with the given bytes. -/
  decode : List UInt8 → α
  /-- Every value takes `size` bytes. -/
  length_encode : ∀ a, (encode a).length = size
  /-- A value is read back from its bytes. -/
  decode_encode : ∀ a, decode (encode a) = a
  /-- The size fits its header field. -/
  size_lt : size < LittleEndian.bound 4

namespace Inline

/-- A type whose values are numbered below the bound of a width, written as that number. -/
@[reducible] def ofNumber {α : Type} (tag : Tag) (width : Nat) (toNat : α → Nat) (ofNat : Nat → α)
    (toNat_lt : ∀ a, toNat a < LittleEndian.bound width) (ofNat_toNat : ∀ a, ofNat (toNat a) = a)
    (width_lt : width < LittleEndian.bound 4) : Inline α where
  tag := tag
  size := width
  encode a := LittleEndian.encode width (toNat a)
  decode bs := ofNat (LittleEndian.decode bs)
  length_encode a := LittleEndian.length_encode width (toNat a)
  decode_encode a := by rw [LittleEndian.decode_encode_of_lt (toNat_lt a), ofNat_toNat]
  size_lt := width_lt

/-- The size of a two-byte payload fits into a header. -/
theorem twoBytes_lt : 2 < LittleEndian.bound 4 := by decide

/-- The size of an eight-byte payload fits into a header. -/
theorem eightBytes_lt : 8 < LittleEndian.bound 4 := by decide

instance : Inline UInt8 :=
  ofNumber .u8 1 UInt8.toNat UInt8.ofNat (fun a => a.toNat_lt)
    (fun _ => UInt8.ofNat_toNat) (by decide)

instance : Inline UInt16 :=
  ofNumber .u16 2 UInt16.toNat UInt16.ofNat (fun a => a.toNat_lt)
    (fun _ => UInt16.ofNat_toNat) twoBytes_lt

instance : Inline UInt32 :=
  ofNumber .u32 4 UInt32.toNat UInt32.ofNat (fun a => a.toNat_lt)
    (fun _ => UInt32.ofNat_toNat) (by decide)

instance : Inline UInt64 :=
  ofNumber .u64 8 UInt64.toNat UInt64.ofNat (fun a => a.toNat_lt)
    (fun _ => UInt64.ofNat_toNat) eightBytes_lt

instance : Inline Int8 :=
  ofNumber .i8 1 (·.toUInt8.toNat) (fun n => (UInt8.ofNat n).toInt8)
    (fun a => a.toUInt8.toNat_lt) (fun a => by simp) (by decide)

instance : Inline Int32 :=
  ofNumber .i32 4 (·.toUInt32.toNat) (fun n => (UInt32.ofNat n).toInt32)
    (fun a => a.toUInt32.toNat_lt) (fun a => by simp) (by decide)

instance : Inline Int64 :=
  ofNumber .i64 8 (·.toUInt64.toNat) (fun n => (UInt64.ofNat n).toInt64)
    (fun a => a.toUInt64.toNat_lt) (fun a => by simp) (by decide)

instance : Inline Char :=
  ofNumber .char 4 Char.toNat Char.ofNat
    (fun a => Nat.lt_of_lt_of_le a.val.toNat_lt (by decide))
    (fun a => Char.ofNat_toNat a) (by decide)

instance : Inline Bool :=
  ofNumber .bool 1 Bool.toNat (· != 0) (fun a => by cases a <;> decide)
    (fun a => by cases a <;> rfl) (by decide)

instance : Inline Unit :=
  ofNumber .unit 0 (fun _ => 0) (fun _ => ()) (fun _ => by decide) (fun _ => rfl) (by decide)

/-- A word and a half-size word, with two bytes of padding. -/
instance : Inline (UInt32 × Int16) where
  tag := .pair
  size := 8
  encode a :=
    LittleEndian.encode 4 a.1.toNat ++ (LittleEndian.encode 2 a.2.toUInt16.toNat ++ [0, 0])
  decode bs :=
    (UInt32.ofNat (LittleEndian.decode (bs.take 4)),
      (UInt16.ofNat (LittleEndian.decode ((bs.drop 4).take 2))).toInt16)
  length_encode a := by simp
  decode_encode a := by
    have h₁ : a.1.toNat < LittleEndian.bound 4 := a.1.toNat_lt
    have h₂ : a.2.toUInt16.toNat < LittleEndian.bound 2 := a.2.toUInt16.toNat_lt
    simp [LittleEndian.decode_encode_of_lt h₁, LittleEndian.decode_encode_of_lt h₂]
  size_lt := by decide

/-- The bytes of three 64-bit words. -/
def encodeWords (a b c : UInt64) : List UInt8 :=
  LittleEndian.encode 8 a.toNat ++ (LittleEndian.encode 8 b.toNat ++ LittleEndian.encode 8 c.toNat)

/-- The 64-bit word that starts at the given byte. -/
def wordAt (bs : List UInt8) (start : Nat) : UInt64 :=
  UInt64.ofNat (LittleEndian.decode ((bs.drop start).take 8))

/-- Three words that were written one behind the other are read back, each at its place. -/
theorem wordAt_encodeWords (a b c : UInt64) :
    wordAt (encodeWords a b c) 0 = a ∧ wordAt (encodeWords a b c) 8 = b ∧
      wordAt (encodeWords a b c) 16 = c := by
  have bound (w : UInt64) : w.toNat < LittleEndian.bound 8 := w.toNat_lt
  simp [wordAt, encodeWords, List.drop_append, List.drop_eq_nil_of_le, List.take_of_length_le,
    LittleEndian.decode_encode_of_lt (bound a), LittleEndian.decode_encode_of_lt (bound b),
    LittleEndian.decode_encode_of_lt (bound c)]

instance : Inline (UInt64 × UInt64 × UInt64) where
  tag := .triple
  size := 24
  encode a := encodeWords a.1 a.2.1 a.2.2
  decode bs := (wordAt bs 0, wordAt bs 8, wordAt bs 16)
  length_encode a := by simp [encodeWords]
  decode_encode a := by
    obtain ⟨h₁, h₂, h₃⟩ := wordAt_encodeWords a.1 a.2.1 a.2.2
    rw [h₁, h₂, h₃]
  size_lt := by decide

instance : Inline Cursor where
  tag := .cursor
  size := 24
  encode c := encodeWords c.offset c.line c.column
  decode bs := ⟨wordAt bs 0, wordAt bs 8, wordAt bs 16⟩
  length_encode c := by simp [encodeWords]
  decode_encode c := by
    obtain ⟨h₁, h₂, h₃⟩ := wordAt_encodeWords c.offset c.line c.column
    rw [h₁, h₂, h₃]
  size_lt := by decide

end Inline

end ParserMachine
