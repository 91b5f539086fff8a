import TransactionalMemory.Word.Binary

/-! # Words and the values they hold

Every field of shared memory is one 64-bit word.  A `Value` is what a transaction reads or writes:
a payload tagged with its `Kind`.  `Value.encode` and `Value.decode` go between the two, and they
are the only way from one to the other.

Encoding is injective on each kind and decoding is total: a word that is no encoding of its kind
(a surrogate code point, a truth value other than 0 and 1, bits above the kind's width) decodes to
some value of that kind, because a transaction may look at a word before it learns that it has to
abort.  Floating-point payloads are bit patterns, so nothing of them is lost on the way.
-/

namespace TransactionalMemory

/-- The closed set of payloads that a field can hold. -/
inductive Kind where
  | bool | char
  | i8 | i16 | i32 | i64
  | u8 | u16 | u32 | u64
  | f32 | f64
  /-- An opaque reference that the runtime never follows. -/
  | ref
  deriving DecidableEq, Repr

namespace Kind

def all : List Kind :=
  [.bool, .char, .i8, .i16, .i32, .i64, .u8, .u16, .u32, .u64, .f32, .f64, .ref]

def name : Kind → String
  | bool => "bool" | char => "char"
  | i8 => "i8" | i16 => "i16" | i32 => "i32" | i64 => "i64"
  | u8 => "u8" | u16 => "u16" | u32 => "u32" | u64 => "u64"
  | f32 => "f32" | f64 => "f64"
  | ref => "ref"

def ofName? (text : String) : Option Kind :=
  all.find? (·.name = text)

end Kind

/-- A payload tagged with its kind; the floating-point payloads are bit patterns. -/
inductive Value where
  | bool (b : Bool)
  | char (c : Char)
  | i8 (n : Int8)
  | i16 (n : Int16)
  | i32 (n : Int32)
  | i64 (n : Int64)
  | u8 (n : UInt8)
  | u16 (n : UInt16)
  | u32 (n : UInt32)
  | u64 (n : UInt64)
  | f32 (bits : UInt32)
  | f64 (bits : UInt64)
  | ref (id : UInt64)
  deriving DecidableEq, Repr

/-- What a word decodes to where a character was wanted and the word is none. -/
def replacementCharacter : Char := Char.ofNat 0xFFFD

/-- The character of a code point, the replacement character if there is none. -/
def characterOf (codePoint : UInt32) : Char :=
  if h : codePoint.isValidChar then ⟨codePoint, h⟩ else replacementCharacter

namespace Value

def kind : Value → Kind
  | bool _ => .bool
  | char _ => .char
  | i8 _ => .i8
  | i16 _ => .i16
  | i32 _ => .i32
  | i64 _ => .i64
  | u8 _ => .u8
  | u16 _ => .u16
  | u32 _ => .u32
  | u64 _ => .u64
  | f32 _ => .f32
  | f64 _ => .f64
  | ref _ => .ref

/-- The word that stores a value: the payload's own bits, zeros above them. -/
def encode : Value → UInt64
  | bool b => if b then 1 else 0
  | char c => c.val.toUInt64
  | i8 n => n.toUInt8.toUInt64
  | i16 n => n.toUInt16.toUInt64
  | i32 n => n.toUInt32.toUInt64
  | i64 n => n.toUInt64
  | u8 n => n.toUInt64
  | u16 n => n.toUInt64
  | u32 n => n.toUInt64
  | u64 n => n
  | f32 bits => bits.toUInt64
  | f64 bits => bits
  | ref id => id

/-- The value of a kind that a word stands for: the low bits that the kind needs, any nonzero word
    for `true`, the replacement character for a code point that is none. -/
def decode (word : UInt64) : Kind → Value
  | .bool => bool (word != 0)
  | .char => char (characterOf word.toUInt32)
  | .i8 => i8 word.toUInt8.toInt8
  | .i16 => i16 word.toUInt16.toInt16
  | .i32 => i32 word.toUInt32.toInt32
  | .i64 => i64 word.toInt64
  | .u8 => u8 word.toUInt8
  | .u16 => u16 word.toUInt16
  | .u32 => u32 word.toUInt32
  | .u64 => u64 word
  | .f32 => f32 word.toUInt32
  | .f64 => f64 word
  | .ref => ref word

def zero (k : Kind) : Value := decode 0 k

/-- The value read as another kind: its word decoded again, unless the kind is its own. -/
def reinterpret (v : Value) (k : Kind) : Value :=
  if v.kind = k then v else decode v.encode k

def isNull? : Value → Option Bool
  | ref id => some (id == 0)
  | _ => none

/-- Equality of payloads: values of different kinds differ, and floating-point payloads are compared
    as numbers, so a not-a-number differs from itself and the two zeros agree. -/
def sameAs : Value → Value → Bool
  | f32 a, f32 b => BinaryFormat.single.sameNumber a.toNat b.toNat
  | f64 a, f64 b => BinaryFormat.double.sameNumber a.toNat b.toNat
  | a, b => a = b

/-- The update of a field by an increment: integers and references add and wrap around, floating
    point adds in its own precision, a truth value is flipped by `true`, a character is replaced.
    An increment of another kind is first read as the kind of the value. -/
def add (v increment : Value) : Value :=
  match v, increment.reinterpret v.kind with
  | bool a, bool b => bool (a ^^ b)
  | char _, char b => char b
  | i8 a, i8 b => i8 (a + b)
  | i16 a, i16 b => i16 (a + b)
  | i32 a, i32 b => i32 (a + b)
  | i64 a, i64 b => i64 (a + b)
  | u8 a, u8 b => u8 (a + b)
  | u16 a, u16 b => u16 (a + b)
  | u32 a, u32 b => u32 (a + b)
  | u64 a, u64 b => u64 (a + b)
  | f32 a, f32 b => f32 (UInt32.ofNat (BinaryFormat.single.sum a.toNat b.toNat))
  | f64 a, f64 b => f64 (UInt64.ofNat (BinaryFormat.double.sum a.toNat b.toNat))
  | ref a, ref b => ref (a + b)
  | v, _ => v

end Value

/-! ## Laws of the encoding -/

namespace Value

@[simp] theorem kind_decode (word : UInt64) (k : Kind) : (decode word k).kind = k := by
  cases k <;> rfl

@[simp] theorem kind_reinterpret (v : Value) (k : Kind) : (v.reinterpret k).kind = k := by
  unfold reinterpret
  split
  · assumption
  · exact kind_decode _ _

theorem reinterpret_self (v : Value) : v.reinterpret v.kind = v := if_pos rfl

end Value

end TransactionalMemory
