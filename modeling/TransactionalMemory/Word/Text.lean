import TransactionalMemory.Decimal
import TransactionalMemory.Memory
import TransactionalMemory.Text.Quoted

/-! # Values and fields in words

How a payload is shown, and with it a handle on a field.
-/

namespace TransactionalMemory

/-- A payload as it is shown: characters are quoted, floating point has the fewest digits that read
    back. -/
def Value.text : Value → String
  | bool b => if b then "true" else "false"
  | char c => quotedChar c
  | i8 n => toString n.toInt
  | i16 n => toString n.toInt
  | i32 n => toString n.toInt
  | i64 n => toString n.toInt
  | u8 n => toString n.toNat
  | u16 n => toString n.toNat
  | u32 n => toString n.toNat
  | u64 n => toString n.toNat
  | f32 bits => BinaryFormat.single.text bits.toNat
  | f64 bits => BinaryFormat.double.text bits.toNat
  | ref id => s!"ObjRef({id.toNat})"

def fieldText (offset : Nat) (v : Value) : String :=
  s!"TField \x7b offset: {offset}, value: {v.text} \x7d"

def variableText (v : Value) : String := s!"TVar \x7b value: {v.text} \x7d"

/-- An object of the given size as a record, its address in hexadecimal. -/
def objectText (address size : Nat) : String :=
  let digits := String.ofList (Nat.toDigits 16 address)
  s!"TObject \x7b address: 0x{digits}, fields: {size} \x7d"

end TransactionalMemory
