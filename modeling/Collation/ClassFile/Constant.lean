/-
  File:      Collation/ClassFile/Constant.lean
  Subject:   Constants of the pool and their bytes.

  Constants point at each other by index.  `Constant.bytes` gives the written form; a text
  whose encoding is longer than a 16-bit length can say has none.
-/
import Collation.Bytes.Word
import Collation.Fault
import Collation.Text.ModifiedUtf8

namespace Collation

/-- The sort of member that a reference points at. -/
inductive MemberKind where
  | field | method | interfaceMethod
  deriving DecidableEq, Repr

/-- An entry of the constant pool. -/
inductive Constant where
  | text (value : String)
  | cls (name : UInt16)
  | member (kind : MemberKind) (owner nameAndType : UInt16)
  | nameAndType (name descriptor : UInt16)
  deriving DecidableEq, Repr

def MemberKind.tag : MemberKind → UInt8
  | .field => 9
  | .method => 10
  | .interfaceMethod => 11

/-- The kind of constant that holds a reference to such a member. -/
def MemberKind.constantKind : MemberKind → ConstantKind
  | .field => .field
  | .method => .method
  | .interfaceMethod => .interfaceMethod

def Constant.kind : Constant → ConstantKind
  | .text _ => .text
  | .cls _ => .cls
  | .member kind _ _ => kind.constantKind
  | .nameAndType _ _ => .nameAndType

/-- The tag byte in front of a constant of a kind. -/
def ConstantKind.tag : ConstantKind → UInt8
  | .text => 1
  | .cls => 7
  | .field => 9
  | .method => 10
  | .interfaceMethod => 11
  | .nameAndType => 12

/-- The written form of a constant. -/
def Constant.bytes : Constant → Except Fault (List UInt8)
  | .text value =>
    let encoded := ModifiedUtf8.encode value
    let length := encoded.length
    if length > 65535 then .error (.textTooLong length)
    else .ok (ConstantKind.text.tag :: Word.bytes16 (UInt16.ofNat length) ++ encoded)
  | .cls name => .ok (ConstantKind.cls.tag :: Word.bytes16 name)
  | .member kind owner pair =>
    .ok (kind.tag :: Word.bytes16 owner ++ Word.bytes16 pair)
  | .nameAndType name descriptor =>
    .ok (ConstantKind.nameAndType.tag :: Word.bytes16 name ++ Word.bytes16 descriptor)

end Collation
