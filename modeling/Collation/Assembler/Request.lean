/-
  File:      Collation/Assembler/Request.lean
  Subject:   The operations of a session as data.

  A request names an operation and its operands; `Assembly.perform` carries it out.  What can
  happen to a session is thus what requests can do to it.
-/
import Collation.Assembler.Members

namespace Collation

/-- An operation of a session. -/
inductive Request where
  | beginClass (version : Version)
  | setupPool
  | addConstant (constant : Constant)
  | finishPool
  | defineClass (flags : ClassFlags) (this : UInt16)
  | defineClassWithSuper (flags : ClassFlags) (this super : UInt16)
  | declareInterfaces (classes : List UInt16)
  /-- The number of fields, of methods or of attributes that follow. -/
  | declareCount (count : UInt16)
  | defineField (flags : FieldFlags) (name descriptor : UInt16)
  | defineDefaultConstructor
  | defineAttribute (name : UInt16) (info : List UInt8)
  | beginMethod (flags : MethodFlags) (name descriptor maxStack maxLocals : UInt16)
  | codeOffset
  /-- A byte of code: an instruction, or the first byte of one. -/
  | op (opcode : UInt8)
  | pushInt (value : Int32)
  | iload (slot : UInt8)
  | istore (slot : UInt8)
  | aload (slot : UInt8)
  | getField (field : UInt16)
  | putField (field : UInt16)
  | invokeInterface (method : UInt16) (slots : UInt8)
  | jump (opcode : UInt8)
  | placeJump (site : JumpSite)
  | endCode
  | codeAttributes (count : UInt16)
  | appendIntFrame (name target : UInt16)
  | endMethod
  | putU8 (value : UInt8)
  | putU16 (value : UInt16)
  | putI16 (value : Int16)
  | putU32 (value : UInt32)
  | overwrite16 (position : Nat) (value : UInt16)
  | overwrite32 (position : Nat) (value : UInt32)
  | byteAt (position : Nat)
  | clear
  deriving DecidableEq, Repr

/-- What a request answers. -/
inductive Reply where
  | done
  | index (value : UInt16)
  | standard (pool : StandardPool)
  | offset (value : Nat)
  | site (value : JumpSite)
  | byte (value : UInt8)
  deriving DecidableEq, Repr

end Collation

namespace Collation.Assembly

/-- The reply of an operation that has nothing to tell. -/
def done (operation : Assembly Unit) : Assembly Reply := operation *> pure .done

/-- Carries out a request. -/
def perform : Request → Assembly Reply
  | .beginClass version => done (beginClass version)
  | .setupPool => Reply.standard <$> setupPool
  | .addConstant c => Reply.index <$> addConstant c
  | .finishPool => done finishPool
  | .defineClass flags this => done (defineClass flags this)
  | .defineClassWithSuper flags this super =>
    done (defineClassWithSuper flags this super)
  | .declareInterfaces classes => done (declareInterfaces classes)
  | .declareCount count => done (declareCount count)
  | .defineField flags name descriptor => done (defineField flags name descriptor)
  | .defineDefaultConstructor => done defineDefaultConstructor
  | .defineAttribute name info => done (defineAttribute name info)
  | .beginMethod flags name descriptor maxStack maxLocals =>
    done (beginMethod flags name descriptor maxStack maxLocals)
  | .codeOffset => Reply.offset <$> codeOffset
  | .op opcode => done (emit [opcode])
  | .pushInt value => done (emit (Encode.pushInt value))
  | .iload slot => done (emit (Encode.iload slot))
  | .istore slot => done (emit (Encode.istore slot))
  | .aload slot => done (emit (Encode.aload slot))
  | .getField field => done (emit (Encode.getfield field))
  | .putField field => done (emit (Encode.putfield field))
  | .invokeInterface method slots => done (emit (Encode.invokeinterface method slots))
  | .jump opcode => Reply.site <$> jump opcode
  | .placeJump site => Reply.offset <$> placeJump site
  | .endCode => done endCode
  | .codeAttributes count => done (codeAttributes count)
  | .appendIntFrame name target => done (appendIntFrame name target)
  | .endMethod => done endMethod
  | .putU8 value => done (write [value])
  | .putU16 value => done (write (Word.bytes16 value))
  | .putI16 value => done (write (Word.bytes16 value.toUInt16))
  | .putU32 value => done (write (Word.bytes32 value))
  | .overwrite16 p value => done (overwrite p (Word.bytes16 value))
  | .overwrite32 p value => done (overwrite p (Word.bytes32 value))
  | .byteAt p => Reply.byte <$> byteAt p
  | .clear => done clear

end Collation.Assembly
