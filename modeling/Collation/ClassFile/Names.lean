/-
  File:      Collation/ClassFile/Names.lean
  Subject:   Fixed values of the format: the first word of a file, and the names that it uses.
-/
namespace Collation

/-- The first word of every class file. -/
def ClassFile.magic : UInt32 := 0xCAFEBABE

/-- The root class, of which every class is a kind. -/
def objectClass : String := "java/lang/Object"

/-- The name of constructors. -/
def initName : String := "<init>"

/-- The descriptor of a constructor without parameters. -/
def initDescriptor : String := "()V"

/-- The name of the attribute with the code of a method. -/
def codeAttributeName : String := "Code"

/-- The name of the attribute with the stack maps of a method's code. -/
def stackMapAttributeName : String := "StackMapTable"

end Collation
