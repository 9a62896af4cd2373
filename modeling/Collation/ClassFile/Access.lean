/-
  File:      Collation/ClassFile/Access.lean
  Subject:   Access flags and the version of a class file.

  Classes, methods and fields know different flags; bits that a kind does not know are
  dropped when flags are made from a word.
-/
namespace Collation

/-! ## 1. Flags -/

/-- Flags of a class. -/
structure ClassFlags where
  bits : UInt16
  deriving DecidableEq, Repr

/-- Flags of a method. -/
structure MethodFlags where
  bits : UInt16
  deriving DecidableEq, Repr

/-- Flags of a field. -/
structure FieldFlags where
  bits : UInt16
  deriving DecidableEq, Repr

/-- Public, final, super, interface, abstract and synthetic. -/
def ClassFlags.known : UInt16 := 0x1631

def ClassFlags.ofWord (w : UInt16) : ClassFlags := ⟨w &&& known⟩

/-- Public, private, protected, static, final, abstract and synthetic. -/
def MethodFlags.known : UInt16 := 0x141F

def MethodFlags.ofWord (w : UInt16) : MethodFlags := ⟨w &&& known⟩

def MethodFlags.isStatic (f : MethodFlags) : Bool := f.bits &&& 0x0008 != 0

def MethodFlags.isAbstract (f : MethodFlags) : Bool := f.bits &&& 0x0400 != 0

/-- Public, private, protected, static, final and synthetic. -/
def FieldFlags.known : UInt16 := 0x101F

def FieldFlags.ofWord (w : UInt16) : FieldFlags := ⟨w &&& known⟩

def FieldFlags.isStatic (f : FieldFlags) : Bool := f.bits &&& 0x0008 != 0

/-- A final class that everyone may use. -/
def ClassFlags.publicFinal : ClassFlags := ⟨0x0031⟩

def MethodFlags.public : MethodFlags := ⟨0x0001⟩

def FieldFlags.private : FieldFlags := ⟨0x0002⟩

/-! ## 2. Versions -/

/-- The version of the format. -/
structure Version where
  minor : UInt16
  major : UInt16
  deriving DecidableEq, Repr

namespace Version

/-- The version that classes are written in. -/
def written : Version := ⟨0, 51⟩

/-- The oldest and the newest major version that is read. -/
def oldest : UInt16 := 45

@[inherit_doc oldest]
def newest : UInt16 := 52

def isSupported (v : Version) : Bool := oldest ≤ v.major && v.major ≤ newest

end Version

end Collation
