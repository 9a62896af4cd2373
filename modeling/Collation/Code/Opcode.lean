/-
  File:      Collation/Code/Opcode.lean
  Subject:   The first bytes of the instructions that are written and run.

  Several opcodes stand in a row: seven constants from minus one to five, four short forms
  for the locals 0 to 3, six conditions.  Of a row only the first is named.
-/
namespace Collation.Opcode

/-- The constant minus one; the constants up to five follow. -/
def iconstM1 : UInt8 := 0x02

def iconst0 : UInt8 := 0x03

/-- A constant of one byte. -/
def bipush : UInt8 := 0x10

/-- A constant of two bytes. -/
def sipush : UInt8 := 0x11

def iload : UInt8 := 0x15

def aload : UInt8 := 0x19

/-- Loads the integer in local 0; the short forms for 1, 2 and 3 follow. -/
def iload0 : UInt8 := 0x1A

/-- Loads the reference in local 0; the short forms for 1, 2 and 3 follow. -/
def aload0 : UInt8 := 0x2A

def istore : UInt8 := 0x36

def astore : UInt8 := 0x3A

/-- Stores an integer in local 0; the short forms for 1, 2 and 3 follow. -/
def istore0 : UInt8 := 0x3B

/-- Stores a reference in local 0; the short forms for 1, 2 and 3 follow. -/
def astore0 : UInt8 := 0x4B

def pop : UInt8 := 0x57

def dup : UInt8 := 0x59

def swap : UInt8 := 0x5F

def iadd : UInt8 := 0x60

def isub : UInt8 := 0x64

def imul : UInt8 := 0x68

def ineg : UInt8 := 0x74

def i2l : UInt8 := 0x85

def lcmp : UInt8 := 0x94

/-- Compares doubles; an unordered pair counts as less. -/
def dcmpl : UInt8 := 0x97

/-- Compares doubles; an unordered pair counts as greater. -/
def dcmpg : UInt8 := 0x98

/-- Jumps if zero; the five other conditions follow. -/
def ifeq : UInt8 := 0x99

def ifne : UInt8 := 0x9A

/-- Jumps if two integers are equal; the five other conditions follow. -/
def ifIcmpeq : UInt8 := 0x9F

/-- Jumps always. -/
def goto : UInt8 := 0xA7

def ireturn : UInt8 := 0xAC

def return_ : UInt8 := 0xB1

def getfield : UInt8 := 0xB4

def putfield : UInt8 := 0xB5

def invokespecial : UInt8 := 0xB7

def invokeinterface : UInt8 := 0xB9

end Collation.Opcode
