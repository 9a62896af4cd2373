/-
  File:      Collation/Fault.lean
  Subject:   Everything that can go wrong, as causes.

  One type per stage: misuse of an assembling session, defects of class-file bytes (among
  them code that does not type-check), failures to link, failures to run.  `Fault` joins
  them; a `Rejection` is a defect with the byte at which it was found.  The words for them
  are in `Collation.Fault.Message`.
-/
namespace Collation

/-! ## 1. Writing -/

/-- Ways to misuse an assembling session. -/
inductive Misuse where
  | classAlreadyBegun
  | classNotBegun
  | standardPoolMissing
  | poolAlreadyFinished
  | methodAlreadyOpen
  | noOpenMethod
  | codeStillOpen
  | codeAlreadyClosed
  | backwardJump
  | emptyCode
  | codeTooLarge (size : Nat)
  deriving DecidableEq, Repr

/-! ## 2. Reading and checking -/

/-- The kind of constant that an index had to point at. -/
inductive ConstantKind where
  | text | cls | field | method | interfaceMethod | nameAndType
  deriving DecidableEq, Repr

/-- Why the code of a method is not accepted. -/
inductive CodeDefect where
  | unsupportedOpcode (opcode : UInt8)
  | truncatedInstruction
  | emptyStack
  | stackOverflow (maxStack : UInt16)
  | invalidLocal (slot : Nat)
  | invalidType
  | badBranchTarget (target : Int)
  | missingFrame
  | misplacedFrame (offset : Nat)
  | incompatibleFrame
  | fallsOffEnd
  | badReturn
  | badOperand
  deriving DecidableEq, Repr

/-- Why the bytes of a class are not accepted. -/
inductive Defect where
  | badMagic (magic : UInt32)
  | unsupportedVersion (major minor : UInt16)
  | truncated
  | trailingBytes (count : Nat)
  | badPoolCount
  | unknownConstantTag (tag : UInt8)
  | badText
  | badConstantIndex (index : UInt16) (expected : ConstantKind)
  | badDescriptor (text : String)
  | badLength (declared actual : UInt32)
  | missingCode (method : String)
  | duplicateAttribute (owner label : String)
  | exceptionHandlers (method : String)
  | unsupportedFrame (tag : UInt8)
  | badSlotType (tag : UInt8)
  | badCode (method : String) (codeOffset : Nat) (defect : CodeDefect)
  deriving DecidableEq, Repr

/-- A defect and the byte at which it was found. -/
structure Rejection where
  offset : Nat
  defect : Defect
  deriving DecidableEq, Repr

/-! ## 3. Linking and running -/

/-- Why an accepted class cannot be linked. -/
inductive LinkFault where
  | unresolvedMethod (owner name descriptor : String)
  | unresolvedField (owner name descriptor : String)
  | unsupportedSuperclass (name : String)
  | missingConstructor (name : String)
  | missingCapabilityMethod (owner name descriptor : String)
  deriving DecidableEq, Repr

/-- Why an instruction could not complete. -/
inductive TrapCause where
  | nullReference
  | escapingReference
  | wrongReceiver
  | stepLimit
  | badOperands
  deriving DecidableEq, Repr

/-- Why a call did not return. -/
inductive RunFault where
  | noSuchMethod (name descriptor : String)
  | badArguments (name descriptor : String)
  | trap (method : String) (codeOffset : Nat) (cause : TrapCause)
  deriving DecidableEq, Repr

/-! ## 4. All of them -/

/-- Why the operating system refuses to read or to write a file. -/
inductive Refusal where
  | notFound
  | denied
  /-- A name of the path leads to a file where a directory is needed. -/
  | notDirectory
  | isDirectory
  | noSpace
  /-- A name of the path, or the path itself, is too long. -/
  | nameTooLong
  /-- Any other cause, with its number and its words. -/
  | other (code : Nat) (words : String)
  deriving DecidableEq, Repr

/-- What a failed file or sink operation reports. -/
inductive SinkFault where
  /-- The sink had no room for all the bytes. -/
  | full
  /-- The operating system refused the operation. -/
  | refused (cause : Refusal)
  deriving DecidableEq, Repr

/-- Any failure of writing, reading, linking or running a class. -/
inductive Fault where
  | misuse (cause : Misuse)
  | poolOverflow (index : Nat)
  | textTooLong (length : Nat)
  | tableTooLong (length : Nat)
  | malformed (rejection : Rejection)
  | link (cause : LinkFault)
  | execution (cause : RunFault)
  | sink (cause : SinkFault)
  deriving DecidableEq, Repr

end Collation
