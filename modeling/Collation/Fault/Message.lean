/-
  File:      Collation/Fault/Message.lean
  Subject:   The words for failures.

  A failure has a sentence (`Fault.message`) and a full form (`Fault.detail`) that spells
  out the cause with all its parts.  Causes are spelled as tags with their parts, texts
  among them in quotes.
-/
import Collation.Fault
import Collation.Text.Quoted

namespace Collation

open Text (quoted tuple record)

/-! ## 1. Causes -/

def Misuse.spelled : Misuse → String
  | .classAlreadyBegun => "ClassAlreadyBegun"
  | .classNotBegun => "ClassNotBegun"
  | .standardPoolMissing => "StandardPoolMissing"
  | .poolAlreadyFinished => "PoolAlreadyFinished"
  | .methodAlreadyOpen => "MethodAlreadyOpen"
  | .noOpenMethod => "NoOpenMethod"
  | .codeStillOpen => "CodeStillOpen"
  | .codeAlreadyClosed => "CodeAlreadyClosed"
  | .backwardJump => "BackwardJump"
  | .emptyCode => "EmptyCode"
  | .codeTooLarge n => tuple "CodeTooLarge" [toString n]

def ConstantKind.spelled : ConstantKind → String
  | .text => "Utf8"
  | .cls => "Class"
  | .field => "Fieldref"
  | .method => "Methodref"
  | .interfaceMethod => "InterfaceMethodref"
  | .nameAndType => "NameAndType"

def CodeDefect.spelled : CodeDefect → String
  | .unsupportedOpcode op => tuple "UnsupportedOpcode" [toString op.toNat]
  | .truncatedInstruction => "TruncatedInstruction"
  | .emptyStack => "EmptyStack"
  | .stackOverflow n => record "StackOverflow" [("max_stack", toString n.toNat)]
  | .invalidLocal n => tuple "InvalidLocal" [toString n]
  | .invalidType => "InvalidType"
  | .badBranchTarget t => tuple "BadBranchTarget" [toString t]
  | .missingFrame => "MissingFrame"
  | .misplacedFrame n => tuple "MisplacedFrame" [toString n]
  | .incompatibleFrame => "IncompatibleFrame"
  | .fallsOffEnd => "FallsOffEnd"
  | .badReturn => "BadReturn"
  | .badOperand => "BadOperand"

def Defect.spelled : Defect → String
  | .badMagic m => tuple "BadMagic" [toString m.toNat]
  | .unsupportedVersion major minor =>
    record "UnsupportedVersion" [("major", toString major.toNat), ("minor", toString minor.toNat)]
  | .truncated => "Truncated"
  | .trailingBytes n => tuple "TrailingBytes" [toString n]
  | .badPoolCount => "BadPoolCount"
  | .unknownConstantTag t => tuple "UnknownConstantTag" [toString t.toNat]
  | .badText => "BadUtf8"
  | .badConstantIndex i kind =>
    record "BadConstantIndex" [("index", toString i.toNat), ("expected", quoted kind.spelled)]
  | .badDescriptor text => tuple "BadDescriptor" [quoted text]
  | .badLength declared actual =>
    record "BadLength" [("declared", toString declared.toNat), ("actual", toString actual.toNat)]
  | .missingCode m => tuple "MissingCode" [quoted m]
  | .duplicateAttribute owner label =>
    record "DuplicateAttribute" [("owner", quoted owner), ("attribute", quoted label)]
  | .exceptionHandlers m => tuple "ExceptionHandlers" [quoted m]
  | .unsupportedFrame t => tuple "UnsupportedFrame" [toString t.toNat]
  | .badSlotType t => tuple "BadVerificationType" [toString t.toNat]
  | .badCode m offset defect =>
    record "Verify" [("method", quoted m), ("code_offset", toString offset),
      ("kind", defect.spelled)]

/-- The parts by which a member is named. -/
def memberParts (owner name descriptor : String) : List (String × String) :=
  [("class", quoted owner), ("name", quoted name), ("descriptor", quoted descriptor)]

def LinkFault.spelled : LinkFault → String
  | .unresolvedMethod c n d => record "UnresolvedMethod" (memberParts c n d)
  | .unresolvedField c n d => record "UnresolvedField" (memberParts c n d)
  | .unsupportedSuperclass n => tuple "UnsupportedSuperclass" [quoted n]
  | .missingConstructor n => tuple "MissingConstructor" [quoted n]
  | .missingCapabilityMethod c n d => record "MissingCapabilityMethod" (memberParts c n d)

def TrapCause.spelled : TrapCause → String
  | .nullReference => "NullReference"
  | .escapingReference => "EscapingReference"
  | .wrongReceiver => "WrongReceiver"
  | .stepLimit => "StepLimit"
  | .badOperands => "BadOperands"

def RunFault.spelled : RunFault → String
  | .noSuchMethod n d =>
    record "NoSuchMethod" [("name", quoted n), ("descriptor", quoted d)]
  | .badArguments n d =>
    record "BadArguments" [("name", quoted n), ("descriptor", quoted d)]
  | .trap m offset cause =>
    record "Trap" [("method", quoted m), ("code_offset", toString offset),
      ("kind", cause.spelled)]

/-! ## 2. Sentences and full forms -/

/-- The number of a refusal. -/
def Refusal.code : Refusal → Nat
  | .notFound => 2
  | .denied => 13
  | .notDirectory => 20
  | .isDirectory => 21
  | .noSpace => 28
  | .nameTooLong => 36
  | .other code _ => code

/-- The name of the kind of a refusal. -/
def Refusal.kind : Refusal → String
  | .notFound => "NotFound"
  | .denied => "PermissionDenied"
  | .notDirectory => "NotADirectory"
  | .isDirectory => "IsADirectory"
  | .noSpace => "StorageFull"
  | .nameTooLong => "InvalidFilename"
  | .other _ _ => "Uncategorized"

/-- The words for a refusal. -/
def Refusal.words : Refusal → String
  | .notFound => "No such file or directory"
  | .denied => "Permission denied"
  | .notDirectory => "Not a directory"
  | .isDirectory => "Is a directory"
  | .noSpace => "No space left on device"
  | .nameTooLong => "File name too long"
  | .other _ words => words

/-- What a sink reports, as a sentence. -/
def SinkFault.message : SinkFault → String
  | .full => "failed to write whole buffer"
  | .refused cause => cause.words ++ " (os error " ++ toString cause.code ++ ")"

/-- What a sink reports, with all its parts. -/
def SinkFault.spelled : SinkFault → String
  | .full =>
    record "Error" [("kind", "WriteZero"), ("message", quoted "failed to write whole buffer")]
  | .refused cause =>
    record "Os"
      [("code", toString cause.code), ("kind", cause.kind), ("message", quoted cause.words)]

/-- A failure as a sentence. -/
def Fault.message : Fault → String
  | .misuse cause => "assembler misuse: " ++ cause.spelled
  | .poolOverflow i => "constant pool overflow at index " ++ toString i
  | .textTooLong n => "text constant is " ++ toString n ++ " bytes (max 65535)"
  | .tableTooLong n => "table of " ++ toString n ++ " entries is too long"
  | .malformed r => "malformed class at byte " ++ toString r.offset ++ ": " ++ r.defect.spelled
  | .link cause => "link error: " ++ cause.spelled
  | .execution cause => "execution failed: " ++ cause.spelled
  | .sink cause => cause.message

/-- A failure with all its parts. -/
def Fault.detail : Fault → String
  | .misuse cause => tuple "ContractViolation" [cause.spelled]
  | .poolOverflow i => record "ConstantPoolOverflow" [("offset", toString i)]
  | .textTooLong n => tuple "ConstantTooLong" [toString n]
  | .tableTooLong n => tuple "TableTooLong" [toString n]
  | .malformed r =>
    record "Malformed" [("offset", toString r.offset), ("kind", r.defect.spelled)]
  | .link cause => tuple "Link" [cause.spelled]
  | .execution cause => tuple "Execution" [cause.spelled]
  | .sink cause => tuple "IoError" [cause.spelled]

end Collation
