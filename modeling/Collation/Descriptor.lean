/-
  File:      Collation/Descriptor.lean
  Subject:   Types of fields and signatures of methods, and their written form.

  A base type is one letter; an object type is its class name between `L` and `;`; an array
  type is one `[` per dimension before its element; a method lists its parameters in
  parentheses and then its result, `V` for none.

  * `BaseType.letter`, `FieldType.render`, `MethodType.render` -- the written form;
  * `BaseType.parse`, `FieldType.parse`, `MethodType.parse` -- the type of a whole text;
  * `FieldType.read` -- one type at the front of a text, with what follows it; it always
    takes something (`FieldType.length_read`), which is why reading parameters ends.
-/
namespace Collation

/-! ## 1. The types -/

/-- Types of plain values. -/
inductive BaseType where
  | byte | char | double | float | int | long | short | boolean
  deriving DecidableEq, Repr

/-- The type of a field, a parameter or a result. -/
inductive FieldType where
  | base (type : BaseType)
  | object (name : String)
  | array (dimensions : Nat) (element : FieldType)
  deriving DecidableEq, Repr

/-- The parameters of a method and its result, if it has one. -/
structure MethodType where
  parameters : List FieldType
  result : Option FieldType
  deriving DecidableEq, Repr

/-- How many slots a value takes. -/
def BaseType.width : BaseType → Nat
  | .double | .long => 2
  | _ => 1

/-- How many slots a value takes. -/
def FieldType.width : FieldType → Nat
  | .base b => b.width
  | _ => 1

/-- The slots that the arguments of a call take. -/
def MethodType.argumentSlots (m : MethodType) : Nat :=
  m.parameters.foldl (fun n t => n + t.width) 0

/-- The slots of the arguments together with the one of the receiver. -/
def MethodType.slotsWithReceiver (m : MethodType) : Nat := m.argumentSlots + 1

/-! ## 2. The written form -/

/-- The letter of a base type. -/
def BaseType.letter : BaseType → Char
  | .byte => 'B'
  | .char => 'C'
  | .double => 'D'
  | .float => 'F'
  | .int => 'I'
  | .long => 'J'
  | .short => 'S'
  | .boolean => 'Z'

/-- The base type of a letter. -/
def BaseType.ofLetter? (c : Char) : Option BaseType :=
  if c = 'B' then some .byte
  else if c = 'C' then some .char
  else if c = 'D' then some .double
  else if c = 'F' then some .float
  else if c = 'I' then some .int
  else if c = 'J' then some .long
  else if c = 'S' then some .short
  else if c = 'Z' then some .boolean
  else none

/-- The characters of a written type. -/
def FieldType.chars : FieldType → List Char
  | .base b => [b.letter]
  | .object name => 'L' :: name.toList ++ [';']
  | .array n element => List.replicate n '[' ++ element.chars

/-- The characters of a written signature. -/
def MethodType.chars (m : MethodType) : List Char :=
  '(' :: m.parameters.flatMap FieldType.chars ++ ')' ::
    (match m.result with
     | none => ['V']
     | some t => t.chars)

def BaseType.render (b : BaseType) : String := String.singleton b.letter

def FieldType.render (t : FieldType) : String := String.ofList t.chars

def MethodType.render (m : MethodType) : String := String.ofList m.chars

/-! ## 3. Reading -/

/-- Why a text is no descriptor. -/
inductive DescriptorFault where
  | leftover (c : Char)
  | badBase (c : Char)
  | missingBase
  | missingField
  | badName (name : String)
  | tooManyDimensions
  | badField (c : Char)
  | noOpening
  deriving DecidableEq, Repr

/-- The text stopped where something had to follow. -/
def DescriptorFault.isEarlyEnd : DescriptorFault → Bool
  | .missingBase | .missingField => true
  | _ => false

def DescriptorFault.message : DescriptorFault → String
  | .leftover c => "Unexpected leftover input '" ++ String.singleton c ++ "'"
  | .badBase c => "Invalid base type character '" ++ String.singleton c ++ "'"
  | .missingBase => "Missing base type character"
  | .missingField => "Missing field type"
  | .badName name => "Invalid class name in descriptor 'L" ++ name ++ "'"
  | .tooManyDimensions => "Array type has more than 255 dimensions"
  | .badField c => "Invalid field type character '" ++ String.singleton c ++ "'"
  | .noOpening => "Expected '(' for method"

/-- A character that no class name holds. -/
def endsName (c : Char) : Bool := c = ';' || c = '.' || c = '['

/-- Reads a class name up to its `;`, the characters so far being `acc` in reverse. -/
def FieldType.readName (acc : List Char) : List Char → Except DescriptorFault (String × List Char)
  | [] => .error (.badName (String.ofList acc.reverse))
  | c :: rest =>
    if endsName c then
      if c = ';' ∧ acc ≠ [] then .ok (String.ofList acc.reverse, rest)
      else .error (.badName (String.ofList acc.reverse))
    else readName (c :: acc) rest

/-- Reads a type that is no array. -/
def FieldType.readElement : List Char → Except DescriptorFault (FieldType × List Char)
  | [] => .error .missingField
  | c :: rest =>
    if c = 'L' then
      match readName [] rest with
      | .ok (name, rest) => .ok (.object name, rest)
      | .error e => .error e
    else
      match BaseType.ofLetter? c with
      | some b => .ok (.base b, rest)
      | none => .error (.badField c)

/-- Reads one type at the front of a text. -/
def FieldType.read (cs : List Char) : Except DescriptorFault (FieldType × List Char) :=
  let dimensions := (cs.takeWhile (· = '[')).length
  if dimensions = 0 then readElement cs
  else if dimensions > 255 then .error .tooManyDimensions
  else
    match readElement (cs.dropWhile (· = '[')) with
    | .ok (element, rest) => .ok (.array dimensions element, rest)
    | .error e => .error e

theorem FieldType.length_readName {acc cs rest : List Char} {name : String}
    (h : readName acc cs = .ok (name, rest)) : rest.length < cs.length := by
  induction cs generalizing acc with
  | nil => simp [readName] at h
  | cons c cs ih =>
    unfold readName at h
    split at h
    · split at h
      · cases h
        simp
      · cases h
    · have := ih h
      simp only [List.length_cons]
      omega

theorem FieldType.length_readElement {cs rest : List Char} {t : FieldType}
    (h : readElement cs = .ok (t, rest)) : rest.length < cs.length := by
  unfold readElement at h
  split at h
  · cases h
  · split at h
    · split at h
      · next name rest' hn =>
        cases h
        have := length_readName hn
        simp only [List.length_cons]
        omega
      · cases h
    · split at h
      · cases h
        simp
      · cases h

/-- **Reading a type takes at least one character.** -/
theorem FieldType.length_read {cs rest : List Char} {t : FieldType}
    (h : FieldType.read cs = .ok (t, rest)) : rest.length < cs.length := by
  simp only [FieldType.read] at h
  split at h
  · exact length_readElement h
  · split at h
    · cases h
    · split at h
      · next element rest' he =>
        cases h
        have h1 := length_readElement he
        have h2 := (List.dropWhile_suffix (l := cs) (· = '[')).length_le
        omega
      · cases h

/-- Reads parameters up to the closing parenthesis, those so far being `acc`. -/
def MethodType.readParameters (acc : Array FieldType) (cs : List Char) :
    Except DescriptorFault (List FieldType × List Char) :=
  if cs.head? = some ')' then .ok (acc.toList, cs.tail)
  else
    match h : FieldType.read cs with
    | .ok (t, rest) =>
      have := FieldType.length_read h
      readParameters (acc.push t) rest
    | .error e => .error e
  termination_by cs.length

/-- Reads a result type. -/
def MethodType.readResult (cs : List Char) :
    Except DescriptorFault (Option FieldType × List Char) :=
  if cs.head? = some 'V' then .ok (none, cs.tail)
  else
    match FieldType.read cs with
    | .ok (t, rest) => .ok (some t, rest)
    | .error e => .error e

/-- Reads a signature at the front of a text. -/
def MethodType.read (cs : List Char) : Except DescriptorFault (MethodType × List Char) :=
  if cs.head? = some '(' then
    match readParameters #[] cs.tail with
    | .ok (parameters, rest) =>
      match readResult rest with
      | .ok (result, rest) => .ok (⟨parameters, result⟩, rest)
      | .error e => .error e
    | .error e => .error e
  else .error .noOpening

/-- What was read must be the whole text. -/
def wholeOf {α : Type} : Except DescriptorFault (α × List Char) → Except DescriptorFault α
  | .ok (a, []) => .ok a
  | .ok (_, c :: _) => .error (.leftover c)
  | .error e => .error e

/-- The base type that a text names. -/
def BaseType.parse (s : String) : Except DescriptorFault BaseType :=
  match s.toList with
  | [] => .error .missingBase
  | c :: rest =>
    match BaseType.ofLetter? c with
    | some b => wholeOf (.ok (b, rest))
    | none => .error (.badBase c)

/-- The type that a text describes. -/
def FieldType.parse (s : String) : Except DescriptorFault FieldType :=
  wholeOf (FieldType.read s.toList)

/-- The signature that a text describes. -/
def MethodType.parse (s : String) : Except DescriptorFault MethodType :=
  wholeOf (MethodType.read s.toList)

end Collation
