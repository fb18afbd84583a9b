/-!
# Byte strings and big-endian words

Everything the overlay sends is a string of bytes, and every number in it is
unsigned with its most significant byte first.  This file gives the two word
sizes that occur, 16 and 32 bits, as lists of bytes, and reads them back.  Texts
are written in UTF-8.

The main statements say that writing and reading are inverse in both
directions, so that a word or a text and its bytes determine each other.
-/

namespace ClusterOverlay

/-- A string of bytes. -/
abbrev Bytes := List UInt8

namespace Bytes

/-! ## Sixteen bits -/

/-- The two bytes of a 16-bit word. -/
def ofUInt16 (word : UInt16) : Bytes :=
  [UInt8.ofNat (word.toNat / 256), word.toUInt8]

/-- The 16-bit word with the given bytes. -/
def toUInt16 (high low : UInt8) : UInt16 :=
  UInt16.ofNat (high.toNat * 256 + low.toNat)

@[simp]
theorem length_ofUInt16 (word : UInt16) : (ofUInt16 word).length = 2 :=
  rfl

@[simp]
theorem toUInt16_bytes (word : UInt16) :
    toUInt16 (UInt8.ofNat (word.toNat / 256)) word.toUInt8 = word := by
  apply UInt16.toNat_inj.mp
  have bound := word.toNat_lt
  simp only [toUInt16, UInt16.toNat_ofNat', UInt8.toNat_ofNat', UInt16.toNat_toUInt8]
  omega

@[simp]
theorem ofUInt16_toUInt16 (high low : UInt8) :
    ofUInt16 (toUInt16 high low) = [high, low] := by
  have highBound := high.toNat_lt
  have lowBound := low.toNat_lt
  simp only [ofUInt16, toUInt16, UInt16.toNat_ofNat', List.cons.injEq, and_true]
  constructor <;> apply UInt8.toNat_inj.mp <;>
    simp only [UInt8.toNat_ofNat', UInt16.toNat_toUInt8, UInt16.toNat_ofNat'] <;> omega

/-! ## Thirty-two bits -/

/-- The four bytes of a 32-bit word. -/
def ofUInt32 (word : UInt32) : Bytes :=
  [UInt8.ofNat (word.toNat / 16777216), UInt8.ofNat (word.toNat / 65536),
    UInt8.ofNat (word.toNat / 256), word.toUInt8]

/-- The 32-bit word with the given bytes. -/
def toUInt32 (b₃ b₂ b₁ b₀ : UInt8) : UInt32 :=
  UInt32.ofNat
    (b₃.toNat * 16777216 + b₂.toNat * 65536 + b₁.toNat * 256 + b₀.toNat)

@[simp]
theorem length_ofUInt32 (word : UInt32) : (ofUInt32 word).length = 4 :=
  rfl

@[simp]
theorem toUInt32_bytes (word : UInt32) :
    toUInt32 (UInt8.ofNat (word.toNat / 16777216)) (UInt8.ofNat (word.toNat / 65536))
      (UInt8.ofNat (word.toNat / 256)) word.toUInt8 = word := by
  apply UInt32.toNat_inj.mp
  have bound := word.toNat_lt
  simp only [toUInt32, UInt32.toNat_ofNat', UInt8.toNat_ofNat', UInt32.toNat_toUInt8]
  omega

@[simp]
theorem ofUInt32_toUInt32 (b₃ b₂ b₁ b₀ : UInt8) :
    ofUInt32 (toUInt32 b₃ b₂ b₁ b₀) = [b₃, b₂, b₁, b₀] := by
  have bound₃ := b₃.toNat_lt
  have bound₂ := b₂.toNat_lt
  have bound₁ := b₁.toNat_lt
  have bound₀ := b₀.toNat_lt
  simp only [ofUInt32, toUInt32, UInt32.toNat_ofNat', List.cons.injEq, and_true]
  refine ⟨?_, ?_, ?_, ?_⟩ <;> apply UInt8.toNat_inj.mp <;>
    simp only [UInt8.toNat_ofNat', UInt32.toNat_toUInt8, UInt32.toNat_ofNat'] <;> omega

/-- Split a 32-bit word off the front of a byte string. -/
def takeUInt32? : Bytes → Option (UInt32 × Bytes)
  | b₃ :: b₂ :: b₁ :: b₀ :: rest => some (toUInt32 b₃ b₂ b₁ b₀, rest)
  | _ => none

@[simp]
theorem takeUInt32?_ofUInt32_append (word : UInt32) (rest : Bytes) :
    takeUInt32? (ofUInt32 word ++ rest) = some (word, rest) := by
  simp [ofUInt32, takeUInt32?]

/-- A word can be split off exactly when the string starts with its bytes. -/
theorem takeUInt32?_eq_some_iff {bytes rest : Bytes} {word : UInt32} :
    takeUInt32? bytes = some (word, rest) ↔ bytes = ofUInt32 word ++ rest := by
  constructor
  · intro split
    unfold takeUInt32? at split
    split at split
    · simp only [Option.some.injEq, Prod.mk.injEq] at split
      obtain ⟨rfl, rfl⟩ := split
      simp
    · contradiction
  · rintro rfl
    exact takeUInt32?_ofUInt32_append word rest

/-- A word cannot be split off exactly when fewer than four bytes are left. -/
theorem takeUInt32?_eq_none_iff {bytes : Bytes} :
    takeUInt32? bytes = none ↔ bytes.length < 4 := by
  match bytes with
  | [] | [_] | [_, _] | [_, _, _] => simp [takeUInt32?]
  | _ :: _ :: _ :: _ :: _ => simp [takeUInt32?]

/-! ## Texts -/

/-- The bytes of a text in UTF-8. -/
def ofText (text : String) : Bytes :=
  text.toUTF8.data.toList

/-- The text with the given bytes, if they are valid UTF-8. -/
def text? (bytes : Bytes) : Option String :=
  String.fromUTF8? ⟨bytes.toArray⟩

/-- Bytes are read as a text exactly when they are its UTF-8 form. -/
theorem text?_eq_some_iff {bytes : Bytes} {text : String} :
    text? bytes = some text ↔ bytes = ofText text := by
  constructor
  · intro found
    unfold text? String.fromUTF8? at found
    split at found
    · simp only [Option.some.injEq] at found
      subst found
      simp [ofText, String.fromUTF8, String.toUTF8]
    · contradiction
  · rintro rfl
    have valid : (⟨(ofText text).toArray⟩ : ByteArray).IsValidUTF8 := by
      simpa [ofText] using text.isValidUTF8
    simp only [text?, String.fromUTF8?, dif_pos valid, Option.some.injEq]
    apply String.toByteArray_inj.mp
    simp [String.fromUTF8, ofText]

@[simp]
theorem text?_ofText (text : String) : text? (ofText text) = some text :=
  text?_eq_some_iff.mpr rfl

end Bytes

end ClusterOverlay
