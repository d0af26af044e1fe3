import Mathlib.Data.List.Basic
import Mathlib.Tactic.Common

/-!
# Byte strings read as UTF-8

A byte string is read rune by rune: a `Rune` is a character, or one byte that starts
no character.  Reading loses nothing (`bytes_runes`), and reading an encoded text
gives its characters back (`runes_encode`).  `decode` is the lossy reading that puts
U+FFFD in the place of every byte that starts no character; it loses nothing exactly
on the encoded texts (`encode_decode_iff`).
-/

namespace Utf8

/-- A character, or a byte that starts no character. -/
inductive Rune
  | char (c : Char)
  | invalid (byte : UInt8)
  deriving DecidableEq

/-- The bytes of a rune. -/
def Rune.bytes : Rune → List UInt8
  | char c => String.utf8EncodeChar c
  | invalid byte => [byte]

/-- The rune as a character: U+FFFD for a byte that starts none. -/
def Rune.toChar : Rune → Char
  | char c => c
  | invalid _ => Char.ofNat 0xFFFD

/-- The encoding of some characters. -/
def encodeChars (chars : List Char) : List UInt8 := chars.flatMap String.utf8EncodeChar

/-- The encoding of a text. -/
def encode (text : String) : List UInt8 := encodeChars text.toList

/-- The character that a byte string starts with. -/
def firstChar (bytes : List UInt8) : Option Char := bytes.toByteArray.utf8DecodeChar? 0

theorem firstChar_eq_some {bytes : List UInt8} {c : Char} :
    firstChar bytes = some c ↔ ∃ rest, bytes = String.utf8EncodeChar c ++ rest := by
  constructor
  · intro h
    obtain ⟨rest, hrest⟩ := ByteArray.exists_of_utf8DecodeChar?_eq_some h
    refine ⟨rest.data.toList, ?_⟩
    have hlists := congrArg (fun array : ByteArray => array.data.toList) hrest
    simpa using hlists
  · rintro ⟨rest, rfl⟩
    rw [firstChar, List.toByteArray_append]
    exact ByteArray.utf8DecodeChar?_utf8EncodeChar_append

/-- The runes of a byte string, reading at most `fuel` of them. -/
def runesFrom : ℕ → List UInt8 → List Rune
  | 0, _ => []
  | _ + 1, [] => []
  | fuel + 1, byte :: rest =>
      match firstChar (byte :: rest) with
      | some c => .char c :: runesFrom fuel ((byte :: rest).drop c.utf8Size)
      | none => .invalid byte :: runesFrom fuel rest

/-- The runes of a byte string. -/
def runes (bytes : List UInt8) : List Rune := runesFrom bytes.length bytes

/-- The lossy reading of a byte string. -/
def decode (bytes : List UInt8) : String := String.ofList ((runes bytes).map Rune.toChar)

/-- The byte string is an encoded text. -/
def Valid (bytes : List UInt8) : Prop := ∃ text, bytes = encode text

theorem length_utf8EncodeChar_pos (c : Char) : 0 < (String.utf8EncodeChar c).length := by
  rw [String.length_utf8EncodeChar]
  exact c.utf8Size_pos

/-- There are no more runes than bytes. -/
theorem runesFrom_of_le {fuel : ℕ} {bytes : List UInt8} (h : bytes.length ≤ fuel) :
    runesFrom fuel bytes = runes bytes := by
  induction fuel using Nat.strongRecOn generalizing bytes with
  | _ fuel ih =>
    match fuel, bytes, h with
    | 0, [], _ => rfl
    | fuel + 1, [], _ => rfl
    | fuel + 1, byte :: rest, h =>
        rw [List.length_cons] at h
        simp only [runes, List.length_cons, runesFrom]
        cases hfirst : firstChar (byte :: rest) with
        | none =>
            have hrest : rest.length ≤ fuel := by omega
            rw [ih fuel (by omega) hrest]
            rfl
        | some c =>
            have hpositive := c.utf8Size_pos
            have hdrop : ((byte :: rest).drop c.utf8Size).length ≤ rest.length := by
              rw [List.length_drop, List.length_cons]
              omega
            have hfuel : ((byte :: rest).drop c.utf8Size).length ≤ fuel := by omega
            simp only
            rw [ih fuel (by omega) hfuel]
            rcases Nat.lt_or_ge rest.length fuel with hlt | hge
            · rw [ih rest.length (by omega) hdrop]
            · have heq : rest.length = fuel := by omega
              rw [heq, ih fuel (by omega) hfuel]

@[simp] theorem runes_nil : runes [] = [] := rfl

/-- Reading an encoded character. -/
@[simp] theorem runes_encodeChar_append (c : Char) (rest : List UInt8) :
    runes (String.utf8EncodeChar c ++ rest) = .char c :: runes rest := by
  have hfirst : firstChar (String.utf8EncodeChar c ++ rest) = some c :=
    firstChar_eq_some.mpr ⟨rest, rfl⟩
  have hlength := length_utf8EncodeChar_pos c
  have hdrop : (String.utf8EncodeChar c ++ rest).drop c.utf8Size = rest := by
    rw [← String.length_utf8EncodeChar, List.drop_left]
  generalize hbytes : String.utf8EncodeChar c ++ rest = bytes at *
  cases bytes with
  | nil =>
      rw [List.append_eq_nil_iff] at hbytes
      rw [hbytes.1] at hlength
      exact absurd hlength (by simp)
  | cons byte tail =>
      have hshorter : rest.length ≤ tail.length := by
        have hsum := congrArg List.length hbytes
        rw [List.length_append, List.length_cons] at hsum
        omega
      simp only [runes, List.length_cons, runesFrom, hfirst]
      rw [hdrop, runesFrom_of_le hshorter]
      rfl

/-- Reading a byte that starts no character. -/
theorem runes_cons_of_none {byte : UInt8} {rest : List UInt8}
    (h : firstChar (byte :: rest) = none) : runes (byte :: rest) = .invalid byte :: runes rest := by
  simp only [runes, List.length_cons, runesFrom, h]

/-- Reading loses nothing. -/
theorem bytes_runes (bytes : List UInt8) : (runes bytes).flatMap Rune.bytes = bytes := by
  induction hlength : bytes.length using Nat.strongRecOn generalizing bytes with
  | _ length ih =>
    cases bytes with
    | nil => rfl
    | cons byte rest =>
        rw [List.length_cons] at hlength
        cases hfirst : firstChar (byte :: rest) with
        | none =>
            rw [runes_cons_of_none hfirst, List.flatMap_cons, ih rest.length (by omega) rest rfl]
            rfl
        | some c =>
            obtain ⟨tail, htail⟩ := firstChar_eq_some.mp hfirst
            have hpositive := length_utf8EncodeChar_pos c
            have hshorter : tail.length < length := by
              have hsum := congrArg List.length htail
              rw [List.length_append, List.length_cons] at hsum
              omega
            rw [htail, runes_encodeChar_append, List.flatMap_cons, ih _ hshorter tail rfl]
            rfl

/-- Reading encoded characters gives them back. -/
theorem runes_encodeChars (chars : List Char) : runes (encodeChars chars) = chars.map Rune.char := by
  induction chars with
  | nil => rfl
  | cons c rest ih =>
      rw [encodeChars, List.flatMap_cons, runes_encodeChar_append, List.map_cons]
      exact congrArg _ ih

/-- Reading an encoded text gives its characters. -/
theorem runes_encode (text : String) : runes (encode text) = text.toList.map Rune.char :=
  runes_encodeChars _

@[simp] theorem decode_encode (text : String) : decode (encode text) = text := by
  rw [decode, runes_encode, List.map_map]
  have hid : Rune.toChar ∘ Rune.char = id := rfl
  rw [hid, List.map_id, String.ofList_toList]

/-- The lossy reading loses nothing exactly on the encoded texts. -/
theorem encode_decode_iff {bytes : List UInt8} : encode (decode bytes) = bytes ↔ Valid bytes := by
  constructor
  · intro h
    exact ⟨decode bytes, h.symm⟩
  · rintro ⟨text, rfl⟩
    rw [decode_encode]

instance : DecidablePred Valid := fun bytes =>
  decidable_of_iff (encode (decode bytes) = bytes) encode_decode_iff

end Utf8
