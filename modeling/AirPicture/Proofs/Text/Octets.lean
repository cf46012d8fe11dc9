import AirPicture.Text.Octets

/-! A text as octets. Those of a character of ASCII are its number, and those of another character
have all the highest bit, so that octets without it spell themselves. -/
namespace AirPicture.Text

def letter (octet : UInt8) : Char := Char.ofNat octet.toNat

theorem letterNat (octet : UInt8) : (letter octet).toNat = octet.toNat := by
  have small := octet.toNat_lt
  have valid : octet.toNat.isValidChar := .inl (by omega)
  rw [letter, Char.ofNat, dif_pos valid]
  rfl

theorem encodeCharacters (text : List Char) :
    encode (String.ofList text) = text.flatMap String.utf8EncodeChar := by
  rw [encode, String.toUTF8_eq_toByteArray, String.toByteArray_ofList, List.utf8Encode,
    List.data_toByteArray, List.toList_toArray]

theorem plainEncoded {c : Char} (plain : c.toNat < 128) :
    String.utf8EncodeChar c = [UInt8.ofNat c.toNat] := by
  have least : c.val.toNat ≤ 127 := Nat.le_of_lt_succ plain
  rw [String.utf8EncodeChar, if_pos least]
  rfl

theorem letterPlain {c : Char} (plain : c.toNat < 128) : letter (UInt8.ofNat c.toNat) = c := by
  rw [letter, UInt8.toNat_ofNat', Nat.mod_eq_of_lt (by omega), Char.ofNat_toNat]

theorem highOctet {c : Char} (high : 128 ≤ c.toNat) :
    ∃ first rest, String.utf8EncodeChar c = first :: rest ∧ 128 ≤ first.toNat := by
  have beyond : ¬ c.val.toNat ≤ 127 := Nat.not_le.mpr high
  have large : ∀ n, 128 ≤ n → n < 256 → 128 ≤ (UInt8.ofNat n).toNat := by
    intro n least most
    rw [UInt8.toNat_ofNat', Nat.mod_eq_of_lt most]
    exact least
  simp only [String.utf8EncodeChar, beyond, ↓reduceIte]
  split
  · exact ⟨_, _, rfl, large _ (by omega) (by omega)⟩
  split
  · exact ⟨_, _, rfl, large _ (by omega) (by omega)⟩
  · exact ⟨_, _, rfl, large _ (by omega) (by omega)⟩

theorem plainLetters {text : List Char} (plain : ∀ c ∈ text, c.toNat < 128) :
    (encode (String.ofList text)).map letter = text := by
  rw [encodeCharacters]
  induction text with
  | nil => rfl
  | cons c rest ih =>
    obtain ⟨first, others⟩ := List.forall_mem_cons.mp plain
    rw [List.flatMap_cons, plainEncoded first, List.singleton_append, List.map_cons,
      letterPlain first, ih others]

theorem lettersPlain {text : List Char} (plain : ∀ o ∈ encode (String.ofList text), o.toNat < 128) :
    ∀ c ∈ text, c.toNat < 128 := by
  rw [encodeCharacters] at plain
  intro c inside
  rcases Nat.lt_or_ge c.toNat 128 with low | high
  · exact low
  · obtain ⟨first, rest, spelt, great⟩ := highOctet high
    have small := plain first (List.mem_flatMap.mpr ⟨c, inside, by simp [spelt]⟩)
    omega

end AirPicture.Text
