import Mathlib.Data.List.DropRight
import Mathlib.Data.Nat.Digits.Defs
import AirPicture.Proofs.Feed.Identities
import AirPicture.Proofs.Feed.Layout

/-! How callsigns are coded. The last 48 bits of an identification are eight digits to the base 64,
and each digit is a character or none. They are also six digits to the base 256, which are the
octets in which they travel; that both are digits of one number is all that is said about where the
bits of a character lie. -/
namespace AirPicture.Feed
open Text (Octets)

def letter (code : BitVec 6) : Option Char :=
  let n := code.toNat
  if 1 ≤ n ∧ n ≤ 26 then some (Char.ofNat (64 + n))
  else if n = 32 ∨ 48 ≤ n ∧ n ≤ 57 then some (Char.ofNat n)
  else none

def spelled (codes : List (BitVec 6)) : List Char := (codes.filterMap letter).rdropWhile (· == ' ')

def numeral (base : Nat) (digits : List Nat) : Nat := Nat.ofDigits base digits.reverse

theorem characterLetter (code : BitVec 6) :
    character code = (letter code).getD '#' ∧ letter code ≠ some '#' := by
  revert code
  decide +kernel

theorem lettersShown (codes : List (BitVec 6)) :
    (codes.map character).filter (· != '#') = codes.filterMap letter := by
  induction codes with
  | nil => rfl
  | cons code rest ih =>
    obtain ⟨same, none⟩ := characterLetter code
    rw [List.map_cons, List.filter_cons, ih, same]
    cases known : letter code with
    | none => simp [known]
    | some c =>
      have shown : c ≠ '#' := fun equal => none (by rw [known, equal])
      simp [known, shown]

theorem callsignSpelled (message : BitVec 56) :
    callsign message = String.ofList (spelled (characterCodes message)) := by
  unfold callsign spelled List.rdropWhile
  rw [lettersShown]

theorem codesNumber (message : BitVec 56) :
    numeral 64 ((characterCodes message).map BitVec.toNat) = message.toNat % 2 ^ 48 := by
  simp only [numeral, characterCodes, List.map_cons, List.map_nil, List.reverse_cons,
    List.reverse_nil, List.nil_append, List.cons_append, Nat.ofDigits_cons, Nat.ofDigits_nil,
    extractNat]
  omega

theorem codesSmall (codes : List (BitVec 6)) :
    ∀ digit ∈ (codes.map BitVec.toNat).reverse, digit < 64 := by
  intro digit inside
  obtain ⟨code, _, rfl⟩ := List.mem_map.mp (List.mem_reverse.mp inside)
  exact code.isLt

theorem sameCodes {codes other : List (BitVec 6)} (eight : codes.length = other.length)
    (same : numeral 64 (codes.map BitVec.toNat) = numeral 64 (other.map BitVec.toNat)) :
    codes = other := by
  have digits := Nat.ofDigits_inj_of_len_eq (by decide) (by simpa using eight)
    (codesSmall codes) (codesSmall other) same
  exact (List.map_inj_right fun _ _ => BitVec.eq_of_toNat_eq).mp (List.reverse_injective digits)

theorem octetsNumber (body : BitVec 88) (tail : Octets) :
    numeral 256 ((((bodyOctets body ++ tail).drop 5).take 6).map UInt8.toNat) =
      body.toNat % 2 ^ 48 := by
  have octet (start : Nat) : (UInt8.ofBitVec (body.extractLsb' start 8)).toNat =
      body.toNat / 2 ^ start % 2 ^ 8 := extractNat body start 8
  simp only [numeral, bodyOctets, List.map_cons, List.map_nil, List.cons_append,
    List.drop_succ_cons, List.drop_zero, List.take_succ_cons, List.take_zero, List.reverse_cons,
    List.reverse_nil,
    List.nil_append, Nat.ofDigits_cons, Nat.ofDigits_nil, octet]
  omega

theorem messageNumber (body : BitVec 88) (tail : Octets) :
    (message (bodyOctets body ++ tail)).toNat % 2 ^ 48 = body.toNat % 2 ^ 48 := by
  rw [bodyMessage, extractNat]
  omega

theorem codesRead {octets : Octets} (whole : 11 ≤ octets.length) :
    numeral 64 ((characterCodes (message octets)).map BitVec.toNat) =
      numeral 256 (((octets.drop 5).take 6).map UInt8.toNat) := by
  have eleven : (octets.take 11).length = 11 := by simp [whole]
  obtain ⟨body, begins⟩ := octetsBody eleven
  rw [← List.take_append_drop 11 octets, ← begins, codesNumber, octetsNumber, messageNumber]

structure Naming where
  format : BitVec 5
  capability : BitVec 3
  address : BitVec 24
  code : BitVec 5
  category : BitVec 3
  codes : List (BitVec 6)
  eight : codes.length = 8
  supported : format = 17 ∨ format = 18
  names : isIdentification code.toNat = true

namespace Naming
variable (f : Naming)

def number : Nat := numeral 64 (f.codes.map BitVec.toNat)

def body : BitVec 88 :=
  f.format ++ f.capability ++ f.address ++ f.code ++ f.category ++ BitVec.ofNat 48 f.number

def frame : Octets := sealed (bodyOctets f.body)

def text : String := String.ofList (spelled f.codes)

theorem numberSmall : f.number < 2 ^ 48 := by
  have small := Nat.ofDigits_lt_base_pow_length' (b := 62) (codesSmall f.codes)
  rw [List.length_reverse, List.length_map, f.eight] at small
  exact small

theorem bodyNat : f.body.toNat =
    ((((f.format.toNat * 2 ^ 3 + f.capability.toNat) * 2 ^ 24 + f.address.toNat) * 2 ^ 5 +
      f.code.toNat) * 2 ^ 3 + f.category.toNat) * 2 ^ 48 + f.number := by
  simp only [body, appendNat, BitVec.toNat_ofNat, Nat.mod_eq_of_lt f.numberSmall]

theorem fieldsLaid :
    f.body.extractLsb' 83 5 = f.format ∧ f.body.extractLsb' 56 24 = f.address ∧
    f.body.extractLsb' 51 5 = f.code ∧ f.body.toNat % 2 ^ 48 = f.number := by
  have := f.format.isLt
  have := f.capability.isLt
  have := f.address.isLt
  have := f.code.isLt
  have := f.category.isLt
  have := f.numberSmall
  have number := f.bodyNat
  refine ⟨?_, ?_, ?_, by omega⟩ <;>
    (apply BitVec.eq_of_toNat_eq; rw [extractNat, number]; omega)

theorem codesLaid (tail : Octets) :
    characterCodes (message (bodyOctets f.body ++ tail)) = f.codes := by
  refine sameCodes (by rw [f.eight]; rfl) ?_
  rw [codesNumber, messageNumber, f.fieldsLaid.2.2.2]
  rfl

theorem callsignRead : callsign (message f.frame) = f.text := by
  rw [callsignSpelled, frame, sealed, f.codesLaid, text]

theorem received (i : Identities) (station : Station) :
    receive i station f.frame = (.error (.noPosition f.code.toNat),
      if f.text = "" then i else i.remember f.address.toNat f.text) := by
  obtain ⟨format, address, code, _⟩ := f.fieldsLaid
  have supported := f.supported
  rw [← format] at supported
  have elsewhere : ¬ isPosition f.code.toNat = true := fun position => by
    have other := positionUnidentified position
    rw [f.names] at other
    contradiction
  have read := f.callsignRead
  rw [frame] at read ⊢
  rw [sealedReceived supported]
  simp only [code, address, read, f.names, if_neg elsewhere, true_and, ite_not]
  split <;> rfl

end Naming

def sixBits (c : Char) : BitVec 6 := BitVec.ofNat 6 c.toNat

theorem letterCoded {c : Char} (shown : callsignCharacters.contains c = true) :
    letter (sixBits c) = some c := by
  have all : (callsignCharacters.all fun c => letter (sixBits c) == some c) = true := by
    decide +kernel
  simpa using List.all_eq_true.mp all c (by simpa using shown)

theorem lettersCoded {text : List Char}
    (shown : text.all callsignCharacters.contains = true) :
    (text.map sixBits).filterMap letter = text := by
  rw [List.filterMap_map]
  refine (List.filterMap_congr fun c inside => ?_).trans List.filterMap_some
  exact letterCoded (List.all_eq_true.mp shown c inside)

theorem paddingSpelled {pad : List (BitVec 6)} (fills : ∀ code ∈ pad, code = 0 ∨ code = 32) :
    ∀ c ∈ pad.filterMap letter, c = ' ' := by
  intro c inside
  obtain ⟨code, member, known⟩ := List.mem_filterMap.mp inside
  rcases fills code member with rfl | rfl
  · cases known
  · exact (Option.some.inj known).symm

theorem spelledCoded {text : String} (proper : isCallsign text = true) {pad : List (BitVec 6)}
    (fills : ∀ code ∈ pad, code = 0 ∨ code = 32) :
    spelled (text.toList.map sixBits ++ pad) = text.toList := by
  simp only [isCallsign, Bool.and_eq_true, bne_iff_ne] at proper
  obtain ⟨⟨_, shown⟩, last⟩ := proper
  have blank : ∀ c ∈ (pad.filterMap letter).reverse, (c == ' ') = true := fun c inside =>
    beq_iff_eq.mpr (paddingSpelled fills c (List.mem_reverse.mp inside))
  rw [spelled, List.filterMap_append, lettersCoded shown, List.rdropWhile, List.reverse_append,
    List.dropWhile_append_of_pos blank]
  refine List.rdropWhile_eq_self_iff.mpr fun some ends => last ?_
  rw [List.getLast?_eq_some_getLast some, beq_iff_eq.mp ends]

/-- A callsign laid out in eight codes, those left over being zeros or spaces, is remembered as it
is, whatever the table held. From any message is read what its eight codes stand for, without
the spaces at the end; and nothing changes where that is nothing. -/
theorem callsignsCoded (i : Identities) (station : Station) :
    (∀ (f : Naming) text pad, isCallsign text = true → f.codes = text.toList.map sixBits ++ pad →
      (∀ code ∈ pad, code = 0 ∨ code = 32) →
      receive i station f.frame =
          (.error (.noPosition f.code.toNat), i.remember f.address.toNat text) ∧
        (i.remember f.address.toNat text).find f.address.toNat = some text) ∧
    (∀ octets : Octets, 11 ≤ octets.length → ∃ codes : List (BitVec 6), codes.length = 8 ∧
      numeral 64 (codes.map BitVec.toNat) =
        numeral 256 (((octets.drop 5).take 6).map UInt8.toNat) ∧
      callsign (message octets) = String.ofList (spelled codes)) ∧
    ∀ frame, callsign (message frame) = "" → (receive i station frame).2 = i := by
  refine ⟨fun f text pad proper laid fills => ?_, fun octets whole => ?_, fun frame blank => ?_⟩
  · have told : f.text = text := by
      rw [Naming.text, laid, spelledCoded proper fills, String.ofList_toList]
    have some : text ≠ "" := by
      rintro rfl
      contradiction
    refine ⟨?_, ?_⟩
    · rw [f.received, told, if_neg some]
    · simp [Identities.remember, Identities.find]
  · exact ⟨characterCodes (message octets), rfl, codesRead whole, callsignSpelled _⟩
  · have untold : identification frame = none := if_neg fun all => all.2.2.2.2 blank
    rw [receiveRemembers, untold]

def spaced : Naming :=
  ⟨18, 2, 0x40621D, 1, 3, "AB 1 Z9".toList.map sixBits ++ [32], by decide, by decide, by decide⟩

theorem spacedRemembered :
    isCallsign "AB 1 Z9" = true ∧ spaced.codes = "AB 1 Z9".toList.map sixBits ++ [32] ∧
    receive (.empty 1) ⟨"S1", "Ridge", 88, 10⟩ spaced.frame =
      (.error (.noPosition 1), (Identities.empty 1).remember 0x40621D "AB 1 Z9") := by
  have proper : isCallsign "AB 1 Z9" = true := by decide +kernel
  exact ⟨proper, rfl, ((callsignsCoded (.empty 1) ⟨"S1", "Ridge", 88, 10⟩).1 spaced "AB 1 Z9" [32]
    proper rfl (by decide)).1⟩

example : (⟨17, 5, 0x4840D6, 4, 0, "KLM1023".toList.map sixBits ++ [32], by decide, by decide,
    by decide⟩ : Naming).frame =
    [0x8D, 0x48, 0x40, 0xD6, 0x20, 0x2C, 0xC3, 0x71, 0xC3, 0x2C, 0xE0, 0x57, 0x60, 0x98] := by
  decide +kernel

end AirPicture.Feed
