import Mathlib.Data.List.Forall2
import AirPicture.Proofs.Json.Numbers

/-! Reading what was written. Text fills a machine with a value if the machine, wherever a value
may begin, takes all of it and from there goes on as if the value had been placed. A number is
not over before what follows it, so that the two machines are only the same to what closes a
value: a comma, a bracket, a brace or the end. -/
namespace AirPicture.Json

def Machine.pass (m : Machine) (text : List Char) : Option Machine :=
  text.foldlM (fun m c => (m.step c).toOption) m

theorem passStep {m next : Machine} {c : Char} (step : m.step c = .ok next) (rest : List Char) :
    m.pass (c :: rest) = next.pass rest := by
  simp [Machine.pass, step, Except.toOption]

theorem passAppend {m next : Machine} {first : List Char} (passed : m.pass first = some next)
    (second : List Char) : m.pass (first ++ second) = next.pass second := by
  unfold Machine.pass at passed ⊢
  rw [List.foldlM_append, passed]
  rfl

theorem runPassed {m last : Machine} {text : List Char} {result : Value × Bool}
    (passed : m.pass text = some last) (finished : last.finish = .ok result) (offset : Nat) :
    m.run offset text = .ok result := by
  induction text generalizing m offset with
  | nil =>
    cases Option.some.inj passed
    simp [Machine.run, finished, Except.mapError]
  | cons c rest ih =>
    cases step : m.step c with
    | error fault => simp [Machine.pass, step, Except.toOption] at passed
    | ok next =>
      rw [passStep step] at passed
      simp only [Machine.run, step]
      exact ih passed _

def IsClosing (c : Char) : Prop := c = ',' ∨ c = ']' ∨ c = '\x7d'

structure Machine.Settles (m after : Machine) : Prop where
  finish : m.finish = after.finish
  closes : ∀ c, IsClosing c → m.step c = after.step c

def Fills (text : List Char) (m after : Machine) : Prop :=
  ∃ last, m.pass text = some last ∧ last.Settles after

def Machine.Ready (m : Machine) : Prop := m.mode = .value ∨ m.mode = .first

def Writes (text : List Char) (v : Value) : Prop :=
  ∀ m : Machine, m.Ready → Fills text m (m.place v)

theorem fillsPassed {m after : Machine} {text : List Char} (passed : m.pass text = some after) :
    Fills text m after :=
  ⟨after, passed, rfl, fun _ _ => rfl⟩

theorem fillsAfter {m next after : Machine} {first second : List Char}
    (passed : m.pass first = some next) (fills : Fills second next after) :
    Fills (first ++ second) m after := by
  obtain ⟨last, later, settles⟩ := fills
  exact ⟨last, (passAppend passed second).trans later, settles⟩

theorem fillsClosed {m after next : Machine} {text : List Char} {c : Char}
    (fills : Fills text m after) (closing : IsClosing c) (step : after.step c = .ok next) :
    m.pass (text ++ [c]) = some next := by
  obtain ⟨last, passed, settles⟩ := fills
  rw [passAppend passed, passStep ((settles.closes c closing).trans step)]
  rfl

theorem stepReady {m : Machine} (ready : m.Ready) {c : Char} (solid : isSpace c = false)
    (other : c ≠ ']') : m.step c = m.begin c := by
  rcases ready with mode | mode <;> simp [Machine.step, mode, solid, other]

theorem readWritten {text : List Char} {v : Value} (writes : Writes text v) :
    read text = .ok (v, false) := by
  obtain ⟨last, passed, settles⟩ := writes .start (.inl rfl)
  have finished : last.finish = .ok (v, false) := settles.finish
  rw [read, runPassed passed finished]
  rfl

theorem placeMode (m : Machine) (mode : Mode) (v : Value) :
    { m with mode : Machine }.place v = m.place v := by
  obtain ⟨_, stack, _⟩ := m
  cases stack with
  | nil => rfl
  | cons frame rest => cases frame <;> rfl

theorem placeStep (m : Machine) (v : Value) (c : Char) :
    (m.place v).step c = (m.place v).continue c := by
  obtain ⟨_, stack, _⟩ := m
  cases stack with
  | nil => rfl
  | cons frame rest => cases frame <;> rfl

theorem wordPassed (m : Machine) (v : Value) (c : Char) (left : List Char) :
    { m with mode := .word (c :: left) v : Machine }.pass (c :: left) = some (m.place v) := by
  induction left generalizing c with
  | nil =>
    rw [← placeMode m (.word [c] v)]
    simp [Machine.pass, Machine.step, Except.toOption]
  | cons next left ih =>
    have step : { m with mode := .word (c :: next :: left) v : Machine }.step c =
        .ok { m with mode := .word (next :: left) v } := by simp [Machine.step]
    rw [passStep step, ih]

theorem wordWritten {c next : Char} {left : List Char} {v : Value}
    (begins : ∀ m : Machine, m.begin c = .ok { m with mode := .word (next :: left) v })
    (solid : isSpace c = false) (other : c ≠ ']') : Writes (c :: next :: left) v := by
  intro m ready
  apply fillsPassed
  rw [passStep ((stepReady ready solid other).trans (begins m))]
  exact wordPassed m v next left

theorem nullWritten : Writes "null".toList .null := by
  change Writes ['n', 'u', 'l', 'l'] .null
  exact wordWritten (fun _ => rfl) rfl (by decide)

theorem boolWritten (b : Bool) : Writes (if b then "true" else "false").toList (.bool b) := by
  cases b with
  | true =>
    change Writes ['t', 'r', 'u', 'e'] (.bool true)
    exact wordWritten (fun _ => rfl) rfl (by decide)
  | false =>
    change Writes ['f', 'a', 'l', 's', 'e'] (.bool false)
    exact wordWritten (fun _ => rfl) rfl (by decide)

def Machine.within (m : Machine) (isKey : Bool) (chars : List Char) : Machine :=
  { m with mode := .text isKey ⟨chars, none, .none⟩ }

def Machine.unit (m : Machine) (isKey : Bool) (chars : List Char) (octets code : Nat) : Machine :=
  { m with mode := .text isKey ⟨chars, none, .unit octets (some code)⟩ }

def hexCharacter (figure : Nat) : Char :=
  Char.ofNat (if figure < 10 then figure + 48 else figure + 87)

theorem hexCharacterRead {figure : Nat} (small : figure < 16) :
    Text.hexFigure (hexCharacter figure) = some figure ∧ (hexCharacter figure).utf8Size = 1 := by
  have all : ∀ figure : Fin 16, Text.hexFigure (hexCharacter figure) = some figure.val ∧
      (hexCharacter figure).utf8Size = 1 := by decide
  exact all ⟨figure, small⟩

theorem figureStep (m : Machine) (isKey : Bool) (chars : List Char) {octets : Nat} (code : Nat)
    {figure : Nat} (early : octets < 3) (small : figure < 16) :
    (m.unit isKey chars octets code).step (hexCharacter figure) =
      .ok (m.unit isKey chars (octets + 1) (16 * code + figure)) := by
  obtain ⟨read, single⟩ := hexCharacterRead small
  have more : octets + 1 < 4 := by omega
  simp [Machine.step, Machine.unit, Machine.stepText, Machine.stepUnit, read, single, more]

theorem lastFigureStep (m : Machine) (isKey : Bool) (chars : List Char) {code figure : Nat}
    (small : figure < 16) (low : 16 * code + figure < 0xD800) :
    (m.unit isKey chars 3 code).step (hexCharacter figure) =
      .ok (m.within isKey (Char.ofNat (16 * code + figure) :: chars)) := by
  obtain ⟨read, single⟩ := hexCharacterRead small
  have notHigh : isHigh (16 * code + figure) = false := by
    simp only [isHigh, Bool.and_eq_false_iff, decide_eq_false_iff_not]
    omega
  have notLow : isLow (16 * code + figure) = false := by
    simp only [isLow, Bool.and_eq_false_iff, decide_eq_false_iff_not]
    omega
  simp [Machine.step, Machine.unit, Machine.within, Machine.stepText, Machine.stepUnit, read, single,
    Partial.putUnit, Partial.put, Partial.spoils, notHigh, notLow]

theorem unitPassed (m : Machine) (isKey : Bool) (chars : List Char) {n : Nat} (low : n < 0xD800) :
    (m.within isKey chars).pass ('\\' :: 'u' :: hexFigures n) =
      some (m.within isKey (Char.ofNat n :: chars)) := by
  have opened : (m.within isKey chars).step '\\' =
      .ok { m with mode := .text isKey ⟨chars, none, .opened⟩ } := rfl
  have begun : { m with mode := .text isKey ⟨chars, none, .opened⟩ : Machine }.step 'u' =
      .ok (m.unit isKey chars 0 0) := rfl
  have spelt : hexFigures n = [hexCharacter (n / 4096 % 16), hexCharacter (n / 256 % 16),
      hexCharacter (n / 16 % 16), hexCharacter (n / 1 % 16)] := rfl
  have whole : 16 * (16 * (16 * (16 * 0 + n / 4096 % 16) + n / 256 % 16) + n / 16 % 16) +
      n / 1 % 16 = n := by omega
  have small : ∀ k, k % 16 < 16 := fun k => Nat.mod_lt k (by decide)
  rw [spelt, passStep opened, passStep begun,
    passStep (figureStep m isKey chars _ (by decide) (small _)),
    passStep (figureStep m isKey chars _ (by decide) (small _)),
    passStep (figureStep m isKey chars _ (by decide) (small _)),
    passStep (lastFigureStep m isKey chars (small _) (by rw [whole]; exact low)), whole]
  rfl

theorem shortPassed (m : Machine) (isKey : Bool) (chars : List Char) {c e : Char}
    (short : shortEscape e = some c) :
    (m.within isKey chars).pass ['\\', e] = some (m.within isKey (c :: chars)) := by
  have opened : (m.within isKey chars).step '\\' =
      .ok { m with mode := .text isKey ⟨chars, none, .opened⟩ } := rfl
  have other : e ≠ 'u' := by
    rintro rfl
    simp [shortEscape] at short
  have closed : { m with mode := .text isKey ⟨chars, none, .opened⟩ : Machine }.step e =
      .ok (m.within isKey (c :: chars)) := by
    simp [Machine.step, Machine.stepText, Machine.within, Partial.put, short, other]
  rw [passStep opened, passStep closed]
  rfl

theorem escapedCases (c : Char) :
    (∃ e, shortEscape e = some c ∧ escaped c = ['\\', e]) ∨
    (c.toNat < 32 ∧ escaped c = '\\' :: 'u' :: hexFigures c.toNat) ∨
    (c ≠ '"' ∧ c ≠ '\\' ∧ ¬ c.toNat < 32 ∧ escaped c = [c]) := by
  by_cases named : c ∈ ['"', '\\', '\x08', '\x0C', '\n', '\r', '\t']
  · simp only [List.mem_cons, List.not_mem_nil, or_false] at named
    rcases named with rfl | rfl | rfl | rfl | rfl | rfl | rfl <;> exact .inl ⟨_, rfl, rfl⟩
  · simp only [List.mem_cons, List.not_mem_nil, or_false, not_or] at named
    obtain ⟨quote, slash, back, feed, line, carriage, tab⟩ := named
    by_cases control : c.toNat < 32
    · exact .inr (.inl ⟨control, by
        simp [escaped, quote, slash, back, feed, line, carriage, tab, control]⟩)
    · exact .inr (.inr ⟨quote, slash, control, by
        simp [escaped, quote, slash, back, feed, line, carriage, tab, control]⟩)

theorem escapedPassed (m : Machine) (isKey : Bool) (chars : List Char) (c : Char) :
    (m.within isKey chars).pass (escaped c) = some (m.within isKey (c :: chars)) := by
  obtain ⟨e, short, same⟩ | ⟨control, same⟩ | ⟨quote, slash, shown, same⟩ := escapedCases c
  · rw [same, shortPassed m isKey chars short]
  · rw [same, unitPassed m isKey chars (by omega), Char.ofNat_toNat]
  · have step : (m.within isKey chars).step c = .ok (m.within isKey (c :: chars)) := by
      simp [Machine.step, Machine.stepText, Machine.within, Partial.put, quote, slash, shown]
    rw [same, passStep step]
    rfl

theorem charsPassed (m : Machine) (isKey : Bool) (chars text : List Char) :
    (m.within isKey chars).pass (text.flatMap escaped) =
      some (m.within isKey (text.reverse ++ chars)) := by
  induction text generalizing chars with
  | nil => rfl
  | cons c rest ih =>
    rw [List.flatMap_cons, passAppend (escapedPassed m isKey chars c), ih]
    simp

theorem textPassed (m : Machine) (isKey : Bool) (s : String) :
    (m.within isKey []).pass (s.toList.flatMap escaped ++ ['"']) =
      some (if isKey then { m with mode := .colon s } else m.place (.text s)) := by
  have finished : (m.within isKey (s.toList.reverse ++ [])).step '"' =
      .ok (if isKey then { m with mode := .colon s } else m.place (.text s)) := by
    have told : (⟨s.toList.reverse ++ [], none, .none⟩ : Partial).finish = s := by
      simp [Partial.finish]
    simp only [Machine.step, Machine.within, Machine.stepText, Machine.finishText, told,
      Option.isSome_none, Bool.or_false]
    cases isKey
    · exact congrArg Except.ok (placeMode m _ _)
    · rfl
  rw [passAppend (charsPassed m isKey [] s.toList), passStep finished]
  rfl

theorem textWritten (s : String) : Writes (writeText s) (.text s) := by
  intro m ready
  apply fillsPassed
  rw [writeText, List.cons_append, passStep (stepReady ready rfl (by decide))]
  exact textPassed m false s

theorem keyPassed {m : Machine} (mode : m.mode = .key ∨ m.mode = .firstKey) (s : String) :
    m.pass (writeText s) = some { m with mode := .colon s } := by
  have step : m.step '"' = .ok (m.within true []) := by
    rcases mode with mode | mode <;> simp [Machine.step, mode, Machine.stepKey, isSpace] <;> rfl
  rw [writeText, List.cons_append, passStep step]
  exact textPassed m true s

theorem numberPassed (m : Machine) {s last : NumberState} {text token : List Char}
    (followed : s.follow text = some last) :
    { m with mode := .number s token : Machine }.pass text =
      some { m with mode := .number last (text.reverse ++ token) } := by
  induction text generalizing s token with
  | nil =>
    cases Option.some.inj followed
    rfl
  | cons c rest ih =>
    cases next : s.next c with
    | none => simp [NumberState.follow, next] at followed
    | some s' =>
      have followed : s'.follow rest = some last := by
        simpa [NumberState.follow, next] using followed
      have step : { m with mode := .number s token : Machine }.step c =
          .ok { m with mode := .number s' (c :: token) } := by
        simp [Machine.step, Machine.stepNumber, next]
      rw [passStep step, ih followed]
      simp

theorem numberSettles (m : Machine) {s : NumberState} (whole : s.whole? = true)
    (token : List Char) :
    { m with mode := .number s token : Machine }.Settles (m.place (.number token.reverse)) where
  finish := by
    obtain ⟨mode, stack, halves⟩ := m
    cases stack with
    | nil => simp [Machine.finish, Machine.place, whole]
    | cons frame rest =>
      cases frame <;> simp [Machine.finish, Machine.place, Machine.unfinished, whole]
  closes c closing := by
    have ends : s.next c = none ∧ s.endsBefore c = true := by
      rcases closing with rfl | rfl | rfl <;> cases s <;> first | contradiction | decide
    rw [placeStep]
    simp only [Machine.step, Machine.stepNumber, ends.1, ends.2, ↓reduceIte]
    rw [placeMode]

theorem firstBegins (m : Machine) {c : Char} {s : NumberState}
    (first : NumberState.first c = some s) :
    m.begin c = .ok { m with mode := .number s [c] } ∧ isSpace c = false ∧ c ≠ ']' := by
  have solid : isSpace c = false ∧ c ≠ ']' := by
    constructor
    · refine Bool.eq_false_iff.mpr fun space => ?_
      simp only [isSpace, Bool.or_eq_true, beq_iff_eq, or_assoc] at space
      rcases space with rfl | rfl | rfl | rfl <;> contradiction
    · rintro rfl
      contradiction
  refine ⟨?_, solid⟩
  unfold Machine.begin
  split
  case h_4 | h_5 => cases first; rfl
  case h_9 =>
    rename_i minus zero _ _ _
    have figure : isFigure c = true ∧ s = .whole := by
      simp only [NumberState.first, NumberState.next, if_neg minus, if_neg zero] at first
      split at first
      · rename_i figure
        exact ⟨figure, (Option.some.inj first).symm⟩
      · contradiction
    rw [if_pos figure.1, figure.2]
  all_goals contradiction

theorem numberWritten {token : List Char} (valid : isNumber token = true) :
    Writes token (.number token) := by
  intro m ready
  cases token with
  | nil => contradiction
  | cons c rest =>
    cases first : NumberState.first c with
    | none => simp [isNumber, NumberState.of, first] at valid
    | some s =>
      cases followed : s.follow rest with
      | none => simp [isNumber, NumberState.of, first, followed] at valid
      | some last =>
        have whole : last.whole? = true := by
          simpa [isNumber, NumberState.of, first, followed] using valid
        obtain ⟨begun, solid, other⟩ := firstBegins m first
        refine ⟨_, (passStep ((stepReady ready solid other).trans begun) rest).trans
          (numberPassed m followed), ?_⟩
        have settles := numberSettles m whole (rest.reverse ++ [c])
        rwa [show (rest.reverse ++ [c]).reverse = c :: rest by simp] at settles

theorem fillsNext {m after next final : Machine} {text : List Char} {rest : List (List Char)}
    (more : rest ≠ []) (fills : Fills text m after) (step : after.step ',' = .ok next)
    (later : Fills (writeItems rest) next final) : Fills (writeItems (text :: rest)) m final := by
  have joined : writeItems (text :: rest) = (text ++ [',']) ++ writeItems rest := by
    cases rest with
    | nil => contradiction
    | cons second others => simp [writeItems, List.intersperse]
  rw [joined]
  exact fillsAfter (fillsClosed fills (.inl rfl) step) later

theorem itemsFill (stack : List Frame) (halves : Bool) {text : List Char}
    {texts : List (List Char)} {v : Value} {values : List Value} (first : Writes text v)
    (others : List.Forall₂ Writes texts values) {mode : Mode}
    (ready : mode = .value ∨ mode = .first) (before : List Value) :
    Fills (writeItems (text :: texts)) ⟨mode, .array before :: stack, halves⟩
      ⟨.after, .array ((v :: values).reverse ++ before) :: stack, halves⟩ := by
  have filled : Fills text ⟨mode, .array before :: stack, halves⟩
      ⟨.after, .array (v :: before) :: stack, halves⟩ := first ⟨mode, _, halves⟩ ready
  induction others generalizing text v mode before with
  | nil => simpa [writeItems] using filled
  | cons second others ih =>
    refine fillsNext (by simp) filled rfl ?_
    have later := ih second (.inl rfl) (v :: before) (second ⟨.value, _, halves⟩ (.inl rfl))
    simpa using later

theorem arrayWritten {texts : List (List Char)} {values : List Value}
    (written : List.Forall₂ Writes texts values) : Writes (writeArray texts) (.array values) := by
  intro m ready
  have begun : m.step '[' = .ok ⟨.first, .array [] :: m.stack, m.halves⟩ :=
    stepReady ready rfl (by decide)
  have closed : (⟨.after, .array values.reverse :: m.stack, m.halves⟩ : Machine).step ']' =
      .ok (m.place (.array values)) := by
    rw [← placeMode m .after]
    simp [Machine.step, Machine.continue, Machine.separate, Machine.close, isSpace]
  apply fillsPassed
  rw [writeArray, List.cons_append, passStep begun]
  cases written with
  | nil => exact passStep closed []
  | cons first others =>
    have filled := itemsFill m.stack m.halves first others (.inr rfl) []
    rw [List.append_nil] at filled
    exact fillsClosed filled (.inr (.inl rfl)) closed

def WritesMember (member : String × List Char) (read : String × Value) : Prop :=
  member.1 = read.1 ∧ Writes member.2 read.2

def written (members : List (String × List Char)) : List (List Char) :=
  members.map fun m => writeMember m.1 m.2

theorem memberFills (stack : List Frame) (halves : Bool) {member : String × List Char}
    {read : String × Value} (writes : WritesMember member read) {mode : Mode}
    (ready : mode = .key ∨ mode = .firstKey) (before : List (String × Value)) (key : String) :
    Fills (writeMember member.1 member.2) ⟨mode, .object before key :: stack, halves⟩
      ⟨.after, .object (read :: before) read.1 :: stack, halves⟩ := by
  obtain ⟨name, text⟩ := member
  obtain ⟨_, v⟩ := read
  obtain ⟨rfl, value⟩ := writes
  have named : (⟨mode, .object before key :: stack, halves⟩ : Machine).pass
      (writeText name ++ [':']) = some ⟨.value, .object before name :: stack, halves⟩ := by
    rw [passAppend (keyPassed ready name)]
    rfl
  have joined : writeMember name text = (writeText name ++ [':']) ++ text := by
    simp [writeMember]
  rw [joined]
  exact fillsAfter named (value ⟨.value, _, halves⟩ (.inl rfl))

theorem membersFill (stack : List Frame) (halves : Bool) {member : String × List Char}
    {members : List (String × List Char)} {read : String × Value} {reads : List (String × Value)}
    (first : WritesMember member read) (others : List.Forall₂ WritesMember members reads)
    {mode : Mode} (ready : mode = .key ∨ mode = .firstKey) (before : List (String × Value))
    (key : String) :
    ∃ last, Fills (writeItems (written (member :: members)))
      ⟨mode, .object before key :: stack, halves⟩
      ⟨.after, .object ((read :: reads).reverse ++ before) last :: stack, halves⟩ := by
  have filled := memberFills stack halves first ready before key
  induction others generalizing member read mode before key with
  | nil => exact ⟨read.1, by simpa [written, writeItems] using filled⟩
  | cons second others ih =>
    obtain ⟨last, later⟩ := ih second (.inl rfl) (read :: before) read.1
      (memberFills stack halves second (.inl rfl) (read :: before) read.1)
    exact ⟨last, fillsNext (by simp) filled rfl (by simpa [written] using later)⟩

theorem objectWritten {members : List (String × List Char)} {reads : List (String × Value)}
    (writes : List.Forall₂ WritesMember members reads) :
    Writes (writeObject members) (.object reads) := by
  intro m ready
  have begun : m.step '\x7b' = .ok ⟨.firstKey, .object [] "" :: m.stack, m.halves⟩ :=
    stepReady ready rfl (by decide)
  have closed : ∀ key, (⟨.after, .object reads.reverse key :: m.stack, m.halves⟩ : Machine).step
      '\x7d' = .ok (m.place (.object reads)) := by
    intro key
    rw [← placeMode m .after]
    simp [Machine.step, Machine.continue, Machine.separate, Machine.close, isSpace]
  apply fillsPassed
  rw [writeObject, List.cons_append, passStep begun]
  cases writes with
  | nil =>
    have empty : (⟨.firstKey, .object [] "" :: m.stack, m.halves⟩ : Machine).step '\x7d' =
        .ok (m.place (.object [])) := congrArg Except.ok (placeMode m _ _)
    exact passStep empty []
  | cons first others =>
    obtain ⟨last, filled⟩ := membersFill m.stack m.halves first others (.inr rfl) [] ""
    rw [List.append_nil] at filled
    exact fillsClosed filled (.inr (.inr rfl)) (closed last)

mutual

def Value.Proper : Value → Prop
  | .null | .bool _ | .text _ => True
  | .number token => isNumber token = true
  | .array items => AllProper items
  | .object members => EachProper members

def AllProper : List Value → Prop
  | [] => True
  | item :: rest => item.Proper ∧ AllProper rest

def EachProper : List (String × Value) → Prop
  | [] => True
  | (_, value) :: rest => value.Proper ∧ EachProper rest

end

mutual

theorem valueWritten : (v : Value) → v.Proper → Writes v.write v
  | .null, _ => nullWritten
  | .bool b, _ => boolWritten b
  | .text s, _ => textWritten s
  | .number _, proper => numberWritten proper
  | .array items, proper => arrayWritten (allWritten items proper)
  | .object members, proper => objectWritten (eachWritten members proper)

theorem allWritten : (items : List Value) → AllProper items →
    List.Forall₂ Writes (writeAll items) items
  | [], _ => .nil
  | item :: rest, proper => .cons (valueWritten item proper.1) (allWritten rest proper.2)

theorem eachWritten : (members : List (String × Value)) → EachProper members →
    List.Forall₂ WritesMember (writeEach members) members
  | [], _ => .nil
  | (_, value) :: rest, proper => .cons ⟨rfl, valueWritten value proper.1⟩ (eachWritten rest proper.2)

end

end AirPicture.Json
