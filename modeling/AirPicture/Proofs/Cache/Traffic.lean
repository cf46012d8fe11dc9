import AirPicture.Proofs.Cache.Recall

/-! Callers that share the holdings step by step. A lookup reads the clock, then checks the
key, and only where it found a stale value comes back to take it out; a put reads the clock
before it writes. In between, others do what they like, while the clock never runs back. -/
namespace AirPicture.Cache

def Holdings.Call.timed : Holdings.Call → Bool
  | .get _ | .has _ | .put _ _ _ => true
  | _ => false

/- How far a call has come, and what it read from the clock. -/
inductive Stage where
  | ready (c : Holdings.Call)
  | timed (c : Holdings.Call) (since : Nat)
  | stale (c : Holdings.Call) (since : Nat)
  | answered (c : Holdings.Call) (answer : Except Failure c.Answer)

namespace Stage

def advance (now : Nat) (h : Holdings) : Stage → Stage × Holdings
  | .ready c =>
    if c.timed then (.timed c now, h)
    else
      let (answer, h) := h.perform now c
      (.answered c answer, h)
  | .timed c since =>
    match c.sought with
    | some (key, made) =>
      match h.find since key with
      | .absent => (.answered c (.ok (made none)), h)
      | .live value => (.answered c (.ok (made (some value))), h)
      | .stale => (.stale c since, h)
    | none =>
      let (answer, h) := h.perform since c
      (.answered c answer, h)
  | .stale c since =>
    match c.sought with
    | some (key, made) => (.answered c (.ok (made none)), h.evict since key)
    | none => (.stale c since, h)
  | .answered c answer => (.answered c answer, h)

theorem advanceAlone (now : Nat) (h : Holdings) (c : Holdings.Call) :
    let first := advance now h (.ready c)
    let second := advance now first.2 first.1
    advance now second.2 second.1 = (.answered c (h.perform now c).1, (h.perform now c).2) := by
  cases c with
  | get key =>
    simp only [advance, Holdings.Call.timed, Holdings.Call.sought, ↓reduceIte, Holdings.perform,
      Holdings.look]
    cases h.find now key <;> rfl
  | has key =>
    simp only [advance, Holdings.Call.timed, Holdings.Call.sought, ↓reduceIte, Holdings.perform,
      Holdings.look]
    cases h.find now key <;> rfl
  | put key value life => rfl
  | add set member => rfl
  | remove set member => rfl
  | list set => rfl

def writes : Stage → List Put
  | .timed c since => c.puts since
  | _ => []

def since : Stage → Nat
  | .timed _ since | .stale _ since => since
  | _ => 0

theorem untimed {c : Holdings.Call} (plain : c.timed = false) (now : Nat) :
    c.puts now = [] ∧ c.sought = none := by
  cases c <;> first | contradiction | exact ⟨rfl, rfl⟩

theorem soughtPuts {c : Holdings.Call} {key made} (looks : c.sought = some (key, made))
    (now : Nat) : c.puts now = [] := by
  cases c <;> first | contradiction | rfl

theorem acceptedPuts {h : Holdings} {since : Nat} {key value : String} {life : Option Nat}
    (accepted : ∃ a, (h.perform since (.put key value life)).1 = .ok a) :
    (⟨key, value, since, life⟩ : Put) ∈ (Holdings.Call.put key value life).puts since := by
  obtain ⟨a, accepted⟩ := accepted
  simp only [Holdings.perform] at accepted
  simp only [Holdings.Call.puts]
  cases limit : Holdings.expiry since life with
  | error f =>
    rw [limit] at accepted
    contradiction
  | ok expires => exact List.mem_singleton_self _

theorem advanceLook (now since : Nat) (h : Holdings) {c : Holdings.Call} {key made}
    (looks : c.sought = some (key, made)) :
    advance now h (.timed c since) = (.answered c (.ok (made (h.current since key))), h) ∨
    (advance now h (.timed c since) = (.stale c since, h) ∧ h.current since key = none) := by
  simp only [advance, looks, Holdings.current, Holdings.look]
  cases h.find since key with
  | absent => exact .inl rfl
  | live value => exact .inl rfl
  | stale => exact .inr ⟨rfl, rfl⟩

theorem advanceCases (now : Nat) (h : Holdings) (stage : Stage) :
    (∃ c instant, (instant = now ∨ instant = stage.since) ∧ stage.writes = c.puts instant ∧
      c.sought = none ∧ (stage.advance now h).2 = (h.perform instant c).2) ∨
    (∃ c since key made, stage = .stale c since ∧ c.sought = some (key, made) ∧
      (stage.advance now h).2 = h.evict since key) ∨
    (stage.writes = [] ∧ (stage.advance now h).2 = h) := by
  cases stage with
  | ready c =>
    cases plain : c.timed with
    | true => exact .inr (.inr ⟨rfl, by simp only [advance, plain, ↓reduceIte]⟩)
    | false =>
      obtain ⟨silent, looks⟩ := untimed plain now
      refine .inl ⟨c, now, .inl rfl, silent.symm, looks, ?_⟩
      simp only [advance, plain, Bool.false_eq_true, ↓reduceIte]
  | timed c since =>
    cases looks : c.sought with
    | none =>
      refine .inl ⟨c, since, .inr rfl, rfl, looks, ?_⟩
      simp only [advance, looks]
    | some sought =>
      refine .inr (.inr ⟨soughtPuts looks since, ?_⟩)
      obtain same | ⟨same, _⟩ := advanceLook now since h looks <;> rw [same]
  | stale c since =>
    cases looks : c.sought with
    | none => exact .inr (.inr ⟨rfl, by simp only [advance, looks]⟩)
    | some sought =>
      exact .inr (.inl ⟨c, since, sought.1, sought.2, rfl, looks, by simp only [advance, looks]⟩)
  | answered c answer => exact .inr (.inr ⟨rfl, rfl⟩)

section Steps
variable {log : List Put} {now : Nat} {h : Holdings} {stage : Stage}

theorem advanceSince (past : stage.since ≤ now) : (stage.advance now h).1.since ≤ now := by
  cases stage with
  | ready c =>
    simp only [advance]
    split
    · exact Nat.le_refl now
    · exact Nat.zero_le now
  | timed c since =>
    simp only [advance]
    split
    · split
      · exact Nat.zero_le now
      · exact Nat.zero_le now
      · exact past
    · exact Nat.zero_le now
  | stale c since =>
    simp only [advance]
    split
    · exact Nat.zero_le now
    · exact past
  | answered c answer => exact past

theorem advanceRecalls (past : stage.since ≤ now) (recalls : h.Recalls log now) :
    (stage.advance now h).2.Recalls (log ++ stage.writes) now := by
  obtain ⟨c, instant, reading, writes, _, same⟩ | ⟨c, since, key, made, rfl, _, same⟩ |
    ⟨writes, same⟩ := advanceCases now h stage
  · rw [writes, same]
    refine Holdings.performRecalls ?_ recalls c
    rcases reading with rfl | rfl
    · exact Nat.le_refl _
    · exact past
  · rw [same]
    simp only [writes, List.append_nil]
    exact Holdings.evictRecalls past recalls key
  · rw [writes, same, List.append_nil]
    exact recalls

theorem advanceKept (now : Nat) (stage : Stage) {key : String} {e : Entry}
    (held : h.entries[key]? = some e) :
    (stage.advance now h).2.entries[key]? = some e ∨
    (∃ p, stage.writes = [p] ∧ p.key = key ∧
      (stage.advance now h).2.entries[key]? = some p.entry) ∨
    (∃ c since made, stage = .stale c since ∧ c.sought = some (key, made) ∧
      e.live since = false) := by
  obtain ⟨c, instant, _, writes, plain, same⟩ | ⟨c, since, other, made, rfl, looks, same⟩ |
    ⟨_, same⟩ := advanceCases now h stage
  · rw [same, writes]
    cases c with
    | get other => contradiction
    | has other => contradiction
    | put other value life =>
      simp only [Holdings.perform, Holdings.Call.puts]
      cases limit : Holdings.expiry instant life with
      | error f => exact .inl held
      | ok expires =>
        rw [Holdings.expiryExact limit, Holdings.putEntry]
        by_cases own : other = key
        · exact .inr (.inl ⟨_, rfl, own, by simp [own, Put.entry]⟩)
        · exact .inl (by simpa [own] using held)
    | add set member => exact .inl held
    | remove set member =>
      refine .inl ?_
      simp only [Holdings.perform, Holdings.removeEntries]
      exact held
    | list set => exact .inl held
  · rw [same, Holdings.evictEntry]
    by_cases taken : other = key ∧ h.current since other = none
    · obtain ⟨rfl, gone⟩ := taken
      refine .inr (.inr ⟨c, since, made, rfl, looks, ?_⟩)
      simpa [Holdings.currentEntry, held] using gone
    · exact .inl (by rw [if_neg taken]; exact held)
  · rw [same]
    exact .inl held

end Steps

end Stage

structure Traffic where
  holdings : Holdings
  callers : List Stage
  log : List Put

namespace Traffic

def start (calls : List Holdings.Call) : Traffic := ⟨.empty, calls.map .ready, []⟩

def take (b : Traffic) (t : Turn) : Traffic :=
  match b.callers[t.thread]? with
  | some stage =>
    let (next, holdings) := stage.advance t.now b.holdings
    ⟨holdings, b.callers.set t.thread next, b.log ++ stage.writes⟩
  | none => b

def run (b : Traffic) (turns : List Turn) : Traffic := turns.foldl take b

theorem runAppend (b : Traffic) (first second : List Turn) :
    b.run (first ++ second) = (b.run first).run second := List.foldl_append

structure Valid (now : Nat) (b : Traffic) : Prop where
  recalls : b.holdings.Recalls b.log now
  past : ∀ stage ∈ b.callers, stage.since ≤ now

theorem startValid (now : Nat) (calls : List Holdings.Call) : Valid now (start calls) where
  recalls := Holdings.emptyRecalls now
  past := by
    intro stage inside
    obtain ⟨c, _, rfl⟩ := List.mem_map.mp inside
    exact Nat.zero_le now

theorem validLater {now later : Nat} (order : now ≤ later) {b : Traffic} (valid : Valid now b) :
    Valid later b where
  recalls := Holdings.recallsLater order valid.recalls
  past stage inside := (valid.past stage inside).trans order

theorem takeValid {b : Traffic} {t : Turn} (valid : Valid t.now b) : Valid t.now (b.take t) := by
  unfold take
  cases mine : b.callers[t.thread]? with
  | none => exact valid
  | some stage =>
    have past := valid.past stage (List.mem_of_getElem? mine)
    refine ⟨Stage.advanceRecalls past valid.recalls, ?_⟩
    intro other inside
    rcases List.mem_or_eq_of_mem_set inside with before | rfl
    · exact valid.past other before
    · exact Stage.advanceSince past

theorem runValid {calls : List Holdings.Call} {turns : List Turn} {now : Nat}
    (forward : turns.Pairwise fun a b => a.now ≤ b.now) (past : ∀ t ∈ turns, t.now ≤ now) :
    Valid now ((start calls).run turns) := by
  induction turns using List.reverseRecOn generalizing now with
  | nil => exact startValid now calls
  | append_singleton turns t ih =>
    obtain ⟨sorted, _, before⟩ := List.pairwise_append.mp forward
    rw [runAppend]
    refine validLater (past t (by simp)) (takeValid (ih sorted ?_))
    exact fun earlier inside => before earlier inside t (List.mem_singleton_self t)

theorem takeLog (b : Traffic) (t : Turn) : b.log <+: (b.take t).log := by
  unfold take
  split
  · exact List.prefix_append _ _
  · exact List.prefix_rfl

theorem takeOther {b : Traffic} {t : Turn} {i : Nat} (other : t.thread ≠ i) :
    (b.take t).callers[i]? = b.callers[i]? := by
  unfold take
  split
  · simp [other]
  · rfl

theorem takeOwn {b : Traffic} {t : Turn} {stage : Stage}
    (mine : b.callers[t.thread]? = some stage) :
    b.take t = ⟨(stage.advance t.now b.holdings).2,
      b.callers.set t.thread (stage.advance t.now b.holdings).1, b.log ++ stage.writes⟩ := by
  simp only [take, mine]

theorem takeNow {b : Traffic} {i : Nat} {stage : Stage} (mine : b.callers[i]? = some stage)
    (now : Nat) :
    (b.take ⟨i, now⟩).callers[i]? = some (stage.advance now b.holdings).1 ∧
      (b.take ⟨i, now⟩).holdings = (stage.advance now b.holdings).2 := by
  rw [takeOwn (t := ⟨i, now⟩) mine]
  exact ⟨List.getElem?_set_self (List.getElem?_eq_some_iff.mp mine).1, rfl⟩

theorem runAlone {b : Traffic} {i : Nat} {c : Holdings.Call}
    (mine : b.callers[i]? = some (.ready c)) (now : Nat) :
    let alone := b.run (.replicate 3 ⟨i, now⟩)
    alone.callers[i]? = some (.answered c (b.holdings.perform now c).1) ∧
      alone.holdings = (b.holdings.perform now c).2 := by
  have undivided := Stage.advanceAlone now b.holdings c
  obtain ⟨first, held⟩ := takeNow mine now
  obtain ⟨second, kept⟩ := takeNow first now
  obtain ⟨third, left⟩ := takeNow second now
  rw [kept, held, undivided] at third left
  exact ⟨third, left⟩

section Stories
variable (calls : List Holdings.Call) (turns : List Turn) (i : Nat)

def Read (c : Holdings.Call) (since : Nat) : Prop :=
  ∃ before reading after, turns = before ++ reading :: after ∧ reading.thread = i ∧
    reading.now = since ∧ ((start calls).run before).callers[i]? = some (.ready c)

/- A caller checked a key, and the timed map of that moment finds the same for some time
between the one that it had read from the clock and the moment itself. -/
def Checked (c : Holdings.Call) (key : String) (found : Option String) : Prop :=
  ∃ before check after since instant, turns = before ++ check :: after ∧ check.thread = i ∧
    ((start calls).run before).callers[i]? = some (.timed c since) ∧ Read calls before i c since ∧
    since ≤ instant ∧ instant ≤ check.now ∧
    found = recalled ((start calls).run before).log instant key

def Story : Stage → Prop
  | .ready _ => True
  | .timed c since => Read calls turns i c since
  | .stale c since => Read calls turns i c since ∧
    ∀ key made, c.sought = some (key, made) → Checked calls turns i c key none
  | .answered c answer =>
    (∀ key made, c.sought = some (key, made) → ∃ found, answer = .ok (made found) ∧
      Checked calls turns i c key found) ∧
    ∀ key value life, c = .put key value life → (∃ a, answer = .ok a) → ∃ since,
      Read calls turns i c since ∧ ⟨key, value, since, life⟩ ∈ ((start calls).run turns).log

variable {calls turns i}

theorem readLater {c : Holdings.Call} {since : Nat} (read : Read calls turns i c since) (t : Turn) :
    Read calls (turns ++ [t]) i c since := by
  obtain ⟨before, reading, after, rfl, mine, time, stage⟩ := read
  exact ⟨before, reading, after ++ [t], by simp, mine, time, stage⟩

theorem checkedLater {c : Holdings.Call} {key : String} {found : Option String}
    (checked : Checked calls turns i c key found) (t : Turn) :
    Checked calls (turns ++ [t]) i c key found := by
  obtain ⟨before, check, after, since, instant, rfl, mine, stage, found⟩ := checked
  exact ⟨before, check, after ++ [t], since, instant, by simp, mine, stage, found⟩

theorem storyLater {stage : Stage} (story : Story calls turns i stage) (t : Turn) :
    Story calls (turns ++ [t]) i stage := by
  cases stage with
  | ready c => exact trivial
  | timed c since => exact readLater story t
  | stale c since =>
    exact ⟨readLater story.1 t, fun key made looks => checkedLater (story.2 key made looks) t⟩
  | answered c answer =>
    refine ⟨fun key made looks => ?_, fun key value life puts accepted => ?_⟩
    · obtain ⟨found, same, checked⟩ := story.1 key made looks
      exact ⟨found, same, checkedLater checked t⟩
    · obtain ⟨since, read, logged⟩ := story.2 key value life puts accepted
      refine ⟨since, readLater read t, ?_⟩
      rw [runAppend]
      exact (takeLog _ t).subset logged

theorem storyLook {t : Turn} {c : Holdings.Call} {since : Nat} {key made} (own : t.thread = i)
    (valid : Valid t.now ((start calls).run turns))
    (mine : ((start calls).run turns).callers[i]? = some (.timed c since))
    (read : Read calls turns i c since) (looks : c.sought = some (key, made)) :
    Story calls (turns ++ [t]) i
      (Stage.advance t.now ((start calls).run turns).holdings (.timed c since)).1 := by
  have past := valid.past _ (List.mem_of_getElem? mine)
  have unput : ∀ k value life, c ≠ .put k value life := by
    rintro k value life rfl
    contradiction
  obtain ⟨instant, low, high, same⟩ := Holdings.recallsBetween past valid.recalls key
  have checked : Checked calls (turns ++ [t]) i c key
      (((start calls).run turns).holdings.current since key) :=
    ⟨turns, t, [], since, instant, rfl, own, mine, read, low, high, same⟩
  obtain answered | ⟨stale, gone⟩ :=
    Stage.advanceLook t.now since ((start calls).run turns).holdings looks
  · rw [answered]
    refine ⟨fun other told sought => ?_, fun k value life puts => absurd puts (unput k value life)⟩
    cases looks.symm.trans sought
    exact ⟨_, rfl, checked⟩
  · rw [stale]
    refine ⟨readLater read t, fun other told sought => ?_⟩
    cases looks.symm.trans sought
    exact gone ▸ checked

theorem storyAdvance {t : Turn} {stage : Stage} (own : t.thread = i)
    (valid : Valid t.now ((start calls).run turns))
    (mine : ((start calls).run turns).callers[i]? = some stage)
    (story : Story calls turns i stage) :
    Story calls (turns ++ [t]) i (stage.advance t.now ((start calls).run turns).holdings).1 := by
  cases stage with
  | ready c =>
    cases plain : c.timed with
    | true =>
      simp only [Stage.advance, plain, ↓reduceIte]
      exact ⟨turns, t, [], rfl, own, rfl, mine⟩
    | false =>
      have looks := (Stage.untimed plain t.now).2
      simp only [Stage.advance, plain, Bool.false_eq_true, ↓reduceIte]
      refine ⟨fun key made sought => ?_, fun key value life puts => ?_⟩
      · rw [looks] at sought
        contradiction
      · rw [puts] at plain
        contradiction
  | timed c since =>
    cases looks : c.sought with
    | none =>
      simp only [Stage.advance, looks]
      refine ⟨fun key made sought => ?_, fun key value life puts accepted => ?_⟩
      · rw [looks] at sought
        contradiction
      · refine ⟨since, readLater story t, ?_⟩
        subst puts
        rw [runAppend]
        change _ ∈ (((start calls).run turns).take t).log
        rw [takeOwn (own ▸ mine)]
        exact List.mem_append_right _ (Stage.acceptedPuts accepted)
    | some sought => exact storyLook own valid mine story looks
  | stale c since =>
    cases looks : c.sought with
    | none =>
      simp only [Stage.advance, looks]
      exact storyLater story t
    | some sought =>
      obtain ⟨key, made⟩ := sought
      simp only [Stage.advance, looks]
      refine ⟨fun other told sought => ?_, fun k value life puts => ?_⟩
      · cases looks.symm.trans sought
        exact ⟨none, rfl, checkedLater (story.2 key made looks) t⟩
      · subst puts
        contradiction
  | answered c answer => exact storyLater story t

theorem runStory (forward : turns.Pairwise fun a b => a.now ≤ b.now) {stage : Stage}
    (found : ((start calls).run turns).callers[i]? = some stage) : Story calls turns i stage := by
  induction turns using List.reverseRecOn generalizing stage with
  | nil =>
    obtain ⟨c, _, rfl⟩ := List.mem_map.mp (List.mem_of_getElem? found)
    exact trivial
  | append_singleton turns t ih =>
    obtain ⟨sorted, _, before⟩ := List.pairwise_append.mp forward
    have valid : Valid t.now ((start calls).run turns) :=
      runValid sorted fun earlier inside => before earlier inside t (List.mem_singleton_self t)
    rw [runAppend] at found
    change (((start calls).run turns).take t).callers[i]? = some stage at found
    by_cases own : t.thread = i
    · cases mine : ((start calls).run turns).callers[i]? with
      | none =>
        simp only [take, own, mine] at found
        contradiction
      | some earlier =>
        have advanced := storyAdvance own valid mine (ih sorted mine)
        rw [takeOwn (own ▸ mine), own] at found
        have place := (List.getElem?_eq_some_iff.mp mine).1
        rw [List.getElem?_set_self place] at found
        exact Option.some.inj found ▸ advanced
    · rw [takeOther own] at found
      exact storyLater (ih sorted found) t

theorem takeKept (forward : turns.Pairwise fun a b => a.now ≤ b.now) (t : Turn) {key : String}
    {e : Entry} (held : ((start calls).run turns).holdings.entries[key]? = some e) :
    (((start calls).run turns).take t).holdings.entries[key]? = some e ∨
    (∃ p, (((start calls).run turns).take t).log = ((start calls).run turns).log ++ [p] ∧
      p.key = key ∧
      (((start calls).run turns).take t).holdings.entries[key]? = some p.entry) ∨
    ∃ c since, Read calls turns t.thread c since ∧ e.live since = false ∧
      ∃ made, c.sought = some (key, made) := by
  cases mine : ((start calls).run turns).callers[t.thread]? with
  | none =>
    refine .inl ?_
    simp only [take, mine]
    exact held
  | some stage =>
    rw [takeOwn mine]
    obtain kept | ⟨p, writes, own, put⟩ | ⟨c, since, made, rfl, looks, gone⟩ :=
      Stage.advanceKept t.now stage held
    · exact .inl kept
    · exact .inr (.inl ⟨p, congrArg _ writes, own, put⟩)
    · exact .inr (.inr ⟨c, since, (runStory forward mine).1, gone, made, looks⟩)

end Stories

end Traffic
open Traffic

/-- In sequential use, a key has the last value that was put under it until that expires, and
lookups more or less make no difference to any other answer. Among callers that share the
holdings step by step nothing is taken out but what had expired by the time that the caller
read, so the holdings have every put of the log, and the answer of a lookup is right for some
time between that reading and its check; a caller that nobody comes between is answered as by
one undivided call. -/
theorem putsAreRecalled (marked : List (Dated × Bool))
    (sorted : marked.Pairwise fun a b => a.1.now ≤ b.1.now)
    (spared : ∀ x ∈ marked, x.2 = true → x.1.call.sought ≠ none)
    (calls : List Holdings.Call) (turns : List Turn)
    (forward : turns.Pairwise fun a b => a.now ≤ b.now) :
    (∀ before now c after, marked.map Prod.fst = before ++ ⟨now, c⟩ :: after →
      ∀ key, ∃ found, ((Holdings.empty.after before).perform now (.get key)).1 = .ok found ∧
        ((Holdings.empty.after before).perform now (.has key)).1 = .ok found.isSome ∧
        ∀ value, found = some value ↔
          ∃ early p late, (before.flatMap fun d => d.call.puts d.now) = early ++ p :: late ∧
            p.key = key ∧ (∀ q ∈ late, q.key ≠ key) ∧ p.live now = true ∧ p.value = value) ∧
    ((marked.zip (Holdings.empty.answers (marked.map Prod.fst))).filter fun x => !x.1.2).map
        Prod.snd =
      Holdings.empty.answers ((marked.filter fun x => !x.2).map Prod.fst) ∧
    (∀ now, (∀ t ∈ turns, t.now ≤ now) → ∀ key,
      ((start calls).run turns).holdings.current now key =
        recalled ((start calls).run turns).log now key) ∧
    (∀ before t after, turns = before ++ t :: after → ∀ key e,
      ((start calls).run before).holdings.entries[key]? = some e →
        (((start calls).run before).take t).holdings.entries[key]? = some e ∨
        (∃ p, (((start calls).run before).take t).log = ((start calls).run before).log ++ [p] ∧
          p.key = key ∧
          (((start calls).run before).take t).holdings.entries[key]? = some p.entry) ∨
        ∃ c since, Read calls before t.thread c since ∧ e.live since = false ∧
          ∃ made, c.sought = some (key, made)) ∧
    (∀ i c answer, ((start calls).run turns).callers[i]? = some (.answered c answer) →
      (∀ key made, c.sought = some (key, made) → ∃ found, answer = .ok (made found) ∧
        Checked calls turns i c key found) ∧
      ∀ key value life, c = .put key value life → (∃ a, answer = .ok a) → ∃ since,
        Read calls turns i c since ∧
          ⟨key, value, since, life⟩ ∈ ((start calls).run turns).log) ∧
    ∀ i c now, ((start calls).run turns).callers[i]? = some (.ready c) →
      let alone := ((start calls).run turns).run (.replicate 3 ⟨i, now⟩)
      alone.callers[i]? =
          some (.answered c (((start calls).run turns).holdings.perform now c).1) ∧
        alone.holdings = (((start calls).run turns).holdings.perform now c).2 := by
  have whole : (marked.map Prod.fst).Pairwise fun a b : Dated => a.now ≤ b.now :=
    List.pairwise_map.mpr sorted
  refine ⟨?_, ?_, ?_, ?_, ?_, ?_⟩
  · intro before now c after split key
    rw [split] at whole
    have past : ∀ d ∈ before, d.now ≤ now := fun d inside =>
      (List.pairwise_append.mp whole).2.2 d inside _ List.mem_cons_self
    refine ⟨_, rfl, rfl, fun value => ?_⟩
    rw [← recalledExact, ← Holdings.afterCurrent past key]
    rfl
  · have fewer : ((marked.filter fun x => !x.2).map Prod.fst).Pairwise
        fun a b : Dated => a.now ≤ b.now := List.pairwise_map.mpr (sorted.filter _)
    have early : ∀ calls : List Dated, ∀ d ∈ calls, 0 ≤ d.now := fun _ d _ => Nat.zero_le d.now
    rw [Holdings.answersRefine (Holdings.emptyRefines 0) (early _) whole,
      Holdings.answersRefine (Holdings.emptyRefines 0) (early _) fewer]
    exact Ledger.answersSpared .empty spared
  · intro now past key
    exact Holdings.recallsCurrent (Nat.le_refl now) (runValid forward past).recalls key
  · intro before t after split key e held
    rw [split] at forward
    exact takeKept (List.pairwise_append.mp forward).1 t held
  · intro i c answer found
    exact runStory forward found
  · intro i c now ready
    exact runAlone ready now

/- Two lookups of an aircraft that has expired. While one of them has yet to take it out, it
comes back; in a sequence, only one of them is asked for. -/
def returned : List Holdings.Call :=
  [.put "A00001" "early" (some 1000), .get "A00001", .put "A00001" "late" (some 1000)]

def returnedTurns : List Turn :=
  [⟨0, 0⟩, ⟨0, 0⟩, ⟨1, 1000⟩, ⟨1, 1000⟩, ⟨2, 1000⟩, ⟨2, 1000⟩, ⟨1, 1100⟩]

def returnedLooks : List (Dated × Bool) :=
  [(⟨0, .put "A00001" "early" (some 1000)⟩, false), (⟨1000, .get "A00001"⟩, true),
    (⟨1000, .has "A00001"⟩, false)]

theorem returnedRecalled :
    Checked returned returnedTurns 1 (.get "A00001") "A00001" none ∧
    ((start returned).run returnedTurns).holdings.current 1100 "A00001" = some "late" ∧
    ((returnedLooks.zip (Holdings.empty.answers (returnedLooks.map Prod.fst))).filter
        fun x => !x.1.2).map Prod.snd =
      Holdings.empty.answers ((returnedLooks.filter fun x => !x.2).map Prod.fst) := by
  obtain ⟨_, spared, held, _, looked, _⟩ := putsAreRecalled returnedLooks (by decide) (by decide)
    returned returnedTurns (by decide)
  have answered : ((start returned).run returnedTurns).callers[1]? =
      some (.answered (.get "A00001") (.ok none)) := by rfl
  obtain ⟨found, same, checked⟩ := (looked 1 _ _ answered).1 "A00001" id rfl
  cases same
  refine ⟨checked, ?_, spared⟩
  rw [held 1100 (by decide)]
  decide +kernel

end AirPicture.Cache
