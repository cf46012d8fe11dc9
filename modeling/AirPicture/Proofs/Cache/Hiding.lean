import AirPicture.Proofs.Cache.Operation

/-! Reads among writes. What a read returns was live when it was got. A key that is live but
has left its index was removed by a reader that had missed it before it was last written:
the check and the removal are two steps, and nothing keeps a write from falling in between. -/
namespace AirPicture.Cache
open Operation

def GotLive (w : World) (events : List Event) (i : Nat) (entry : String × String) : Prop :=
  ∃ before get after e, events = before ++ get :: after ∧
    get.thread = i ∧ get.call = .holdings (.get entry.1) ∧
    (w.after before).holdings.entries[entry.1]? = some e ∧ e.live get.now = true ∧
    e.value = entry.2

def Indexed (w : World) (events : List Event) (c : Category) (key : String) : Prop :=
  ∃ before after, events = before ++ after ∧ key ∈ (w.after before).holdings.members c.index

def Exchange.Puts (x : Exchange) (key : String) : Prop :=
  ∃ value life, x = ⟨.holdings (.put key value life), .ok ()⟩

/- A reader misses the key and next removes it, for good; the key is put after the check. -/
def HiddenByReader (ops : List Operation) (events : List Event) (c : Category) (key : String) :
    Prop :=
  ∃ before check middle removal after,
    events = before ++ check :: middle ++ removal :: after ∧
    check.toExchange.Misses key ∧ removal.call = .holdings (.remove c.index key) ∧
    removal.thread = check.thread ∧ (∀ e ∈ middle, e.thread ≠ check.thread) ∧
    (∃ op, ops[check.thread]? = some op ∧ op.reads = true) ∧
    (∀ e ∈ after, e.call ≠ .holdings (.add c.index key)) ∧
    ∃ write ∈ middle ++ removal :: after, write.toExchange.Puts key

theorem uponMembers (set key : String) (w : World) (e : Event) :
    key ∈ (w.upon e).holdings.members set ↔ e.call = .holdings (.add set key) ∨
      (e.call ≠ .holdings (.remove set key) ∧ key ∈ w.holdings.members set) := by
  obtain ⟨⟨call, answer⟩, thread, now⟩ := e
  simp only [World.upon]
  cases call with
  | tallies c => simp [World.performTallies]
  | holdings c =>
    rw [World.performHoldings, Holdings.performMembers]
    simp

theorem evictGone {h : Holdings} {now : Nat} {key : String} (gone : h.current now key = none)
    (instant : Nat) (other : String) : (h.evict instant other).current now key = none := by
  rw [Holdings.currentEntry, Holdings.evictEntry]
  split
  · rfl
  · rw [← Holdings.currentEntry, gone]

theorem currentOnly {now : Nat} {key : String} {w : World} {e : Event}
    (missing : w.holdings.current now key = none)
    (found : (w.upon e).holdings.current now key ≠ none) :
    ∃ value life instant, e.call = .holdings (.put key value life) ∧
      Holdings.expiry e.now life = .ok instant := by
  obtain ⟨⟨call, answer⟩, thread, time⟩ := e
  simp only [World.upon] at found ⊢
  cases call with
  | tallies c => exact False.elim (found missing)
  | holdings c =>
    rw [World.performHoldings] at found
    cases c with
    | get other =>
      simp only [Holdings.perform, Holdings.lookExact] at found
      exact False.elim (found (evictGone missing time other))
    | has other =>
      simp only [Holdings.perform, Holdings.lookExact] at found
      exact False.elim (found (evictGone missing time other))
    | put other value life =>
      simp only [Holdings.perform] at found
      cases limit : Holdings.expiry time life with
      | error f =>
        rw [limit] at found
        exact False.elim (found missing)
      | ok instant =>
        rw [limit, Holdings.putCurrent] at found
        by_cases same : other = key
        · exact ⟨value, life, instant, by rw [same], limit⟩
        · rw [if_neg same] at found
          exact False.elim (found missing)
    | add set member =>
      simp only [Holdings.perform, Holdings.addCurrent] at found
      exact False.elim (found missing)
    | remove set member =>
      simp only [Holdings.perform, Holdings.removeCurrent] at found
      exact False.elim (found missing)
    | list set => exact False.elim (found missing)

theorem missedCurrent {w : World} {e : Event} (answered : e.answer = (w.perform e.now e.call).1)
    {key : String} (missed : e.toExchange.Misses key) : w.holdings.current e.now key = none := by
  obtain ⟨⟨call, answer⟩, thread, now⟩ := e
  rcases missed with same | same
  · cases same
    simp only [World.performHoldings, Holdings.perform, Holdings.lookExact] at answered
    simpa using (Except.ok.inj answered).symm
  · cases same
    simp only [World.performHoldings, Holdings.perform, Holdings.lookExact] at answered
    exact (Except.ok.inj answered).symm

section Crowds
variable {w : World} {life : Nat} {counted : Bool} {ops : List Operation} {turns : List Turn}

theorem getLive {i : Nat} {entry : String × String}
    (got : Got (past i ((crowd w life counted ops).events turns)) entry) :
    GotLive w ((crowd w life counted ops).events turns) i entry := by
  obtain ⟨x, inside, gets⟩ := got
  obtain ⟨before, get, after, split, own, rfl⟩ := pastMember inside
  have answered := eventAnswer split
  obtain ⟨⟨call, answer⟩, thread, now⟩ := get
  cases gets
  simp only [World.performHoldings, Holdings.perform, Holdings.lookExact] at answered
  obtain ⟨e, stands, live, same⟩ := Holdings.currentSome.mp (Except.ok.inj answered).symm
  exact ⟨before, _, after, e, split, own, rfl, stands, live, same⟩

theorem missedPut {now : Nat} {key : String} {before after : List Event} {check : Event}
    (split : (crowd w life counted ops).events turns = before ++ check :: after)
    (early : check.now ≤ now) (missed : check.toExchange.Misses key)
    (current : (w.after (before ++ check :: after)).holdings.current now key ≠ none) :
    ∃ write ∈ after, write.toExchange.Puts key := by
  have gone : ((w.after before).upon check).holdings.current now key = none := by
    have nothing := missedCurrent (eventAnswer split) missed
    obtain ⟨⟨call, answer⟩, thread, time⟩ := check
    unfold World.upon
    rcases missed with same | same
    · cases same
      simp only [World.performHoldings, Holdings.perform, Holdings.lookExact]
      exact evictGone (Holdings.currentLater early nothing) time key
    · cases same
      simp only [World.performHoldings, Holdings.perform, Holdings.lookExact]
      exact evictGone (Holdings.currentLater early nothing) time key
  rw [afterAppend] at current
  obtain ⟨write, inside, value, limit, instant, puts, timely⟩ :=
    gainedBy (fun w => w.holdings.current now key ≠ none)
      (fun w e missing found => currentOnly (not_not.mp missing) found) (not_not_intro gone) current
  refine ⟨write, inside, value, limit, ?_⟩
  obtain ⟨first, second, rfl⟩ := List.append_of_mem inside
  have answered := eventAnswer (split.trans (List.append_assoc before (check :: first) _).symm)
  obtain ⟨⟨call, answer⟩, thread, time⟩ := write
  cases puts
  simp only [World.performHoldings, Holdings.perform, timely] at answered
  rw [answered]

theorem addedIndexed {i : Nat} {c : Category} {key : String}
    (added : Asked (past i ((crowd w life counted ops).events turns))
      (.holdings (.add c.index key))) :
    Indexed w ((crowd w life counted ops).events turns) c key := by
  obtain ⟨x, inside, adds⟩ := added
  obtain ⟨before, e, after, split, _, rfl⟩ := pastMember inside
  refine ⟨before ++ [e], after, by simp [split], ?_⟩
  rw [afterAppend]
  exact (uponMembers c.index key _ e).mpr (Or.inl adds)

theorem missingHidden {now : Nat} (order : ∀ t ∈ turns, t.now ≤ now) {c : Category} {key : String}
    (indexed : Indexed w ((crowd w life counted ops).events turns) c key)
    (current : (w.after ((crowd w life counted ops).events turns)).holdings.current now key ≠ none)
    (missing : key ∉
      (w.after ((crowd w life counted ops).events turns)).holdings.members c.index) :
    HiddenByReader ops ((crowd w life counted ops).events turns) c key := by
  obtain ⟨first, second, split, entered⟩ := indexed
  rw [split, afterAppend] at missing
  obtain ⟨between, removal, after, rfl, removes, quiet⟩ :=
    lostBy (fun w => key ∈ w.holdings.members c.index) (uponMembers c.index key) entered missing
  have whole : (crowd w life counted ops).events turns = (first ++ between) ++ removal :: after :=
    split.trans (List.append_assoc first between _).symm
  obtain ⟨op, own, allowed⟩ := eventAllowed whole
  rw [removes] at allowed
  obtain ⟨reads, earlier, x, ends, missed⟩ := allowed
  obtain ⟨before, check, middle, checked, mine, rfl, silent⟩ := pastLast ends
  rw [checked, List.append_assoc, List.cons_append] at whole
  have early : check.now ≤ now := by
    have inside : check ∈ (crowd w life counted ops).events turns := by simp [whole]
    obtain ⟨t, member, _, same⟩ := Crowd.eventTurn inside
    exact same ▸ order t member
  rw [whole] at current
  obtain ⟨write, later, puts⟩ := missedPut whole early missed current
  rw [← mine] at own silent
  exact ⟨before, check, middle, removal, after, by simp [whole], missed, removes, mine.symm,
    silent, ⟨op, own, reads⟩, quiet, write, later, puts⟩

end Crowds

/-- Whatever a read returns was live when the read got it. Whatever a finished operation has
entered was in its index once; if it is live in the end and not there, a reader that had
missed it before its latest put has removed it. The clock may jump, but not beyond the end. -/
theorem onlyRewrittenHidden (w : World) (life now : Nat) (counted : Bool) (ops : List Operation)
    (turns : List Turn) (order : ∀ t ∈ turns, t.now ≤ now) :
    let events := (crowd w life counted ops).events turns
    let last := (crowd w life counted ops).run turns
    (∀ (i : Nat) c l, ops[i]? = some (.list c) →
      last.threads[i]? = some (.ok (.done (.entries l))) →
      ∀ entry ∈ l, GotLive w events i entry) ∧
    (∀ (i : Nat) l, ops[i]? = some .collect →
      last.threads[i]? = some (.ok (.done (.features l))) →
      ∃ entries : List (String × String), l = entries.map Prod.snd ∧
        ∀ entry ∈ entries, GotLive w events i entry) ∧
    (∀ (i : Nat) op reply c key, ops[i]? = some op → op.enters c = some key →
      last.threads[i]? = some (.ok (.done reply)) → Indexed w events c key) ∧
    ∀ c key, Indexed w events c key → last.world.holdings.current now key ≠ none →
      key ∉ last.world.holdings.members c.index → HiddenByReader ops events c key := by
  refine ⟨?_, ?_, ?_, ?_⟩
  · intro i c l own ran entry inside
    obtain ⟨_, same, got⟩ := replySettled own ran
    cases same
    exact getLive (got entry inside)
  · intro i l own ran
    obtain ⟨entries, same, got⟩ := replySettled own ran
    cases same
    exact ⟨entries, rfl, fun entry inside => getLive (got entry inside)⟩
  · intro i op reply c key own enters ran
    exact addedIndexed (settledEntered (replySettled own ran) c key enters)
  · intro c key indexed current missing
    rw [Crowd.runWorld] at current missing
    exact missingHidden order indexed current missing

/- An aircraft comes back between the check and the removal of a reader that had missed it. -/
def returning : List Operation :=
  [.record (overHarbour "A00001" 9000) harbour, .list .contacts,
    .record (overHarbour "A00001" 9100) harbour, .list .stations]

def returningTurns : List Turn :=
  .replicate 4 ⟨0, 0⟩ ++ .replicate 2 ⟨1, 1000⟩ ++ .replicate 4 ⟨2, 1000⟩ ++
    [⟨1, 1000⟩] ++ .replicate 3 ⟨3, 1200⟩

theorem returningHidden :
    HiddenByReader returning ((crowd .empty 1000 true returning).events returningTurns)
      .contacts "A00001" ∧
    GotLive .empty ((crowd .empty 1000 true returning).events returningTurns) 3
      ("S1", stationFeature harbour) := by
  obtain ⟨listed, _, entered, hidden⟩ :=
    onlyRewrittenHidden .empty 1000 1200 true returning returningTurns (by decide)
  have indexed := entered 2 _ .recorded .contacts "A00001" rfl rfl rfl
  exact ⟨hidden .contacts "A00001" indexed (by decide +kernel) (by decide +kernel),
    listed 3 .stations [("S1", stationFeature harbour)] rfl rfl _ (List.mem_singleton_self _)⟩

end AirPicture.Cache
