import Mathlib.Data.List.Induction
import AirPicture.Cache.Crowd
import AirPicture.Proofs.Cache.Program

/-! What happened in a crowd, call by call. The events of a run, in their order, determine
what became of the world, and those of one thread alone determine how far it has come. So
a statement about all interleavings splits in two: what a program does, given any answers
to its own calls, and what the calls of all the programs do to the world in any order. -/
namespace AirPicture.Cache

structure Exchange where
  call : Call
  answer : Except Failure call.Answer

structure Event extends Exchange where
  thread : Nat
  now : Nat

def World.upon (w : World) (e : Event) : World := (w.perform e.now e.call).2

def World.after (w : World) (events : List Event) : World := events.foldl World.upon w

theorem afterAppend (w : World) (first second : List Event) :
    w.after (first ++ second) = (w.after first).after second :=
  List.foldl_append

def Legal : World → List Event → Prop
  | _, [] => True
  | w, e :: rest => e.answer = (w.perform e.now e.call).1 ∧ Legal (w.upon e) rest

theorem legalAppend {w : World} {first second : List Event} :
    Legal w (first ++ second) ↔ Legal w first ∧ Legal (w.after first) second := by
  induction first generalizing w with
  | nil => exact (and_iff_right trivial).symm
  | cons e rest ih =>
    simp only [List.cons_append, Legal, ih, and_assoc]
    rfl

theorem legalAnswer {w : World} {before after : List Event} {e : Event}
    (legal : Legal w (before ++ e :: after)) :
    e.answer = ((w.after before).perform e.now e.call).1 :=
  (legalAppend.mp legal).2.1

theorem gainedBy (holds : World → Prop) {gains : Event → Prop}
    (only : ∀ (w : World) e, ¬ holds w → holds (w.upon e) → gains e) {w : World}
    {events : List Event} (first : ¬ holds w) (last : holds (w.after events)) :
    ∃ e ∈ events, gains e := by
  induction events generalizing w with
  | nil => exact False.elim (first last)
  | cons e rest ih =>
    by_cases now : holds (w.upon e)
    · exact ⟨e, List.mem_cons_self, only w e first now⟩
    · obtain ⟨later, inside, gained⟩ := ih now last
      exact ⟨later, List.mem_cons_of_mem _ inside, gained⟩

theorem lostBy (holds : World → Prop) {gains loses : Event → Prop}
    (exactly : ∀ (w : World) e, holds (w.upon e) ↔ gains e ∨ (¬ loses e ∧ holds w)) {w : World}
    {events : List Event} (first : holds w) (last : ¬ holds (w.after events)) :
    ∃ before e after, events = before ++ e :: after ∧ loses e ∧ ∀ later ∈ after, ¬ gains later := by
  induction events using List.reverseRecOn with
  | nil => exact False.elim (last first)
  | append_singleton events e ih =>
    have stepped : w.after (events ++ [e]) = (w.after events).upon e := afterAppend w events [e]
    rw [stepped, exactly] at last
    by_cases still : holds (w.after events)
    · refine ⟨events, e, [], rfl, ?_, by simp⟩
      by_contra kept
      exact last (Or.inr ⟨kept, still⟩)
    · obtain ⟨before, lost, after, rfl, loses, quiet⟩ := ih still
      refine ⟨before, lost, after ++ [e], by simp, loses, ?_⟩
      intro later inside
      rcases List.mem_append.mp inside with earlier | same
      · exact quiet later earlier
      · rw [List.mem_singleton.mp same]
        exact fun gains => last (Or.inl gains)

def past (i : Nat) (events : List Event) : List Exchange :=
  (events.filter fun e => e.thread = i).map Event.toExchange

theorem pastAppend (i : Nat) (first second : List Event) :
    past i (first ++ second) = past i first ++ past i second := by
  simp [past]

theorem pastOwn {i : Nat} {e : Event} (own : e.thread = i) (rest : List Event) :
    past i (e :: rest) = e.toExchange :: past i rest := by
  simp [past, own]

theorem pastOther {i : Nat} {e : Event} (other : e.thread ≠ i) (rest : List Event) :
    past i (e :: rest) = past i rest := by
  simp [past, other]

theorem pastMember {i : Nat} {events : List Event} {x : Exchange} (inside : x ∈ past i events) :
    ∃ before e after, events = before ++ e :: after ∧ e.thread = i ∧ e.toExchange = x := by
  obtain ⟨e, member, same⟩ := List.mem_map.mp inside
  obtain ⟨held, own⟩ := List.mem_filter.mp member
  obtain ⟨before, after, split⟩ := List.append_of_mem held
  exact ⟨before, e, after, split, of_decide_eq_true own, same⟩

theorem pastLast {i : Nat} {events : List Event} {earlier : List Exchange} {x : Exchange}
    (ends : past i events = earlier ++ [x]) :
    ∃ before e after, events = before ++ e :: after ∧ e.thread = i ∧ e.toExchange = x ∧
      ∀ later ∈ after, later.thread ≠ i := by
  induction events using List.reverseRecOn with
  | nil => simp [past] at ends
  | append_singleton events e ih =>
    rw [pastAppend] at ends
    by_cases own : e.thread = i
    · rw [pastOwn own] at ends
      have same := (List.append_inj' ends rfl).2
      exact ⟨events, e, [], rfl, own, (List.cons.inj same).1, by simp⟩
    · rw [pastOther own] at ends
      obtain ⟨before, found, after, rfl, mine, same, quiet⟩ := ih (by simpa [past] using ends)
      refine ⟨before, found, after ++ [e], by simp, mine, same, ?_⟩
      intro later inside
      rcases List.mem_append.mp inside with earlier | last
      · exact quiet later earlier
      · rw [List.mem_singleton.mp last]
        exact own

section Threads
variable {α β : Type}

/- How far a thread comes on its own exchanges, whatever else goes on in between. -/
inductive Follows : Thread α → List Exchange → Thread α → Prop where
  | here (t : Thread α) : Follows t [] t
  | answered {c : Call} {next : c.Answer → Program α} {a : c.Answer} {rest t}
      (later : Follows (.ok (next a)) rest t) :
      Follows (.ok (.call c next)) (⟨c, .ok a⟩ :: rest) t
  | failed {c : Call} {next : c.Answer → Program α} {f : Failure} {rest t}
      (later : Follows (.error f) rest t) :
      Follows (.ok (.call c next)) (⟨c, .error f⟩ :: rest) t

def Thread.ended : Thread α → Bool
  | .ok (.call _ _) => false
  | _ => true

namespace Crowd

def event (c : Crowd α) (t : Turn) : Option Event :=
  match c.threads[t.thread]? with
  | some (.ok (.call call _)) => some ⟨⟨call, (c.world.perform t.now call).1⟩, t.thread, t.now⟩
  | _ => none

def events (c : Crowd α) : List Turn → List Event
  | [] => []
  | t :: rest => (c.event t).toList ++ (c.take t).events rest

theorem takeWorld (c : Crowd α) (t : Turn) :
    (c.take t).world = c.world.after (c.event t).toList := by
  unfold take event
  cases c.threads[t.thread]? with
  | none => rfl
  | some thread =>
    match thread with
    | .error f => rfl
    | .ok (.done a) => rfl
    | .ok (.call call next) =>
      simp only [Thread.step, Option.toList_some, World.after, World.upon, List.foldl_cons,
        List.foldl_nil]
      cases c.world.perform t.now call with
      | mk answer world => cases answer <;> rfl

theorem runWorld (c : Crowd α) (turns : List Turn) :
    (c.run turns).world = c.world.after (c.events turns) := by
  induction turns generalizing c with
  | nil => rfl
  | cons t rest ih =>
    change ((c.take t).run rest).world = _
    rw [ih, events, afterAppend, takeWorld]

theorem eventsLegal (c : Crowd α) (turns : List Turn) : Legal c.world (c.events turns) := by
  induction turns generalizing c with
  | nil => exact trivial
  | cons t rest ih =>
    refine legalAppend.mpr ⟨?_, by rw [← takeWorld]; exact ih _⟩
    unfold event
    split
    · exact ⟨rfl, trivial⟩
    · exact trivial

theorem eventExact {c : Crowd α} {t : Turn} {e : Event} (made : e ∈ (c.event t).toList) :
    e.thread = t.thread ∧ e.now = t.now ∧ t.thread < c.threads.length := by
  unfold event at made
  split at made
  · rename_i found
    rw [Option.toList_some, List.mem_singleton] at made
    subst e
    exact ⟨rfl, rfl, (List.getElem?_eq_some_iff.mp found).1⟩
  · simp at made

theorem eventElsewhere (c : Crowd α) {t : Turn} {i : Nat} (other : t.thread ≠ i) :
    past i (c.event t).toList = [] := by
  unfold event
  split
  · exact pastOther other []
  · rfl

theorem eventTurn {c : Crowd α} {turns : List Turn} {e : Event} (inside : e ∈ c.events turns) :
    ∃ t ∈ turns, e.thread = t.thread ∧ e.now = t.now := by
  induction turns generalizing c with
  | nil => simp [events] at inside
  | cons t rest ih =>
    rcases List.mem_append.mp inside with first | later
    · obtain ⟨thread, now, _⟩ := eventExact first
      exact ⟨t, List.mem_cons_self, thread, now⟩
    · obtain ⟨turn, member, same⟩ := ih later
      exact ⟨turn, List.mem_cons_of_mem _ member, same⟩

theorem takeLength (c : Crowd α) (t : Turn) : (c.take t).threads.length = c.threads.length := by
  unfold take
  cases c.threads[t.thread]? with
  | none => rfl
  | some thread => simp

theorem eventThread {c : Crowd α} {turns : List Turn} {e : Event} (inside : e ∈ c.events turns) :
    e.thread < c.threads.length := by
  induction turns generalizing c with
  | nil => simp [events] at inside
  | cons t rest ih =>
    rcases List.mem_append.mp inside with first | later
    · obtain ⟨thread, _, place⟩ := eventExact first
      rw [thread]
      exact place
    · rw [← takeLength c t]
      exact ih later

theorem takeThread {c : Crowd α} {i : Nat} {thread : Thread α} (found : c.threads[i]? = some thread)
    (t : Turn) : ∃ after, (c.take t).threads[i]? = some after ∧
      Follows thread (past i (c.event t).toList) after := by
  by_cases own : t.thread = i
  · subst i
    unfold take event
    have place : t.thread < c.threads.length := (List.getElem?_eq_some_iff.mp found).1
    rw [found]
    refine ⟨(Thread.step t.now c.world thread).1, by simp [place], ?_⟩
    match thread with
    | .error f => exact .here _
    | .ok (.done a) => exact .here _
    | .ok (.call call next) =>
      simp only [Option.toList_some, past, List.filter_cons, List.filter_nil, decide_true,
        ↓reduceIte, List.map_cons, List.map_nil, Thread.step]
      cases c.world.perform t.now call with
      | mk answer world =>
        cases answer with
        | ok a => exact .answered (.here _)
        | error f => exact .failed (.here _)
  · refine ⟨thread, ?_, ?_⟩
    · unfold take
      cases c.threads[t.thread]? with
      | none => exact found
      | some other => simpa [List.getElem?_set_ne own] using found
    · rw [eventElsewhere c own]
      exact .here _

theorem followsAppend {first middle last : Thread α} {xs ys : List Exchange}
    (before : Follows first xs middle) (after : Follows middle ys last) :
    Follows first (xs ++ ys) last := by
  induction before with
  | here => exact after
  | answered _ ih => exact .answered (ih after)
  | failed _ ih => exact .failed (ih after)

theorem runThread {c : Crowd α} {i : Nat} {thread : Thread α} (found : c.threads[i]? = some thread)
    (turns : List Turn) : ∃ after, (c.run turns).threads[i]? = some after ∧
      Follows thread (past i (c.events turns)) after := by
  induction turns generalizing c thread with
  | nil => exact ⟨thread, found, .here _⟩
  | cons t rest ih =>
    obtain ⟨middle, taken, first⟩ := takeThread found t
    obtain ⟨last, ran, later⟩ := ih taken
    refine ⟨last, ran, ?_⟩
    rw [events, pastAppend]
    exact followsAppend first later

end Crowd

end Threads

end AirPicture.Cache
