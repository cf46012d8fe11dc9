import Mathlib.Data.String.Basic
import AirPicture.Cache.Listing

/-! The current value under a key and the members of a set determine what can be seen of
the holdings. Each operation is described by what it does to these two. A look never
changes them: what it takes out had expired, and stays expired as the clock goes on. -/
namespace AirPicture.Cache

theorem Entry.liveBefore {e : Entry} {earlier later : Nat} (order : earlier ≤ later)
    (live : e.live later = true) : e.live earlier = true := by
  cases limit : e.expires with
  | none => simp [Entry.live, limit]
  | some instant =>
    have before : later < instant := by simpa [Entry.live, limit] using live
    have still : earlier < instant := by omega
    simpa [Entry.live, limit] using still

namespace Holdings

def current (h : Holdings) (now : Nat) (key : String) : Option String := (h.look now key).1

theorem currentEntry (h : Holdings) (now : Nat) (key : String) :
    h.current now key =
      (h.entries[key]?).bind fun e => if e.live now then some e.value else none := by
  unfold current look find
  cases h.entries[key]? with
  | none => rfl
  | some e => cases live : e.live now <;> simp [live]

theorem currentSome {h : Holdings} {now key value} :
    h.current now key = some value ↔
      ∃ e, h.entries[key]? = some e ∧ e.live now = true ∧ e.value = value := by
  rw [currentEntry]
  cases h.entries[key]? with
  | none => simp
  | some e => cases live : e.live now <;> simp [live]

theorem lookExact (h : Holdings) (now : Nat) (key : String) :
    h.look now key = (h.current now key, h.evict now key) := by
  unfold current look evict
  cases found : h.find now key <;> simp

theorem staleExact (h : Holdings) (now : Nat) (key : String) :
    h.find now key = .stale ↔
      ∃ e, h.entries[key]? = some e ∧ e.live now = false := by
  unfold find
  cases h.entries[key]? with
  | none => simp
  | some e => cases live : e.live now <;> simp [live]

theorem evictEntry (h : Holdings) (now : Nat) (key other : String) :
    (h.evict now key).entries[other]? =
      if key = other ∧ h.current now key = none then none else h.entries[other]? := by
  unfold evict
  split
  · rename_i stale
    obtain ⟨e, found, expired⟩ := (staleExact h now key).mp stale
    have gone : h.current now key = none := by simp [currentEntry, found, expired]
    by_cases same : key = other
    · subst other
      simp [gone]
    · simp [Std.ExtTreeMap.getElem?_erase, same]
  · rename_i kept
    split
    · rename_i absent
      obtain ⟨rfl, gone⟩ := absent
      cases found : h.entries[key]? with
      | none => rfl
      | some e =>
        have expired : e.live now = false := by
          cases live : e.live now
          · rfl
          · simp [currentEntry, found, live] at gone
        exact False.elim (kept ((staleExact h now key).mpr ⟨e, found, expired⟩))
    · rfl

theorem evictMembers (h : Holdings) (now : Nat) (key set : String) :
    (h.evict now key).members set = h.members set := by
  unfold evict
  split <;> rfl

theorem currentLater {h : Holdings} {earlier later key} (order : earlier ≤ later)
    (gone : h.current earlier key = none) : h.current later key = none := by
  cases found : h.current later key with
  | none => rfl
  | some value =>
    obtain ⟨e, entry, live, same⟩ := currentSome.mp found
    have shown := currentSome.mpr ⟨e, entry, Entry.liveBefore order live, same⟩
    rw [gone] at shown
    contradiction

theorem evictCurrent (h : Holdings) {now later : Nat} (order : now ≤ later) (key other : String) :
    (h.evict now key).current later other = h.current later other := by
  rw [currentEntry, evictEntry]
  split
  · rename_i absent
    obtain ⟨rfl, gone⟩ := absent
    exact (currentLater order gone).symm
  · rw [currentEntry]

theorem putEntry (h : Holdings) (key other : String) (e : Entry) :
    (h.put key e).entries[other]? = if key = other then some e else h.entries[other]? := by
  simp [put, Std.ExtTreeMap.getElem?_insert]

theorem expiryExact {now : Nat} {life instant : Option Nat} (limit : expiry now life = .ok instant) :
    instant = life.map (now + ·) := by
  unfold expiry at limit
  cases life with
  | none => exact (Except.ok.inj limit).symm
  | some life =>
    simp only at limit
    split at limit
    · contradiction
    · exact (Except.ok.inj limit).symm

theorem putCurrent (h : Holdings) (key other : String) (e : Entry) (now : Nat) :
    (h.put key e).current now other =
      if key = other then (if e.live now then some e.value else none) else h.current now other := by
  rw [currentEntry, putEntry]
  split
  · rfl
  · rw [currentEntry]

theorem addMembers (h : Holdings) (set member other key : String) :
    key ∈ (h.add set member).members other ↔
      (set = other ∧ member = key) ∨ key ∈ h.members other := by
  unfold add members
  rw [Std.ExtTreeMap.getElem?_insert]
  by_cases same : set = other
  · subst other
    simp
  · simp [same]

theorem removeMembers (h : Holdings) (set member other key : String) :
    key ∈ (h.remove set member).members other ↔
      key ∈ h.members other ∧ ¬ (set = other ∧ member = key) := by
  unfold remove members
  cases found : h.sets[set]? with
  | none =>
    by_cases same : set = other
    · subst other
      simp [found]
    · simp [same]
  | some kept =>
    simp only [Std.ExtTreeMap.getElem?_insert]
    by_cases same : set = other
    · subst other
      simp [found, and_comm]
    · simp [same]

theorem removeEntries (h : Holdings) (set member : String) :
    (h.remove set member).entries = h.entries := by
  unfold remove
  split <;> rfl

theorem removeCurrent (h : Holdings) (set member : String) (now : Nat) (key : String) :
    (h.remove set member).current now key = h.current now key := by
  rw [currentEntry, removeEntries, currentEntry]

theorem addCurrent (h : Holdings) (set member : String) (now : Nat) (key : String) :
    (h.add set member).current now key = h.current now key := by
  rw [currentEntry, currentEntry]
  rfl

theorem performMembers (now : Nat) (h : Holdings) (c : Call) (set key : String) :
    key ∈ (h.perform now c).2.members set ↔
      c = .add set key ∨ (c ≠ .remove set key ∧ key ∈ h.members set) := by
  cases c with
  | get other => simp [perform, lookExact, evictMembers]
  | has other => simp [perform, lookExact, evictMembers]
  | put other value life =>
    simp only [perform]
    cases expiry now life <;> simp [put, members]
  | add other member => simp [perform, addMembers]
  | remove other member => simp [perform, removeMembers, and_comm]
  | list other => simp [perform]

theorem orderedMembers (h : Holdings) (set : String) : (h.members set).toList.Pairwise (· < ·) :=
  (Std.ExtTreeSet.ordered_toList).imp compare_lt_iff_lt.mp

end Holdings

end AirPicture.Cache
