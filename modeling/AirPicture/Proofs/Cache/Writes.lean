import AirPicture.Proofs.Cache.Holdings

/-! Which writes can be exchanged and which are spent. A value that is put under a key again leaves
nothing of the first, a member that is added again is there already, and writes under different
keys or in different sets can be made in either order. -/
namespace AirPicture.Cache

section Maps
variable {V : Type} (m : Std.ExtTreeMap String V)

theorem insertTwice (key : String) (a b : V) : (m.insert key a).insert key b = m.insert key b := by
  refine Std.ExtTreeMap.ext_getElem? fun other => ?_
  simp only [Std.ExtTreeMap.getElem?_insert]
  split <;> rfl

theorem insertHeld {key : String} {a : V} (held : m[key]? = some a) : m.insert key a = m := by
  refine Std.ExtTreeMap.ext_getElem? fun other => ?_
  simp only [Std.ExtTreeMap.getElem?_insert, Std.LawfulEqCmp.compare_eq_iff_eq]
  split
  · rename_i same
    rw [← same, held]
  · rfl

theorem insertExchange {key other : String} (apart : key ≠ other) (a b : V) :
    (m.insert key a).insert other b = (m.insert other b).insert key a := by
  refine Std.ExtTreeMap.ext_getElem? fun name => ?_
  simp only [Std.ExtTreeMap.getElem?_insert, Std.LawfulEqCmp.compare_eq_iff_eq]
  by_cases first : key = name
  · have second : other ≠ name := fun same => apart (first.trans same.symm)
    simp [first, second]
  · simp [first]

end Maps

namespace Holdings
variable (h : Holdings)

theorem sameHoldings {g : Holdings} (entries : ∀ key : String, h.entries[key]? = g.entries[key]?)
    (sets : ∀ set : String, h.sets[set]? = g.sets[set]?) : h = g := by
  obtain ⟨_, _⟩ := h
  obtain ⟨_, _⟩ := g
  cases Std.ExtTreeMap.ext_getElem? entries
  cases Std.ExtTreeMap.ext_getElem? sets
  rfl

theorem addSets (set member other : String) :
    (h.add set member).sets[other]? =
      if set = other then some ((h.members set).insert member) else h.sets[other]? := by
  simp [add, Std.ExtTreeMap.getElem?_insert]

theorem addOthers {set other : String} (apart : set ≠ other) (member : String) :
    (h.add set member).members other = h.members other := by
  unfold members
  rw [addSets, if_neg apart]

theorem addOwn (set member : String) :
    (h.add set member).members set = (h.members set).insert member := by
  rw [members, addSets, if_pos rfl, Option.getD_some]

theorem putTwice (key : String) (e f : Entry) : (h.put key e).put key f = h.put key f := by
  unfold put
  rw [insertTwice]

theorem putExchange {key other : String} (apart : key ≠ other) (e f : Entry) :
    (h.put key e).put other f = (h.put other f).put key e := by
  unfold put
  rw [insertExchange _ apart]

theorem addPut (set member key : String) (e : Entry) :
    (h.add set member).put key e = (h.put key e).add set member := rfl

theorem addTwice (set member : String) : (h.add set member).add set member = h.add set member := by
  refine sameHoldings _ (fun _ => rfl) fun other => ?_
  simp only [addSets, addOwn]
  split
  · exact congrArg some (Std.ExtTreeSet.ext_mem fun key => by simp)
  · rfl

theorem addExchange (set member other name : String) :
    (h.add set member).add other name = (h.add other name).add set member := by
  refine sameHoldings _ (fun _ => rfl) fun which => ?_
  by_cases same : set = other
  · subst other
    simp only [addSets, addOwn]
    split
    · refine congrArg some (Std.ExtTreeSet.ext_mem fun key => ?_)
      simp [or_left_comm]
    · rfl
  · simp only [addSets, h.addOthers same, h.addOthers (Ne.symm same)]
    by_cases first : set = which
    · have second : other ≠ which := fun equal => same (first.trans equal.symm)
      simp [first, second]
    · simp [first]

end Holdings

end AirPicture.Cache
