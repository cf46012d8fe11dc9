import AirPicture.Proofs.Cache.Operation

/-! What the operations render. Only writers put anything, and everything for the same time; a
writer that succeeds has put a value under each of its keys. A read that succeeds returns
what it got, and leaves out no key of its index but one that it missed. -/
namespace AirPicture.Cache

def Missed (past : List Exchange) (key : String) : Prop := ∃ x ∈ past, x.Misses key

theorem missedLater {past later : List Exchange} {key : String} (grown : past <+: later)
    (missed : Missed past key) : Missed later key := by
  obtain ⟨x, inside, misses⟩ := missed
  exact ⟨x, grown.subset inside, misses⟩

theorem missedLast (past : List Exchange) {x : Exchange} {key : String} (misses : x.Misses key) :
    Missed (past ++ [x]) key :=
  ⟨x, List.mem_append_right _ (List.mem_singleton_self x), misses⟩

def Complete (c : Category) (past : List Exchange) (l : List (String × String)) : Prop :=
  ∃ keys, (⟨.holdings (.list c.index), .ok keys⟩ : Exchange) ∈ past ∧
    ∀ key ∈ keys, (∃ feature, (key, feature) ∈ l) ∨ Missed past key

def Rendered (c : Category) (past : List Exchange) (l : List (String × String)) : Prop :=
  (∀ entry ∈ l, Got past entry) ∧ Complete c past l

theorem renderedLater {c : Category} {past later : List Exchange} {l : List (String × String)}
    (grown : past <+: later) (rendered : Rendered c past l) : Rendered c later l := by
  obtain ⟨got, keys, listed, complete⟩ := rendered
  refine ⟨fun entry inside => gotLater grown (got entry inside), keys, grown.subset listed, ?_⟩
  exact fun key inside => (complete key inside).imp_right (missedLater grown)

namespace Operation

def Puts (life : Nat) (op : Operation) (_ : List Exchange) (c : Call) : Prop :=
  ∀ key value limit, c = .holdings (.put key value limit) → op.reads = false ∧ limit = some life

def Renders (life : Nat) (op : Operation) (past : List Exchange) (reply : Reply) : Prop :=
  match op with
  | .record _ _ | .observe _ => ∀ c key, op.enters c = some key →
    ∃ value, Asked past (.holdings (.put key value (some life)))
  | .list c => ∃ l, reply = .entries l ∧ Rendered c past l
  | .collect => ∃ contacts stations : List (String × String),
    reply = .features (contacts.map Prod.snd ++ stations.map Prod.snd) ∧
      Rendered .contacts past contacts ∧ Rendered .stations past stations

section Reading
variable {life : Nat} {op : Operation} (counted : Bool) (c : Category)

theorem pruneComplete (key : String) (past : List Exchange) :
    (prune counted c key).Obeys (op.Puts life) (fun _ _ => True) past := by
  refine Program.obeysCall (by simp [Puts]) fun _ => ?_
  split
  · exact Program.obeysCall (by simp [Puts]) fun _ => trivial
  · exact trivial

theorem liveKeysComplete (keys : List String) (past : List Exchange) :
    (liveKeys counted c keys).Obeys (op.Puts life)
      (fun later live => ∀ key ∈ keys, key ∈ live ∨ Missed later key) past := by
  induction keys generalizing past with
  | nil => exact fun key inside => by simp at inside
  | cons key rest ih =>
    refine Program.obeysCall (by simp [Puts]) fun found => ?_
    cases found with
    | false =>
      refine Program.obeysBind _ (pruneComplete counted c key _) fun middle _ grown _ => ?_
      refine Program.obeysMono ?_ (Program.obeysExtends (ih middle))
      rintro later live ⟨further, complete⟩ other inside
      rcases List.mem_cons.mp inside with rfl | inside
      · exact .inr (missedLater (grown.trans further) (missedLast past (.inl rfl)))
      · exact complete other inside
    | true =>
      refine Program.obeysBind _ (ih _) fun later live _ complete other inside => ?_
      rcases List.mem_cons.mp inside with rfl | inside
      · exact .inl List.mem_cons_self
      · exact (complete other inside).imp_left (List.mem_cons_of_mem key)

theorem featuresComplete (keys : List String) (past : List Exchange) :
    (features counted c keys).Obeys (op.Puts life)
      (fun later l => ∀ key ∈ keys, (∃ feature, (key, feature) ∈ l) ∨ Missed later key) past := by
  induction keys generalizing past with
  | nil => exact fun key inside => by simp at inside
  | cons key rest ih =>
    refine Program.obeysCall (by simp [Puts]) fun found => ?_
    cases found with
    | none =>
      refine Program.obeysBind _ (pruneComplete counted c key _) fun middle _ grown _ => ?_
      refine Program.obeysMono ?_ (Program.obeysExtends (ih middle))
      rintro later l ⟨further, complete⟩ other inside
      rcases List.mem_cons.mp inside with rfl | inside
      · exact .inr (missedLater (grown.trans further) (missedLast past (.inr rfl)))
      · exact complete other inside
    | some feature =>
      refine Program.obeysBind _ (ih _) fun later l _ complete other inside => ?_
      rcases List.mem_cons.mp inside with rfl | inside
      · exact .inl ⟨feature, List.mem_cons_self⟩
      · refine (complete other inside).imp_left ?_
        rintro ⟨value, held⟩
        exact ⟨value, List.mem_cons_of_mem _ held⟩

theorem listingComplete (past : List Exchange) :
    (listing counted c).Obeys (op.Puts life) (Complete c) past := by
  refine Program.obeysCall (by simp [Puts]) fun keys => ?_
  refine Program.obeysBind _ (Program.obeysExtends (liveKeysComplete counted c keys _))
    fun middle live _ found => ?_
  refine Program.obeysMono ?_ (Program.obeysExtends (featuresComplete counted c live middle))
  rintro later l ⟨grown, complete⟩
  refine ⟨keys, (found.1.trans grown).subset (List.mem_append_right _ (List.mem_singleton_self _)), ?_⟩
  intro key inside
  rcases found.2 key inside with live | missed
  · exact complete key live
  · exact .inr (missedLater grown missed)

theorem listingRendered (reads : op.reads = true) (past : List Exchange) :
    (listing counted c).Obeys (op.Puts life) (Rendered c) past :=
  Program.obeysRule (fun _ _ => And.right)
    (Program.obeysAnd (listingObeys reads counted c past) (listingComplete counted c past))

end Reading

theorem keepPuts {op : Operation} (writes : op.reads = false) (life : Nat) (o : Observation)
    (s : Station) (past : List Exchange) :
    (keep life o s).Obeys (op.Puts life) (fun later _ =>
      Asked later (.holdings (.put o.icao (contactFeature o) (some life))) ∧
      Asked later (.holdings (.put s.id (stationFeature s) (some life)))) past := by
  refine Program.obeysCall (by simp [Puts, writes]) fun _ => ?_
  refine Program.obeysCall (by simp [Puts, writes]) fun _ => ?_
  refine Program.obeysCall (by simp [Puts]) fun _ => ?_
  refine Program.obeysCall (by simp [Puts]) fun _ => ?_
  exact ⟨⟨⟨.holdings (.put o.icao (contactFeature o) (some life)), .ok ()⟩, by simp, rfl⟩,
    ⟨⟨.holdings (.put s.id (stationFeature s) (some life)), .ok ()⟩, by simp, rfl⟩⟩

theorem countPuts {op : Operation} (life : Nat) (s : Station) (past : List Exchange) :
    (count s).Obeys (op.Puts life) (fun _ _ => True) past := by
  refine Program.obeysCall (by simp [Puts]) fun fresh => ?_
  cases fresh with
  | false => exact ⟨by simp [Puts], fun _ => trivial⟩
  | true => exact Program.obeysCall (by simp [Puts]) fun _ => ⟨by simp [Puts], fun _ => trivial⟩

theorem programRenders (life : Nat) (counted : Bool) (op : Operation) :
    (op.program life counted).Obeys (op.Puts life) (op.Renders life) [] := by
  cases op with
  | record o s =>
    refine Program.obeysBind _ (keepPuts rfl life o s []) fun later _ _ put => ?_
    intro c key entered
    cases c with
    | contacts => cases entered; exact ⟨_, put.1⟩
    | stations => cases entered; exact ⟨_, put.2⟩
  | observe o =>
    cases vetted : vet o with
    | error refusal =>
      simp only [program, vetted]
      intro c key entered
      simp [enters, vetted, Except.toOption] at entered
    | ok s =>
      rw [observeBegun life counted vetted]
      have taken : (intake life o s).Obeys ((observe o).Puts life) (fun later _ =>
          Asked later (.holdings (.put o.icao (contactFeature o) (some life))) ∧
          Asked later (.holdings (.put s.id (stationFeature s) (some life)))) [] :=
        Program.obeysBind _ (keepPuts rfl life o s []) fun later _ _ put =>
          Program.obeysMono (fun last _ both => ⟨askedLater both.1 put.1, askedLater both.1 put.2⟩)
            (Program.obeysExtends (countPuts life s later))
      refine Program.obeysBind _ taken fun later n _ put => ?_
      intro c key entered
      simp only [enters, vetted, Except.toOption, Option.map_some, Option.some.injEq] at entered
      cases c with
      | contacts => cases entered; exact ⟨_, put.1⟩
      | stations => cases entered; exact ⟨_, put.2⟩
  | list c =>
    exact Program.obeysBind _ (listingRendered counted c rfl []) fun _ l _ rendered =>
      ⟨l, rfl, rendered⟩
  | collect =>
    have both : (collection counted).Obeys (collect.Puts life) (fun past l =>
        ∃ contacts stations : List (String × String),
          l = contacts.map Prod.snd ++ stations.map Prod.snd ∧
            Rendered .contacts past contacts ∧ Rendered .stations past stations) [] := by
      refine Program.obeysBind _ (listingRendered counted .contacts rfl [])
        fun middle contacts _ first => ?_
      refine Program.obeysBind _ (listingRendered counted .stations rfl middle)
        fun later stations grown second => ?_
      exact ⟨contacts, stations, rfl, renderedLater grown first, second⟩
    refine Program.obeysBind _ both fun past l _ rendered => ?_
    obtain ⟨contacts, stations, same, views⟩ := rendered
    exact ⟨contacts, stations, by rw [same], views⟩

end Operation

end AirPicture.Cache
