import AirPicture.Configuration.Layers
import AirPicture.Proofs.Cache.Taking
import AirPicture.Proofs.Decimal.Numerals

/-! For how long features are kept is configured in seconds, as any number of 64 bits. The clock
names instants up to a last second only, and what is configured is not compared with it: a life
that reaches beyond is loaded, and then nothing is taken in. The clock is read for each of the two
features, so that it may run out between them. -/
namespace AirPicture.Configuration
open Cache (Holdings Room Tallies Watched World Writing taking vet)
open Decimal (figures isFigure)

section Loading
variable {file : Option (Format × String)} {environment : List (String × String)}
  {c : CacheConfiguration}

theorem unsignedBound {s : Setting} {greatest n : Nat} (read : s.unsigned greatest = .ok n) :
    n ≤ greatest := by
  unfold Setting.unsigned at read
  split at read
  · split at read
    · rename_i small
      cases read
      exact small
    · contradiction
  · contradiction

theorem unsignedAtBound {t : Table} {key : String} {greatest usual n : Nat}
    (small : usual ≤ greatest) (read : unsignedAt t key greatest usual = .ok n) :
    n ≤ greatest := by
  unfold unsignedAt at read
  split at read
  · cases read
    exact small
  · exact unsignedBound read

theorem loadedBound (loaded : CacheConfiguration.load file environment = .ok c) :
    c.lifeSeconds ≤ greatestWord := by
  simp only [CacheConfiguration.load, CacheConfiguration.ofTable, bind, Except.bind, pure,
    Except.pure] at loaded
  repeat' split at loaded
  all_goals first | contradiction | skip
  rename_i read
  cases loaded
  exact unsignedAtBound (by decide) read

theorem figuresUnsaid (n : Nat) {word : String} (first : word.toList.head?.any isFigure = false) :
    (figures n).map Char.toLower ≠ word.toList := by
  intro same
  obtain ⟨c, rest, shown⟩ := List.exists_cons_of_ne_nil (Decimal.figuresShown n)
  have figure : isFigure c = true := Decimal.figuresKnown n c (by simp [shown])
  rw [shown, List.map_cons, Decimal.figureSmall figure] at same
  rw [← same] at first
  simp [figure] at first

theorem figuresWord {n : Nat} (small : n ≤ greatestWord) :
    wordOfText (String.ofList (figures n)) = some n := by
  unfold wordOfText
  rw [String.toList_ofList]
  rw [if_neg, if_neg, Decimal.wholeRead (Decimal.figuresWhole small)]
  · rfl
  · rintro (said | said | said) <;> exact figuresUnsaid n (by decide) said
  · rintro (said | said | said) <;> exact figuresUnsaid n (by decide) said

theorem lifePlaced (text : String) : place (path "entry_ttl_secs") (.text text) (.table []) =
    .ok (.table [("entry_ttl_secs", .text text)]) := by
  have name : path "entry_ttl_secs" = [.name "entry_ttl_secs"] := by decide +kernel
  have kept : lowered "entry_ttl_secs" = "entry_ttl_secs" := by decide +kernel
  simp only [name, place, store, Setting.members, assign, kept]

theorem lifeLoaded {n : Nat} (small : n ≤ greatestWord) : CacheConfiguration.load none
    [("ADSB_CACHE__ENTRY_TTL_SECS", String.ofList (figures n))] = .ok ⟨50051, 8888, n⟩ := by
  have key : variableKey "adsb_cache" "ADSB_CACHE__ENTRY_TTL_SECS" = some "entry_ttl_secs" := by
    decide +kernel
  have overlaid (text : String) : overlay "adsb_cache" (.table []) "ADSB_CACHE__ENTRY_TTL_SECS"
      text = .ok (.table [("entry_ttl_secs", .text text)]) := by
    simp only [overlay, key, lifePlaced]
  have table : layers "adsb_cache" none
      [("ADSB_CACHE__ENTRY_TTL_SECS", String.ofList (figures n))] =
        .ok [("entry_ttl_secs", .text (String.ofList (figures n)))] := by
    simp [layers, placeAll, overlaid, lifePlaced, Setting.members, bind, Except.bind, pure,
      Except.pure]
  have seconds : unsignedAt [("entry_ttl_secs", .text (String.ofList (figures n)))]
      "entry_ttl_secs" greatestWord 600 = .ok n := by
    simp [unsignedAt, find, Setting.unsigned, Setting.word, figuresWord small, small]
  simp only [CacheConfiguration.load, table, CacheConfiguration.ofTable, seconds, bind,
    Except.bind]
  rfl

end Loading

section Intake
variable {c : CacheConfiguration} {o : Observation} {s : Station}

theorem lifeRoom (c : CacheConfiguration) (now : Nat) :
    Room now c.life ↔ now / 1000 + c.lifeSeconds < Holdings.lastSecond := by
  rw [Room, CacheConfiguration.life, Nat.add_mul_div_left _ _ (by decide)]

theorem lifeLate (c : CacheConfiguration) (now : Nat) :
    ¬ Room now c.life ↔ Holdings.lastSecond ≤ now / 1000 + c.lifeSeconds := by
  rw [lifeRoom, Nat.not_lt]

/-- As long as the clock can name both instants of expiry, an observation is taken in whole under
whatever was loaded, and acknowledged unless a text stands in place of its count. From then on, as
nothing bounds the seconds but their 64 bits, a sum overflows: before anything is kept, or after
the aircraft's feature where the clock runs out between the two. -/
theorem intakeEnds {file : Option (Format × String)} {environment : List (String × String)}
    (loaded : CacheConfiguration.load file environment = .ok c) (vetted : vet o = .ok s)
    (clock : Nat → Nat) (w : World) :
    c.lifeSeconds ≤ greatestWord ∧
    ((∀ n < 2, clock n / 1000 + c.lifeSeconds < Holdings.lastSecond) → ∃ answer tallies,
      taking clock c.life o w =
        (answer, ⟨⟨Writing.written c.life ⟨o, s, clock, Watched.noFault⟩ w.holdings, tallies⟩,
          Writing.calls c.life ⟨o, s, clock, Watched.noFault⟩⟩) ∧
      ((∃ n, answer = .ok ⟨true, n⟩) ∨
        ¬ w.tallies.Numeric ∧ answer = .error (.failed (.notNumeric "observations")))) ∧
    (Holdings.lastSecond ≤ clock 0 / 1000 + c.lifeSeconds →
      taking clock c.life o w = (.error (.failed .expiry), ⟨w, []⟩)) ∧
    (clock 0 / 1000 + c.lifeSeconds < Holdings.lastSecond →
      Holdings.lastSecond ≤ clock 1 / 1000 + c.lifeSeconds →
      taking clock c.life o w = (.error (.failed .expiry),
        ⟨⟨w.holdings.put o.icao ⟨Cache.contactFeature o, some (clock 0 + c.life)⟩, w.tallies⟩,
          [.put o.icao (Cache.contactFeature o) (some c.life)]⟩)) := by
  refine ⟨loadedBound loaded, fun early => ?_, fun late => ?_, fun early late => ?_⟩
  · exact Cache.takingKept vetted (fun n put => (lifeRoom c _).mpr (early n put)) w
  · exact Cache.takingLate vetted (by decide) ((lifeLate c _).mpr late) (by simp) w
  · have room : Room (clock 0) c.life := (lifeRoom c _).mpr early
    have sound : Cache.Program.meets clock Watched.noFault 0
        (.put o.icao (Cache.contactFeature o) (some c.life)) = none :=
      Cache.soundFailure (a := ⟨o, s, clock, Watched.noFault⟩) rfl fun _ => room
    rw [Cache.takingLate vetted (n := 1) (by decide) ((lifeLate c _).mpr late) (by simp [room]) w]
    simp only [Writing.calls, List.take, Holdings.through, Cache.putWritten sound]

def lasting (seconds : Nat) : List (String × String) :=
  [("ADSB_CACHE__ENTRY_TTL_SECS", String.ofList (figures seconds))]

def usual : Writing := ⟨Cache.overHarbour "A00001" 9000, Cache.harbour, id, Watched.noFault⟩

theorem lastingTaken :
    CacheConfiguration.load none (lasting 600) = .ok ⟨50051, 8888, 600⟩ ∧
    vet (Cache.overHarbour "A00001" 9000) = .ok Cache.harbour ∧
    ∃ n tallies, taking id 600000 (Cache.overHarbour "A00001" 9000) .empty =
      (.ok ⟨true, n⟩, ⟨⟨Writing.written 600000 usual .empty, tallies⟩,
        Writing.calls 600000 usual⟩) := by
  have loaded : CacheConfiguration.load none (lasting 600) = .ok ⟨50051, 8888, 600⟩ :=
    lifeLoaded (by decide)
  have vetted : vet (Cache.overHarbour "A00001" 9000) = .ok Cache.harbour := rfl
  obtain ⟨_, taken, _⟩ := intakeEnds loaded vetted id .empty
  obtain ⟨answer, tallies, received, ⟨n, rfl⟩ | ⟨texted, _⟩⟩ := taken (by decide)
  · exact ⟨loaded, vetted, n, tallies, received⟩
  · exact absurd Tallies.emptyNumeric texted

def endless : CacheConfiguration := ⟨50051, 8888, greatestWord⟩

theorem endlessOverflows :
    CacheConfiguration.load none (lasting greatestWord) = .ok endless ∧
    vet (Cache.overHarbour "A00001" 9000) = .ok Cache.harbour ∧
    taking id endless.life (Cache.overHarbour "A00001" 9000) .empty =
      (.error (.failed .expiry), ⟨.empty, []⟩) := by
  have late : ¬ Room 0 endless.life := (lifeLate endless 0).mpr (by decide)
  refine ⟨lifeLoaded (Nat.le_refl _), rfl, ?_⟩
  exact Cache.takingLate (n := 0) rfl (by decide) late (by simp) .empty

end Intake

end AirPicture.Configuration
