import AirPicture.Cache.Intake

/-! Listing what is live. A listing asks the index of its category, first which of its keys
still have a feature and then for the features. Keys without one leave the index, and with
a station goes what was counted for it: reading is the only way in which indexes shrink. -/
namespace AirPicture.Cache

/- `counted` says whether stations have tallies to be dropped. -/
def prune (counted : Bool) (category : Category) (key : String) : Program Unit := do
  let _ ← Program.ofHoldings (.remove category.index key)
  if counted ∧ category = .stations then
    let _ ← Program.ofTallies (.drop key)

def liveKeys (counted : Bool) (category : Category) : List String → Program (List String)
  | [] => pure []
  | key :: rest => do
    if ← Program.ofHoldings (.has key) then
      let live ← liveKeys counted category rest
      pure (key :: live)
    else
      prune counted category key
      liveKeys counted category rest

def features (counted : Bool) (category : Category) :
    List String → Program (List (String × String))
  | [] => pure []
  | key :: rest => do
    match ← Program.ofHoldings (.get key) with
    | some feature =>
      let later ← features counted category rest
      pure ((key, feature) :: later)
    | none =>
      prune counted category key
      features counted category rest

def listing (counted : Bool) (category : Category) : Program (List (String × String)) := do
  let keys ← Program.ofHoldings (.list category.index)
  let live ← liveKeys counted category keys
  features counted category live

def collection (counted : Bool) : Program (List String) := do
  let contacts ← listing counted .contacts
  let stations ← listing counted .stations
  pure (contacts.map Prod.snd ++ stations.map Prod.snd)

end AirPicture.Cache
