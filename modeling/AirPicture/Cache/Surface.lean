import AirPicture.Json.Reader
import AirPicture.Cache.Listing
import AirPicture.Cache.Request

/-! The read surface. Three paths answer a reading request with a listing as JSON; cached
features stand in it as they were kept, once they are seen to be JSON. Everything else is
not found, apart from requests that ask what is allowed, which are answered on any path. -/
namespace AirPicture.Cache
open Json (Value)

structure Response where
  status : Nat
  headers : List (String × String)
  body : String
  deriving DecidableEq, Repr

inductive Resource where
  | entries (category : Category)
  | merged
  deriving DecidableEq, Repr

def resource (address : String) : Option Resource :=
  let path := Address.path address.toList
  if path = "/contacts".toList then some (.entries .contacts)
  else if path = "/stations".toList then some (.entries .stations)
  else if path = "/geojson".toList then some .merged
  else none

def anyOrigin : List (String × String) := [("access-control-allow-origin", "*")]

def asJson : List (String × String) := ("content-type", "application/json") :: anyOrigin

def allowed : List (String × String) := [("allow", "GET,HEAD")]

def errorBody (message : String) : String :=
  String.ofList (Value.object [("error", .text message)]).write

def notFound (headers : List (String × String)) : Response :=
  ⟨404, headers ++ asJson, errorBody "invalid request"⟩

def preflight (headers : List (String × String)) : Response :=
  ⟨200, headers ++ [("access-control-allow-methods", "GET"), ("access-control-allow-headers", "*")]
    ++ anyOrigin, ""⟩

inductive ReadFault where
  | failed (f : Failure)
  | feature (f : Json.Fault)
  deriving DecidableEq, Repr

def ReadFault.message : ReadFault → String
  | .failed f => f.message
  | .feature f => "stored feature is not valid JSON: " ++ f.message

def checked (feature : String) : Except ReadFault (List Char) :=
  match Json.read feature.toList with
  | .ok _ => .ok (Json.trimmed feature.toList)
  | .error f => .error (.feature f)

def checkedEntry (entry : String × String) : Except ReadFault (String × List Char) :=
  (checked entry.2).map fun feature => (entry.1, feature)

def listingBody (category : Category) (entries : List (String × String)) :
    Except ReadFault String := do
  let entries ← entries.mapM checkedEntry
  pure (String.ofList (Json.writeObject [(category.index, Json.writeObject entries)]))

def collectionBody (features : List String) : Except ReadFault String := do
  let features ← features.mapM checked
  pure (String.ofList (Json.writeObject [
    ("type", Json.writeText "FeatureCollection"),
    ("features", Json.writeArray features)]))

def Resource.body (counted : Bool) : Resource → Program (Except ReadFault String)
  | .entries category => do
    let entries ← listing counted category
    pure (listingBody category entries)
  | .merged => do
    let features ← collection counted
    pure (collectionBody features)

def answered : Except Failure (Except ReadFault String) → Response
  | .ok (.ok body) => ⟨200, asJson, body⟩
  | .ok (.error fault) => ⟨500, asJson, errorBody fault.message⟩
  | .error f => ⟨500, asJson, errorBody (ReadFault.failed f).message⟩

def respond {σ : Type} (run : Runner σ) (counted : Bool) (r : Request) (s : σ) : Response × σ :=
  match resource r.address with
  | none => (if r.method = "OPTIONS" then preflight [] else notFound [], s)
  | some resource =>
    if r.method = "GET" then
      let (result, s) := run (resource.body counted) s
      (answered result, s)
    else if r.method = "HEAD" then ({ notFound [] with body := "" }, s)
    else (if r.method = "OPTIONS" then preflight allowed else notFound allowed, s)

end AirPicture.Cache
