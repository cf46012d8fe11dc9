import AirPicture.Configuration.Document
import AirPicture.Configuration.Path
import AirPicture.Configuration.Sections
import AirPicture.Feed.Settings

/-! The configuration of the two programs: what a file says, where the environment does not
say otherwise, and defaults for the rest. A file whose name has no extension, or another
one, says nothing. The name of a variable is a mark of the program and a key, in any letter
case, with double underscores between the parts of the key. -/
namespace AirPicture.Configuration

inductive Format where
  | document
  | sections
  deriving DecidableEq, Repr

def extension (name : String) : Option String :=
  match (name.splitOn ".").reverse with
  | _ :: [] => none
  | _ :: [""] => none
  | last :: _ => some last
  | [] => none

def Format.ofName (name : String) : Option Format :=
  match extension name with
  | some "json" => some .document
  | some "toml" => some .sections
  | _ => none

def Format.read : Format → String → Option Table
  | .document, text => readDocument text
  | .sections, text => Sections.read text

def dotted : List Char → List Char
  | '_' :: '_' :: rest => '.' :: dotted rest
  | c :: rest => c :: dotted rest
  | [] => []

def variableKey (mark name : String) : Option String :=
  let start := (mark ++ "__").toList
  let name := (lowered name).toList
  if start.isPrefixOf name then some (String.ofList (dotted (name.drop start.length))) else none

def overlay (mark : String) (root : Setting) (name value : String) : Except Fault Setting :=
  match variableKey mark name with
  | some key => place (path key) (.text value) root
  | none => .ok root

/- The file first, then the environment; a file that does not exist says nothing. What they
leave is placed once more, since a key in small letters may be a path that it was not before. -/
def layers (mark : String) (file : Option (Format × String)) (environment : List (String × String)) :
    Except Fault Table := do
  let table ← match file with
    | none => .ok []
    | some (format, text) =>
      match format.read text with
      | some t => .ok t
      | none => .error .malformed
  let root ← placeAll table
  let root ← environment.foldlM (fun root v => overlay mark root v.1 v.2) root
  let root ← placeAll root.members
  pure root.members

def unsignedAt (t : Table) (key : String) (greatest usual : Nat) : Except Fault Nat :=
  match find t key with
  | none => .ok usual
  | some s => s.unsigned greatest

structure CacheConfiguration where
  ingestPort : Nat
  readPort : Nat
  lifeSeconds : Nat
  deriving DecidableEq, Repr

def CacheConfiguration.ofTable (t : Table) : Except Fault CacheConfiguration := do
  let ingestPort ← unsignedAt t "grpc_port" Feed.greatestPort 50051
  let readPort ← unsignedAt t "http_port" Feed.greatestPort 8888
  let lifeSeconds ← unsignedAt t "entry_ttl_secs" greatestWord 600
  pure ⟨ingestPort, readPort, lifeSeconds⟩

def CacheConfiguration.load (file : Option (Format × String))
    (environment : List (String × String)) : Except Fault CacheConfiguration := do
  let t ← layers "adsb_cache" file environment
  CacheConfiguration.ofTable t

def CacheConfiguration.life (c : CacheConfiguration) : Nat := 1000 * c.lifeSeconds

structure FeedConfiguration where
  links : List Feed.Entry
  reportSeconds : Nat
  deriving DecidableEq, Repr

def stringAt (s : Option Setting) : Except Fault String :=
  match s with
  | none => .ok ""
  | some s => s.string

def entryKeys : List String :=
  ["consumer_id", "station_name", "station_latitude", "station_longitude", "feed_host", "feed_port"]

def entryOf (s : Setting) : Except Fault Feed.Entry := do
  let found ← match s with
    | .table t => .ok (entryKeys.map (find t))
    | .list items => .ok ((List.range entryKeys.length).map fun n => items[n]?)
    | _ => .error .misshapen
  let texts ← found.mapM stringAt
  match texts with
  | [consumer, name, latitude, longitude, host, port] =>
    pure ⟨consumer, name, latitude, longitude, host, port⟩
  | _ => .error .misshapen

def FeedConfiguration.ofTable (t : Table) : Except Fault FeedConfiguration := do
  let links ← match find t "links" with
    | none => .ok []
    | some (.list items) => items.mapM entryOf
    | some _ => .error .misshapen
  let reportSeconds ← unsignedAt t "stats_interval_secs" greatestWord 10
  pure ⟨links, reportSeconds⟩

def FeedConfiguration.load (file : Option (Format × String))
    (environment : List (String × String)) : Except Fault FeedConfiguration := do
  let t ← layers "adsb_feed" file environment
  FeedConfiguration.ofTable t

end AirPicture.Configuration
