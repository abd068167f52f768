import ShaderBuild.Cache.Record
import ShaderBuild.Json.Printer
import ShaderBuild.Json.Reader
import ShaderBuild.Session

/-!
# Cache files

A cache is kept as a JSON object from keys, in decimal, to records. Reading is stricter than JSON:
a key is spelled with digits alone, a record has each of its fields exactly once, in an object or
in order in an array, and numbers are in range. Unknown fields of a record are passed over, those
of a moment are not.

Main definitions: `encode`, `decode`, `load`, `save`.
-/

namespace ShaderBuild

/-! ## Fields -/

namespace Json

/-- The members of an object as texts and values. -/
def fields? : Json → Option (List (String × Json))
  | .object ms => ms.mapM fun (k, j) => (unescape k).map fun t => (String.ofList t, j)
  | _ => none

/-- The only value of a field. -/
def field? (name : String) (fields : List (String × Json)) : Option Json :=
  match fields.filter (·.1 == name) with
  | [(_, j)] => some j
  | _ => none

end Json

/-! ## Writing -/

namespace Timestamp

/-- The written form of a moment; there is none before the epoch. -/
def encode (t : Timestamp) : Except IoFault Json :=
  match t.seconds with
  | .ofNat s => .ok (.object [
      ("secs_since_epoch".toList, .ofNat s),
      ("nanos_since_epoch".toList, .ofNat t.nanoseconds)])
  | .negSucc _ => .error .timeBeforeEpoch

/-- The nanoseconds in a second. -/
abbrev nanosecondsPerSecond : Nat := 1000000000

/-- The first number of seconds that a moment cannot hold. -/
abbrev secondsLimit : Nat := 9223372036854775808

/-- The moment so many seconds and nanoseconds after the epoch, within 64 bits. Nanoseconds that
make up whole seconds are carried. -/
def ofCounts? (seconds nanoseconds : Nat) : Option Timestamp :=
  let total := seconds + nanoseconds / nanosecondsPerSecond
  if total < secondsLimit then some ⟨Int.ofNat total, nanoseconds % nanosecondsPerSecond⟩
  else none

/-- The two counts of a moment. -/
def counts? (j : Json) : Option (Json × Json) :=
  match j with
  | .array [s, n] => some (s, n)
  | _ => do
    let fields ← j.fields?
    if fields.all fun f => f.1 == "secs_since_epoch" || f.1 == "nanos_since_epoch" then
      return (← Json.field? "secs_since_epoch" fields, ← Json.field? "nanos_since_epoch" fields)
    else none

/-- Reads a moment. -/
def decode (j : Json) : Option Timestamp := do
  let (secs, nanos) ← counts? j
  ofCounts? (← secs.nat? UInt64.size) (← nanos.nat? UInt32.size)

end Timestamp

namespace CacheRecord

/-- The written form of a record. -/
def encode (r : CacheRecord) : Except IoFault Json := do
  return .object [
    ("path_hash".toList, .ofNat r.identity.toNat),
    ("full_path".toList, .ofString r.path.text),
    ("modified".toList, ← r.modified.encode),
    ("did_compile".toList, .boolean r.didCompile),
    ("outputs".toList, .array (r.outputs.map fun o => .ofString o.text))]

/-- Reads the five fields of a record. -/
def ofFields? (identity path modified didCompile outputs : Json) : Option CacheRecord := do
  return {
    identity := UInt32.ofNat (← identity.nat? UInt32.size)
    path := ⟨← path.text?⟩
    modified := ← Timestamp.decode modified
    didCompile := ← didCompile.boolean?
    outputs := (← (← outputs.items?).mapM Json.text?).map Path.mk }

/-- Reads a record. -/
def decode (j : Json) : Option CacheRecord :=
  match j with
  | .array [i, p, m, d, o] => ofFields? i p m d o
  | _ => do
    let fields ← j.fields?
    ofFields? (← Json.field? "path_hash" fields) (← Json.field? "full_path" fields)
      (← Json.field? "modified" fields) (← Json.field? "did_compile" fields)
      (← Json.field? "outputs" fields)

end CacheRecord

namespace BuildCache

/-- The written form of a cache. -/
def encode (c : BuildCache) : Except IoFault Json := do
  let members ← c.records.mapM fun (key, r) =>
    return (Json.digits key.toNat, ← r.encode)
  return .object members

/-- Reads the records of a cache; of two under one key the later counts. -/
def decode : Json → Option BuildCache
  | .object ms =>
    ms.foldlM (fun c (key, j) => do
      let key ← Json.ofDigits? UInt32.size key
      return c.insert (UInt32.ofNat key) (← CacheRecord.decode j)) .empty
  | _ => none

/-- Reads the text of a cache file. -/
def ofText? (text : List Char) : Option BuildCache := (Json.parse text).bind decode

/-! ## Files -/

/-- Reads the cache file at a path. Without one, or when it cannot be read, nothing is
remembered. -/
def load (p : Path) : Action BuildCache := do
  match (← Action.tree).readText p with
  | .error .notFound =>
    Action.tell (.noCache p)
    return .empty
  | .error fault =>
    Action.tell (.discardedCache p fault.message)
    return .empty
  | .ok text =>
    match ofText? text with
    | some c => return c
    | none =>
      Action.tell (.discardedCache p "corrupt cache")
      return .empty

/-- Writes the cache file at a path, and makes its folder. -/
def save (c : BuildCache) (p : Path) : Action Unit := do
  match p.parent? with
  | some folder => Action.changeAt folder (·.makeFolders folder)
  | none => pure ()
  match c.encode with
  | .error fault => throw (.io p fault)
  | .ok j => Action.changeAt p (·.writeText p j.pretty)

end BuildCache

end ShaderBuild
