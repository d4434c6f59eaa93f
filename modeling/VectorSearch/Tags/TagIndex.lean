import VectorSearch.Count
import VectorSearch.Embedding
import VectorSearch.Failure
import VectorSearch.Tags.TagList
/-!
The table of tags: for every tag the vectors that carry it, in the order in which they were tagged.
The table is hashed into chains; it doubles its chains when there would be more than three tags in
use for four chains. The hash is a parameter: every answer is the same whatever it is. The tag index
is the table under a hash that depends on the order of key and value.
-/

namespace VectorSearch

structure TagEntry where
  tag : Tag
  /-- The hash of the tag, kept so that it need not be made again when the chains double. -/
  code : UInt64
  ids : List VectorId

def TagEntry.isFor (entry : TagEntry) (code : UInt64) (tag : Tag) : Bool :=
  entry.code == code && entry.tag == tag

structure TagTable (hash : Tag → UInt64) where
  buckets : Array (List TagEntry)
  entries : Nat

namespace TagTable

variable {hash : Tag → UInt64}

def withBuckets (requested : Nat) : TagTable hash :=
  ⟨Array.replicate (max requested 1).nextPowerOfTwo [], 0⟩

def initialBuckets : Nat := 1024

def empty : TagTable hash := withBuckets initialBuckets

def bucketOf (count : Nat) (code : UInt64) : Nat := code.toNat % count

def bucket (table : TagTable hash) (tag : Tag) : Nat :=
  bucketOf table.buckets.size (hash tag)

def find? (table : TagTable hash) (tag : Tag) : Option TagEntry :=
  (table.buckets[table.bucket tag]?).bind (·.find? (·.isFor (hash tag) tag))

def ids (table : TagTable hash) (tag : Tag) : List VectorId :=
  ((table.find? tag).map (·.ids)).getD []

def pushEntry (buckets : Array (List TagEntry)) (entry : TagEntry) : Array (List TagEntry) :=
  buckets.modify (bucketOf buckets.size entry.code) (· ++ [entry])

def double (table : TagTable hash) : TagTable hash :=
  { table with
    buckets := (table.buckets.toList.flatten).foldl pushEntry
      (Array.replicate (2 * table.buckets.size) []) }

/-- Doubles the chains if another entry would be too many for them. Up to `2 ^ 53` entries the test
is the same in floating-point numbers. -/
def makeRoom (table : TagTable hash) : TagTable hash :=
  if 4 * (table.entries + 1) ≤ 3 * table.buckets.size then table else table.double

def modifyEntry (code : UInt64) (tag : Tag) (change : List VectorId → List VectorId)
    (chain : List TagEntry) : List TagEntry :=
  chain.map fun entry =>
    if entry.isFor code tag then { entry with ids := change entry.ids } else entry

/-- Takes the entry of a tag out of its chain; the last entry of the chain fills the gap. -/
def dropEntry (code : UInt64) (tag : Tag) (chain : List TagEntry) : List TagEntry :=
  match chain.findIdx? (·.isFor code tag), chain.getLast? with
  | some position, some last => (chain.set position last).dropLast
  | _, _ => chain

def changeIds (table : TagTable hash) (tag : Tag) (change : List VectorId → List VectorId) :
    TagTable hash :=
  { table with
    buckets := table.buckets.modify (table.bucket tag) (modifyEntry (hash tag) tag change) }

def dropTag (table : TagTable hash) (tag : Tag) : TagTable hash where
  buckets := table.buckets.modify (table.bucket tag) (dropEntry (hash tag) tag)
  entries := table.entries - 1

def openTag (table : TagTable hash) (tag : Tag) (id : VectorId) : TagTable hash :=
  let roomy := table.makeRoom
  { buckets := pushEntry roomy.buckets ⟨tag, hash tag, [id]⟩, entries := roomy.entries + 1 }

def add (table : TagTable hash) (tag : Tag) (id : VectorId) : TagTable hash :=
  match table.find? tag with
  | some entry =>
    if entry.ids.contains id then table else table.changeIds tag (· ++ [id])
  | none => table.openTag tag id

/-- Takes a tag from a vector; also answers whether the vector carried it. An entry without vectors
is dropped. -/
def remove (table : TagTable hash) (tag : Tag) (id : VectorId) : Bool × TagTable hash :=
  match table.find? tag with
  | none => (false, table)
  | some entry =>
    if entry.ids.contains id then
      let left := entry.ids.erase id
      (true, if left.isEmpty then table.dropTag tag else table.changeIds tag fun _ => left)
    else (false, table)

def removeVector (table : TagTable hash) (id : VectorId) : Nat × TagTable hash :=
  let touched := (table.buckets.toList.flatten).countP (·.ids.contains id)
  let buckets := table.buckets.map fun chain =>
    (chain.map fun entry => { entry with ids := entry.ids.erase id }).filter (!·.ids.isEmpty)
  (touched, { buckets, entries := buckets.toList.flatten.length })

def update (table : TagTable hash) (id : VectorId) (old new : Option TagList) : TagTable hash :=
  let cleared := ((old.map (·.tags)).getD []).foldl (fun table tag => (table.remove tag id).2) table
  ((new.map (·.tags)).getD []).foldl (fun table tag => table.add tag id) cleared

def clear (table : TagTable hash) : TagTable hash :=
  ⟨Array.replicate table.buckets.size [], 0⟩

def query (table : TagTable hash) (tag : Tag) (room : Nat) : Except Failure (List VectorId) :=
  if room = 0 then
    .error (.invalidArgument "query output buffer must hold at least one id")
  else .ok ((table.ids tag).take room)

def count (table : TagTable hash) (tag : Tag) : Nat := (table.ids tag).length

def contains (table : TagTable hash) (tag : Tag) (id : VectorId) : Bool :=
  (table.ids tag).contains id

def selectivity (table : TagTable hash) (tag : Tag) (total : Nat) : Float :=
  if total = 0 then 0
  else
    let share := Count.toFloat (table.count tag) / Count.toFloat total
    if 1 < share then 1 else share

/-- The vectors that carry every one of some tags, in the order of the tag with the fewest vectors,
the first such tag of several; no tags give no vectors. -/
def intersect (table : TagTable hash) (tags : List Tag) : List VectorId :=
  match (tags.map table.ids).mergeSort (fun first second =>
      decide (first.length ≤ second.length)) with
  | [] => []
  | fewest :: others => fewest.filter fun id => others.all (·.contains id)

def size (table : TagTable hash) : Nat := table.entries

def isEmpty (table : TagTable hash) : Bool := table.entries == 0

def bucketCount (table : TagTable hash) : Nat := table.buckets.size

end TagTable

namespace Tag

def mixChar (hash : UInt64) (char : Char) : UInt64 :=
  (((hash <<< 5) ||| (hash >>> 59)) ^^^ char.val.toUInt64) * 0x517cc1b727220a95

def mixText (hash : UInt64) (text : String) : UInt64 := text.toList.foldl mixChar hash

def hashCode (tag : Tag) : UInt64 := mixText (mixText 1 tag.key) tag.value

end Tag

abbrev TagIndex := TagTable Tag.hashCode

end VectorSearch
