import Std.Data.TreeMap
import VectorSearch.Embedding
/-!
The links of a layered graph. A node has one set of links for each of its layers, from layer zero
up to the level of the node; a set lists identifiers in ascending order.
-/

namespace VectorSearch

/-- The links of one node on one layer, ascending. -/
abbrev LinkSet := List VectorId

def LinkSet.insert (id : VectorId) : LinkSet → LinkSet
  | [] => [id]
  | first :: rest =>
    if id < first then id :: first :: rest
    else if id = first then first :: rest
    else first :: LinkSet.insert id rest

def LinkSet.insertAll (ids : List VectorId) (links : LinkSet) : LinkSet :=
  ids.foldl (fun links id => LinkSet.insert id links) links

abbrev LinkTable := Std.TreeMap VectorId (List LinkSet)

namespace LinkTable

def linksAt? (table : LinkTable) (layer : Nat) (id : VectorId) : Option LinkSet :=
  (table.get? id).bind (·[layer]?)

def linksAt (table : LinkTable) (layer : Nat) (id : VectorId) : LinkSet :=
  (table.linksAt? layer id).getD []

def addNode (table : LinkTable) (id : VectorId) (level : Nat) : LinkTable :=
  table.insert id (List.replicate (level + 1) [])

def modifyLinks (table : LinkTable) (layer : Nat) (id : VectorId) (change : LinkSet → LinkSet) :
    LinkTable :=
  table.modify id (·.modify layer change)

end LinkTable

end VectorSearch
