/-!
The tags of one vector: keys with values. Keys are unique and stay in the order in which they were
first set.
-/

namespace VectorSearch

structure Tag where
  key : String
  value : String
  deriving DecidableEq, Repr

structure TagList where
  tags : List Tag
  deriving DecidableEq, Repr

namespace TagList

def empty : TagList := ⟨[]⟩

/-- Gives the value of a tag to its key: in place, or at the end for a new key. -/
def setIn (tag : Tag) : List Tag → List Tag
  | [] => [tag]
  | first :: rest => if first.key = tag.key then tag :: rest else first :: setIn tag rest

def set (list : TagList) (tag : Tag) : TagList := ⟨setIn tag list.tags⟩

def get? (list : TagList) (key : String) : Option String :=
  (list.tags.find? (·.key = key)).map (·.value)

def removeIn (key : String) : List Tag → List Tag
  | [] => []
  | first :: rest => if first.key = key then rest else first :: removeIn key rest

def remove (list : TagList) (key : String) : Option String × TagList :=
  (list.get? key, ⟨removeIn key list.tags⟩)

def clear (_ : TagList) : TagList := empty

def size (list : TagList) : Nat := list.tags.length

def isEmpty (list : TagList) : Bool := list.tags.isEmpty

/-- The tags set one after another, so that a key keeps its first place and its last value. -/
def ofTags (tags : List Tag) : TagList := tags.foldl set empty

end TagList

inductive TagEdit where
  | set (tag : Tag)
  | remove (key : String)
  | clear
  | collect (tags : List Tag)

namespace TagList

def edit (list : TagList) : TagEdit → TagList
  | .set tag => list.set tag
  | .remove key => (list.remove key).2
  | .clear => list.clear
  | .collect tags => ofTags tags

def editAll (list : TagList) (edits : List TagEdit) : TagList := edits.foldl edit list

end TagList

end VectorSearch
