/-!
Texts cut to a number of bytes. A cut never splits a character, so a text may lose up to three
bytes of its allowance when a wide character straddles the limit.
-/

namespace VectorSearch.Text

def takeBytes (room : Nat) : List Char → List Char
  | [] => []
  | char :: rest =>
    if char.utf8Size ≤ room then char :: takeBytes (room - char.utf8Size) rest else []

theorem utf8ByteSize_takeBytes (chars : List Char) (room : Nat) :
    (String.ofList (takeBytes room chars)).utf8ByteSize ≤ room := by
  induction chars generalizing room with
  | nil => exact Nat.zero_le room
  | cons char rest ih =>
      unfold takeBytes
      split
      · rename_i fits
        have tail := ih (room - char.utf8Size)
        rw [String.ofList_cons, String.utf8ByteSize_append, String.utf8ByteSize_singleton]
        omega
      · exact Nat.zero_le room

/-- The longest beginning of `text` that has at most `limit` bytes and ends between characters. -/
def truncate (text : String) (limit : Nat) : String :=
  String.ofList (takeBytes limit text.toList)

/-- Plan explanations and failure messages fit into a buffer of 256 bytes with a terminator. -/
def messageLimit : Nat := 255

def boundedMessage (text : String) : String :=
  truncate text messageLimit

theorem utf8ByteSize_boundedMessage (text : String) :
    (boundedMessage text).utf8ByteSize ≤ messageLimit :=
  utf8ByteSize_takeBytes text.toList messageLimit

end VectorSearch.Text
