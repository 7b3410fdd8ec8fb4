import ArenaHeap.NodeList.Basic

/-!
# The text of lists

Values are written in decimal, with a comma and a blank between them, in brackets. There are two
writers: one for readers of the values, one for readers of the program; they agree.

* `ListText.display` : puts a separator in front of every value but the first;
* `ListText.debug` : puts one wherever an entry was written before;
* `NodeList.display`, `NodeList.debug`, `NodeList.displayRange` : the texts of a list.
-/

namespace ArenaHeap

namespace ListText

/-- A value in decimal. -/
def decimal (value : Int32) : String :=
  let digits := String.ofList (Nat.toDigits 10 value.toInt.natAbs)
  if value < 0 then "-" ++ digits else digits

/-- The values from the `index`-th on, each but the first of all behind a separator. -/
def joined : Nat → List Int32 → String
  | _, [] => ""
  | index, value :: rest =>
    (if index > 0 then ", " else "") ++ decimal value ++ joined (index + 1) rest

/-- The text of some values. -/
def display (values : List Int32) : String := "[" ++ joined 0 values ++ "]"

/-- The text so far, and whether it has an entry. -/
structure Entries where
  text : String
  started : Bool := false

/-- The text with one more entry. -/
def Entries.entry (e : Entries) (value : Int32) : Entries :=
  ⟨(if e.started then e.text ++ ", " else e.text) ++ decimal value, true⟩

/-- The text of some values, entry by entry. -/
def debug (values : List Int32) : String := (values.foldl Entries.entry ⟨"[", false⟩).text ++ "]"

end ListText

namespace NodeList

variable {g : Geometry}

/-- The text of a list. -/
def display (l : NodeList) (a : Allocator g) : String := ListText.display (l.values a)

/-- The text of a list for readers of the program. -/
def debug (l : NodeList) (a : Allocator g) : String := ListText.debug (l.values a)

/-- The text of the values from node `start` to node `stop`. -/
def displayRange (l : NodeList) (a : Allocator g) (start stop : Option Reference) : String :=
  ListText.display (l.range a start stop)

end NodeList

end ArenaHeap
