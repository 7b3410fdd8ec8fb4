import ArenaHeap.Fault

/-!
# Faults of node lists

* `ListFault` : why an operation on a list was refused; `ListFault.source?` is the allocator's part.
-/

namespace ArenaHeap

/-- Why an operation on a list was refused. -/
inductive ListFault where
  /-- A reference is missing that the operation cannot do without. -/
  | invalidArgument (text : String)
  /-- No node of the list is meant. -/
  | notFound
  /-- There is no room for a new node. -/
  | allocationExhausted (source : Fault)
deriving DecidableEq, Repr

namespace ListFault

/-- The reaction that a fault calls for. -/
def kind : ListFault → FaultKind
  | invalidArgument _ => .invalidArgument
  | notFound => .notFound
  | allocationExhausted _ => .allocationExhausted

/-- The fault of the allocator behind a fault of a list. -/
def source? : ListFault → Option Fault
  | allocationExhausted source => some source
  | _ => none

/-- The text of a fault. -/
def message : ListFault → String
  | invalidArgument text => "invalid argument: " ++ text
  | notFound => "node not found"
  | allocationExhausted source => "node allocation failed: " ++ source.message

end ListFault

end ArenaHeap
