import ArenaHeap.Fault

/-!
# Tokens

* `Token` : stands for a block that was handed out, and says where its usable bytes are;
* `ResizeFault` : a fault of a resize, with the token if it is still good.
-/

namespace ArenaHeap

/-- The usable bytes of a block that was handed out. -/
structure Token where
  address : UInt64
  size : UInt64
deriving DecidableEq, Repr

/-- Why a resize was refused, and the token that the caller keeps. -/
structure ResizeFault where
  fault : Fault
  returned : Option Token
deriving DecidableEq, Repr

/-- The text of a fault of a resize. -/
def ResizeFault.message (f : ResizeFault) : String := "resize failed: " ++ f.fault.message

end ArenaHeap
