import NetPixeld.Foundation.Bytes

/-!
# Resources

The three totals of an account, as the server stores them and as the client shows them.
-/

namespace NetPixeld

structure Resources where
  wood : UInt64 := 0
  food : UInt64 := 0
  iron : UInt64 := 0
deriving DecidableEq

end NetPixeld
