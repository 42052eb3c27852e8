import LapRing.Act

/-!
# Feeds

A feed supplies the items of a batch. It announces how many there are, and is
then asked for one after the other. Nothing makes it keep its word: it may end
early, hold more than it announced, or give up.
-/
namespace LapRing

structure Feed (W α : Type) where
  length : UInt64
  /-- The item of the given number, counted from zero. -/
  next : Nat → Act W (Option α)

/-- The feed of the items of a list. -/
def Feed.ofList {W α : Type} (items : List α) : Feed W α where
  length := UInt64.ofNat items.length
  next k := pure items[k]?

end LapRing
