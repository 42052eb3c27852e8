import LapRing.Handler

/-!
# Scripted handlers

A handler given by data: which items it rejects, at which it gives up, and which
steps it runs before. It reports every call it receives.
-/
namespace LapRing.Script

inductive HandlerKind
  /-- Has all four callbacks of its own. -/
  | full
  /-- Has a callback for events only. -/
  | plain
  /-- Has a callback for events that does not learn the context. -/
  | closure
deriving DecidableEq

structure HandlerSpec (Step : Type) where
  kind : HandlerKind := .full
  failAt : List Int64 := []
  failOn : List Int64 := []
  raiseAt : List Int64 := []
  raiseOn : List Int64 := []
  raiseInError : List Int64 := []
  raiseInStart : Bool := false
  raiseInStop : Bool := false
  value : Option Int64 := none
  nested : List (Int64 × List Step) := []

/-- A call that a handler received. -/
inductive Call (Item : Type)
  | event (context : String) (sequence : Int64) (item : Item)
  | error (context : String) (sequence : Int64) (item : Item) (text : String)
  | start (context : String)
  | stop (context : String)

/-- How a handler reaches its surroundings and the value in its items. -/
structure Surroundings (Item W : Type) where
  value : Item → Int64
  withValue : Int64 → Item → Item
  report : Call Item → Act W Unit
  note : Notice → Act W Unit
  /-- The steps nested at a sequence. -/
  hook : Int64 → Act W Unit

namespace HandlerSpec
variable {Step Item W : Type}

def contextFor (spec : HandlerSpec Step) (context : String) : String :=
  if spec.kind = .closure then "closure" else context

def onEvent (spec : HandlerSpec Step) (around : Surroundings Item W) (context : String)
    (s : Int64) : Act (Item × W) (Except String Unit) := do
  let given ← Part.first.read
  Act.outer (around.report (.event (spec.contextFor context) s given))
  if let some v := spec.value then Part.first.update (around.withValue v)
  Act.outer (around.hook s)
  let v := around.value (← Part.first.read)
  if spec.raiseAt.contains s || spec.raiseOn.contains v then
    throw (.raised s!"handler panic at {s}")
  if spec.failAt.contains s || spec.failOn.contains v then
    return .error s!"rejected {v} at {s}"
  return .ok ()

def onError (spec : HandlerSpec Step) (around : Surroundings Item W) (context : String)
    (s : Int64) (text : String) : Act (Item × W) Unit := do
  Act.outer (around.report (.error context s (← Part.first.read) text))
  if spec.raiseInError.contains s then throw (.raised s!"on_error panic at {s}")

def onStart (spec : HandlerSpec Step) (around : Surroundings Item W) (context : String) :
    Act W Unit := do
  around.report (.start context)
  if spec.raiseInStart then throw (.raised "on_start panic")

def onShutdown (spec : HandlerSpec Step) (around : Surroundings Item W) (context : String) :
    Act W Unit := do
  around.report (.stop context)
  if spec.raiseInStop then throw (.raised "on_shutdown panic")

def toHandler (spec : HandlerSpec Step) (around : Surroundings Item W) : Handler Item W :=
  match spec.kind with
  | .full =>
    { onEvent := spec.onEvent around
      onError := spec.onError around
      onStart := spec.onStart around
      onShutdown := spec.onShutdown around }
  | .plain | .closure => .reporting around.note (spec.onEvent around)

end HandlerSpec

end LapRing.Script
