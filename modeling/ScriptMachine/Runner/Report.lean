import ScriptMachine.Engine.State
import ScriptMachine.Json.Printer

/-! # Reports of runs

A report tells how a run ended, what it consumed and what it returned. Items are shown by kind and
value. Containers can contain themselves, so that nothing is shown past a greatest depth.

* `Report.item`: an item as JSON.
* `Report.ofState`: the report of a run as JSON.
-/

namespace ScriptMachine

namespace Report

/-- How many levels of containers are shown. -/
def maxNesting : Nat := 16

/-- A kind and a value. -/
def tagged (x : Item) (value : Json) : Json :=
  .object [("type", .text x.kind.name), ("value", value)]

/-- An item, with `levels` levels of containers; below them, values are null. -/
def itemWithin (h : Heap) : (levels : Nat) → Item → Json
  | 0, x => tagged x .null
  | levels + 1, x =>
    tagged x <|
      match x with
      | .boolean value => .boolean value
      | .integer value => .text value.toDecimal
      | .bytes _ data => .text data.toHex
      | .interop _ data => .text data.toHex
      | .array id => .list ((h.items id).map (itemWithin h levels))
      | .struct id => .list ((h.items id).map (itemWithin h levels))
      | .map id =>
        .list ((h.entries id).map fun entry =>
          .object [("key", itemWithin h levels entry.1), ("value", itemWithin h levels entry.2)])

/-- An item. -/
def item (h : Heap) (x : Item) : Json := itemWithin h maxNesting x

/-- The report of a run: the status, the gas consumed, and the results with the top one first. -/
def ofState (s : State) : Json :=
  .object [("state", .text s.session.status.name), ("gas_consumed", .ofNat s.session.gasConsumed),
    ("stack", .list (s.session.results.map (item s.heap)))]

end Report

end ScriptMachine
