import DataPropagator.CentralPropagator.Context
import DataPropagator.Common.PropagatorClient

/-!
# Dispatching a warning

`dispatch_job_fn` of `cp_dispatcher.c`.  The destination of a warning is looked up in
the map of the context.  For a row below the own one the hop is found by climbing from
the destination until the next step would reach the own row.  For the own row and for
every name that the map does not know the hop is the own row.
-/

namespace DataPropagator

/-- The hop that `dispatch_job_fn` chooses for a destination.  Its loop is bounded by
`fuel`, and `none` is a loop that the fuel did not let end. -/
def chooseHop (fuel : Nat) (ctx : CPContext) (destNode : CString) : Option Nat :=
  match hashmapGet ctx.map destNode with
  | none => some ctx.me
  | some dest =>
      if dest = ctx.me then some ctx.me
      else Forest.walkBelow (parentOf ctx.allNodes) ctx.me fuel dest

/-- What `dispatch_job_fn` sends and where. -/
structure Dispatch where
  address : CString
  port : UInt16
  call : SendCall
deriving DecidableEq, Repr

/-- `dispatch_job_fn` with the environment of its call of `send_warning_to`. -/
def dispatchJobFn (fuel : Nat) (ctx : CPContext) (connected alloc : Bool)
    (send : Bytes → Int → Int) (w : Warning) : Option Dispatch :=
  (chooseHop fuel ctx w.destNode).bind fun hop =>
    (ctx.allNodes[hop]?).map fun row =>
      { address := row.address, port := row.port, call := sendWarningTo connected alloc send w }

end DataPropagator
