import Lending.Guarded
import Lending.Pool.Held

/-!
# The mutex of a pool

One mutex guards the shared part of a `ResourcePool`. It is taken for the critical sections of the
pool's calls (`Call.critical`) and for a look, from which its owner has the pool's size, health and
metrics: `capacity`, `idle_count`, `active_count`, `allocated_count`, `health_status` and
`get_metrics` are looks. A parked call has given it back, as waiting on the condition variable does,
and takes it again once it is woken.

What is not critical runs with the mutex free: every callback, every wake-up, and the drop of the
resource that a `discard` begins with. The teardown of a pool takes no mutex either, since nobody
else can have a reference then.
-/

namespace Lending.Pool.Held

variable (α : Type)

/-- The mutex of a pool with references. -/
def guard : Guard (Held α) (Frame α) Unit (Pool α) where
  mutex?
    | .call x => if x.critical then some () else none
    | .start _ => none
  view s _ := s.pool

/-- The program of a pool with references, with its mutex. -/
def guarded : Program (Guarded.State (Held α) Unit) (Guarded.Frame (Frame α) Unit (Pool α))
    (Guarded.Op (Op α) Unit) (Query α) (Guarded.Reply (Reply α) (Pool α)) :=
  (program α).guarded (guard α)

end Lending.Pool.Held
