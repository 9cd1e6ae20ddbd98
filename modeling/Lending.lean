import Lending.Rehearsal.CacheRun
import Lending.Rehearsal.PoolRun
import Lending.Rehearsal.Stress
import Lending.Proofs.Program
import Lending.Proofs.Nesting
import Lending.Proofs.Pool.Call
import Lending.Proofs.Pool.Slots
import Lending.Proofs.Pool.Waking
import Lending.Proofs.Pool.Held
import Lending.Proofs.Pool.Custody
import Lending.Proofs.Pool.Live
import Lending.Proofs.Pool.Balance
import Lending.Proofs.Pool.Shrink
import Lending.Proofs.Cache.Frame
import Lending.Proofs.Cache.Nesting
import Lending.Proofs.Cache.Loans
import Lending.Proofs.Cache.Lifetime
import Lending.Proofs.Cache.Slots
import Lending.Proofs.Cache.Handles
import Lending.Proofs.Cache.Epochs
import Lending.Proofs.Cache.Purity
import Lending.Proofs.Cache.Dealings
import Lending.Proofs.Cache.Custody
import Lending.Proofs.Cache.GiveBack
import Lending.Proofs.Cache.Deeds
import Lending.Proofs.Cache.Fates
import Lending.Proofs.Cache.Once
import Lending.Proofs.Cache.Isolation
import Lending.Proofs.Cache.Diary
import Lending.Proofs.Cache.Quiet
import Lending.Proofs.Cache.Remote
import Lending.Proofs.Cache.Tenure
import Lending.Proofs.Cache.References
import Lending.Proofs.Cache.Coupling
import Lending.Proofs.Cache.Promises
import Lending.Proofs.Cache.Ending
import Lending.Proofs.Cache.Closing
import Lending.Proofs.Pool.Demand
import Lending.Proofs.Alone
import Lending.Proofs.Pool.Acquire
import Lending.Proofs.Pool.Refusal
import Lending.Proofs.Cache.Clock
import Lending.Proofs.Pool.Reported
import Lending.Proofs.Pool.Descent
import Lending.Proofs.Cache.Forwarding
import Lending.Proofs.Cache.Rollback
import Lending.Proofs.Text.ByteOrder
import Lending.Proofs.Pool.Exposition
import Lending.Proofs.Cache.Clearing
import Lending.Proofs.Cache.AllOrNothing
import Lending.Proofs.Guarded
import Lending.Proofs.Calls
import Lending.Proofs.Cache.Lockout
