import TigerMixer.Escrow.Contract
import TigerMixer.Pool.Contract
import TigerMixer.Rotation.Contract

/-!
# The contracts together

The escrow pays its service fees into the reward pool and tells it whom to credit. The rotation
contract ends the epochs of the pool and has their rewards distributed to the outgoing committee. A
call across contracts is the program of the calling contract, answered by what the pool does.
-/

namespace TigerMixer.Mixer

open Calls

structure State where
  escrow : Escrow.State
  pool : Pool.State
  rotation : Rotation.State
  poolAddress : Address

def answer (call : Pool.Call) (pool : Pool.State) : Option Pool.State :=
  ((Pool.execute call pool).interp ([] : List (Environment Pool.State Pool.Call))).final

/-- `confirm` of the escrow while its pool is the one of the system and `party2` accepts the final
amount. -/
def State.confirm (primitives : Escrow.Primitives) (msg : Msg) (args : Escrow.ConfirmArgs)
    (state : State) : Option State := do
  guard (state.escrow.rewardPool = state.poolAddress ∧ state.poolAddress ≠ 0)
  let record := state.escrow.escrows args.escrowId
  guard (record.party2 ≠ state.poolAddress)
  let paid := answer
    ⟨⟨state.escrow.self, Escrow.serviceFee record.amount, msg.timestamp⟩, .receive⟩ state.pool
  let credited := paid.bind
    (answer ⟨⟨state.escrow.self, 0, msg.timestamp⟩, .recordTransaction args.party2Address⟩)
  let escrow ← ((Escrow.confirm primitives msg args state.escrow).interp
    ([paid.isSome, credited.isSome, true].map .returning : Escrow.Callbacks)).final
  let pool ← credited
  return { state with escrow, pool }

/-- `rotateCommittee` while the pool of the rotation contract is the one of the system, given the
reputations. -/
def State.rotateCommittee (msg : Msg) (reputation : Address → ℕ) (state : State) :
    Option State := do
  guard (state.rotation.rewardPool = state.poolAddress ∧ state.poolAddress ≠ 0)
  let caller : Msg := ⟨state.rotation.self, 0, msg.timestamp⟩
  let ended ← answer ⟨caller, .endEpoch⟩ state.pool
  let previousEpoch := Word.sub ended.currentEpoch 1
  let previousCommitteeList := state.rotation.currentCommittee.filter (· ≠ 0)
  let distribution := answer
    ⟨caller, .distributeRewardsToMembers previousEpoch previousCommitteeList⟩ ended
  let rotation ← ((Rotation.rotateCommittee msg ⟨reputation, some ended.currentEpoch⟩
    state.rotation).interp ([true, distribution.isSome].map .returning : Rotation.Callbacks)).final
  let pool :=
    -- The failure of a distribution is caught.
    if 0 < previousEpoch ∧ 0 < previousCommitteeList.length then distribution.getD ended else ended
  return { state with rotation, pool }

end TigerMixer.Mixer
