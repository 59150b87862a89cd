import StakeGovernance.Protocol.Execution

/-!
# Requests and responses

Every change of a protocol is asked for by a request, as a value of its own, so that
requests can be sent, kept in order and carried out one at a time.

* `StakeGovernance.Request`, `StakeGovernance.Response` – what is **asked for** and what
  is **answered**;
* `StakeGovernance.Request.run` – the **call** that a request stands for.
-/

namespace StakeGovernance

/-- **What is asked for.** -/
inductive Request where
  | stake (owner : Address) (amount : Amount) (unlock : Timestamp) (delegate : Address)
  | extend (owner : Address) (source unlock : Timestamp) (additional : Amount)
  | withdraw (owner : Address) (bucket : Timestamp)
  | delegate (owner target : Address)
  | propose (proposer : Address) (request : ProposalRequest)
  | vote (voter : Address) (id : ProposalId) (support : VoteSupport)
  | queue (id : ProposalId)
  | execute (id : ProposalId)
  | cancel (caller : Address) (id : ProposalId)
  | prune
deriving DecidableEq

/-- **What is answered.** -/
inductive Response where
  | staked (receipt : StakeReceipt)
  | withdrawn (amount : Amount)
  /-- The delegate before, or nothing if it was the same. -/
  | delegated (previous : Option Address)
  | proposed (id : ProposalId)
  | voted (votes : Power)
  | queued (eta : Timestamp)
  | executed (report : ExecutionReport)
  | canceled
  | pruned (hashes : List Digest)
deriving DecidableEq

/-- A response as JSON. -/
def Response.toJson : Response → Json
  | staked receipt => .object [("staked", receipt.toJson)]
  | withdrawn amount => .object [("withdrawn", Amount.toJson amount)]
  | delegated previous => .object [("delegated", Json.ofOption Address.toJson previous)]
  | proposed id => .object [("proposed", .ofWord id)]
  | voted votes => .object [("voted", .ofWord votes)]
  | queued eta => .object [("queued", .object [("eta", .ofWord eta)])]
  | executed report => .object [("executed", report.toJson)]
  | canceled => .string "canceled"
  | pruned hashes => .object [("pruned", .array (hashes.map Digest.toJson))]

instance : ToJson Response := ⟨Response.toJson⟩

namespace Request

variable {ν : Type} [Custody ν]

/-- **The call that a request stands for.** -/
def run (request : Request) (now : Timestamp) : Call GovernanceError (Protocol ν) Response := do
  match request with
  | stake owner amount unlock target =>
    return .staked (← Protocol.stake owner amount unlock target now)
  | extend owner source unlock additional =>
    return .staked (← Protocol.extend owner source unlock additional now)
  | withdraw owner bucket => return .withdrawn (← Protocol.withdraw owner bucket now)
  | delegate owner target => return .delegated (← Protocol.delegate owner target now)
  | propose proposer content => return .proposed (← Protocol.propose proposer content now)
  | vote voter id support => return .voted (← Protocol.castVote voter id support now)
  | queue id => return .queued (← Protocol.queue id now)
  | execute id => return .executed (← Protocol.execute id now)
  | cancel caller id => do
    Protocol.cancel caller id now
    return .canceled
  | prune => return .pruned (← Protocol.prune now)

end Request

end StakeGovernance
