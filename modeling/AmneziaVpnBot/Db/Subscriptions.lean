import AmneziaVpnBot.Db.Models

/-! What the repositories set on a subscription row
(`src/app/db/repositories/subscription_repo.py`, and the renewal part of
`order_repo.py`). -/

namespace AmneziaVpnBot.Subscription

/-- `sub.peer_external_id and sub.removed_at is None`: there is a peer to extend. -/
def hasPeer (sub : Subscription) : Bool := sub.peerExternalId.isSome && sub.removedAt.isNone

/-- The row `_approve_renewal` sets. -/
def renew (now durationDays : ℤ) (sub : Subscription) : Subscription :=
  { sub with expiresAt := max sub.expiresAt now + days durationDays, status := .active, disabledAt := none }

/-- The row `extend_subscription` sets. Added time counts from now if the subscription
has already run out, and brings a disabled one back to active. -/
def extend (now n : ℤ) (sub : Subscription) : Subscription :=
  let base := if 0 < n then max sub.expiresAt now else sub.expiresAt
  let sub' := { sub with expiresAt := base + days n }
  if 0 < n && (sub.status = .disabled || sub.status = .expired) then
    { sub' with status := .active, disabledAt := none }
  else sub'

def markActive (peer : PeerName) (sub : Subscription) : Subscription :=
  { sub with
    status := .active, peerExternalId := some peer, peerLabel := some peer
    configDeliveryStatus := .delivered }

def markDisabled (now : ℤ) (sub : Subscription) : Subscription :=
  { sub with status := .disabled, disabledAt := some now }

def markRemoved (now : ℤ) (sub : Subscription) : Subscription :=
  { sub with status := .expired, removedAt := some now }

/-- The subscription is paid for at `now`: it has a peer that was not removed, and time left. -/
def renewed (now : ℤ) (sub : Subscription) : Bool := sub.status = .active && now < sub.expiresAt

end AmneziaVpnBot.Subscription
