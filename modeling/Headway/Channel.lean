import Headway.Reporter

namespace Headway

structure Channel where
  capacity : Nat
  waiting : List Report
  isOpen : Bool
  deriving DecidableEq

namespace Channel

def empty (capacity : Nat) : Channel := ⟨capacity, [], true⟩

def accepts (c : Channel) : Bool := c.isOpen && decide (c.waiting.length < c.capacity)

def offer (c : Channel) (r : Report) : Channel :=
  if c.accepts then { c with waiting := c.waiting ++ [r] } else c

def offerAll (c : Channel) (rs : List Report) : Channel := rs.foldl offer c

def drain (c : Channel) : Channel × List Report := ({ c with waiting := [] }, c.waiting)

def close (c : Channel) : Channel := { c with waiting := [], isOpen := false }

theorem capacity_offer (c : Channel) (r : Report) : (c.offer r).capacity = c.capacity := by
  rw [offer]; split <;> rfl

theorem length_offer_le {c : Channel} {r : Report} (h : c.waiting.length ≤ c.capacity) :
    (c.offer r).waiting.length ≤ c.capacity := by
  rw [offer]
  split
  next free =>
    simp only [accepts, Bool.and_eq_true, decide_eq_true_eq] at free
    simp only [List.length_append, List.length_singleton]
    omega
  next => exact h

end Channel

structure Broadcast where
  session : Session
  channel : Channel
  deriving DecidableEq

namespace Broadcast

def act (b : Broadcast) (a : Action) : Broadcast × Answer :=
  let (session, answer, emissions) := b.session.act a
  (⟨session, b.channel.offerAll (emissions.map Emission.report)⟩, answer)

def drain (b : Broadcast) : Broadcast × List Report :=
  let (channel, reports) := b.channel.drain
  ({ b with channel := channel }, reports)

def close (b : Broadcast) : Broadcast := { b with channel := b.channel.close }

end Broadcast

end Headway
