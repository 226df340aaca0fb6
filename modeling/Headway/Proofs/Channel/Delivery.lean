import Headway.Channel
import Headway.Proofs.Session.History

namespace Headway

namespace Channel

def found (c : Channel) (r : Report) : List Report :=
  if c.isOpen = true ∧ c.waiting.length < c.capacity then [r] else []

def kept : Channel → List Report → List Report := trace offer found

variable {c : Channel} {rs : List Report}

theorem offer_eq (c : Channel) (r : Report) :
    c.offer r = { c with waiting := c.waiting ++ c.found r } := by
  rw [offer, accepts, found]
  by_cases h : c.isOpen = true ∧ c.waiting.length < c.capacity
  · rw [if_pos h, if_pos]
    simp [h]
  · rw [if_neg h, if_neg, List.append_nil]
    simpa using h

theorem offerAll_eq (c : Channel) (rs : List Report) :
    c.offerAll rs = { c with waiting := c.waiting ++ c.kept rs } := by
  induction rs generalizing c with
  | nil =>
    rw [kept, trace, List.append_nil]
    rfl
  | cons r rs ih =>
    rw [kept, trace, ← kept, ← List.append_assoc]
    change (c.offer r).offerAll rs = _
    rw [ih, offer_eq]

theorem kept_of_closed (h : c.isOpen = false) (rs : List Report) : c.kept rs = [] := by
  induction rs generalizing c with
  | nil => rfl
  | cons r rs ih =>
    have hf : c.found r = [] := by simp [found, h]
    have hn : (c.offer r).isOpen = false := by
      rw [offer_eq]
      exact h
    rw [kept, trace, ← kept, ih hn, hf, List.append_nil]

theorem kept_of_open (h : c.isOpen = true) (rs : List Report) :
    c.kept rs = rs.take (c.capacity - c.waiting.length) := by
  -- Nothing makes room inside one batch of reports, so it is its first ones that are kept.
  induction rs generalizing c with
  | nil => rw [List.take_nil]; rfl
  | cons r rs ih =>
    have hn : (c.offer r).isOpen = true := by
      rw [offer_eq]
      exact h
    rw [kept, trace, ← kept, ih hn, offer_eq]
    by_cases hw : c.waiting.length < c.capacity
    · obtain ⟨k, hk⟩ : ∃ k, c.capacity - c.waiting.length = k + 1 :=
        ⟨c.capacity - c.waiting.length - 1, by omega⟩
      have hf : c.found r = [r] := if_pos ⟨h, hw⟩
      have hroom : c.capacity - (c.waiting ++ [r]).length = k := by
        rw [List.length_append, List.length_singleton]
        omega
      rw [hf, hk, List.take_succ_cons, hroom]
      rfl
    · have hf : c.found r = [] := if_neg fun h => hw h.2
      have hroom : c.capacity - c.waiting.length = 0 := by omega
      rw [hf, List.append_nil, hroom]
      rfl

theorem length_offerAll_le (h : c.waiting.length ≤ c.capacity) (rs : List Report) :
    (c.offerAll rs).waiting.length ≤ (c.offerAll rs).capacity := by
  induction rs generalizing c with
  | nil => exact h
  | cons r rs ih =>
    apply ih
    rw [capacity_offer]
    exact length_offer_le h

end Channel

namespace Broadcast

inductive Use where
  | act (a : Action)
  | drain
  | close
  deriving DecidableEq

def next (b : Broadcast) : Use → Broadcast
  | .act a => (b.act a).1
  | .drain => b.drain.1
  | .close => b.close

def after (b : Broadcast) (us : List Use) : Broadcast := us.foldl next b

def actions : List Use → List Action
  | [] => []
  | .act a :: us => a :: actions us
  | .drain :: us | .close :: us => actions us

def emitted (b : Broadcast) : Use → List Report
  | .act a => (b.session.act a).2.2.map Emission.report
  | .drain | .close => []

def emissions : Broadcast → List Use → List Report := trace next emitted

def kept : Broadcast → List Use → List Report := trace next fun b u => b.channel.kept (b.emitted u)

def drained : Broadcast → List Use → List Report :=
  trace next fun b u => if u = .drain then b.drain.2 else []

def leftover : Broadcast → List Use → List Report
  | b, [] | b, .close :: _ => b.channel.waiting
  | b, u :: us => leftover (b.next u) us

variable {b : Broadcast} {us : List Use} {n : ℕ}

theorem channel_act (b : Broadcast) (a : Action) :
    (b.next (.act a)).channel = { b.channel with
      waiting := b.channel.waiting ++ b.channel.kept (b.emitted (.act a)) } :=
  Channel.offerAll_eq _ _

theorem emissions_eq (b : Broadcast) (us : List Use) :
    b.emissions us = (b.session.emissions (actions us)).map Emission.report := by
  induction us generalizing b with
  | nil => rfl
  | cons u us ih =>
    rw [emissions, trace, ← emissions, ih]
    cases u with
    | act a => exact (List.map_append ..).symm
    | drain => rfl
    | close => rfl

theorem of_closed (h : b.channel.isOpen = false) (hw : b.channel.waiting = []) :
    b.drained us = [] ∧ b.kept us = [] := by
  induction us generalizing b with
  | nil => exact ⟨rfl, rfl⟩
  | cons u us ih =>
    have hkept := Channel.kept_of_closed h (b.emitted u)
    have hdrained : (if u = .drain then b.drain.2 else []) = [] := by
      split
      · exact hw
      · rfl
    have hnext : (b.next u).channel.isOpen = false ∧ (b.next u).channel.waiting = [] := by
      cases u with
      | act a =>
        rw [channel_act, hkept, hw]
        exact ⟨h, rfl⟩
      | drain => exact ⟨h, rfl⟩
      | close => exact ⟨rfl, rfl⟩
    obtain ⟨hd, hk⟩ := ih hnext.1 hnext.2
    rw [drained, trace, ← drained, kept, trace, ← kept, hdrained, hkept, hd, hk]
    exact ⟨rfl, rfl⟩

theorem drained_append_leftover (b : Broadcast) (us : List Use) :
    b.drained us ++ b.leftover us = b.channel.waiting ++ b.kept us := by
  induction us generalizing b with
  | nil => exact (List.append_nil _).symm
  | cons u us ih =>
    rw [drained, trace, ← drained, kept, trace, ← kept]
    cases u with
    | act a =>
      have h := ih (b.next (.act a))
      rw [channel_act, List.append_assoc] at h
      exact h
    | drain =>
      have h := ih (b.next .drain)
      change (b.channel.waiting ++ drained _ us) ++ leftover _ us = _
      rw [List.append_assoc, h]
      rfl
    | close =>
      obtain ⟨hd, hk⟩ := @of_closed (b.next .close) us rfl rfl
      have hnone : b.channel.kept (b.emitted .close) = [] := rfl
      rw [hd, hk, hnone]
      exact (List.append_nil _).symm

theorem kept_sublist (b : Broadcast) (us : List Use) : (b.kept us).Sublist (b.emissions us) := by
  induction us generalizing b with
  | nil => exact List.Sublist.slnil
  | cons u us ih =>
    rw [kept, trace, ← kept, emissions, trace, ← emissions]
    apply List.Sublist.append _ (ih _)
    cases ho : b.channel.isOpen with
    | true =>
      rw [Channel.kept_of_open ho]
      exact List.take_sublist _ _
    | false =>
      rw [Channel.kept_of_closed ho]
      exact List.nil_sublist _

theorem waiting_next (h : b.channel.waiting.length ≤ b.channel.capacity) (u : Use) :
    (b.next u).channel.waiting.length ≤ b.channel.capacity ∧
      (b.next u).channel.capacity = b.channel.capacity := by
  cases u with
  | act a =>
    have hlength := Channel.length_offerAll_le h (b.emitted (.act a))
    rw [Channel.offerAll_eq] at hlength
    rw [channel_act]
    exact ⟨hlength, rfl⟩
  | drain => exact ⟨Nat.zero_le _, rfl⟩
  | close => exact ⟨Nat.zero_le _, rfl⟩

theorem waiting_after (h : b.channel.waiting.length ≤ b.channel.capacity) (us : List Use) :
    (b.after us).channel.waiting.length ≤ b.channel.capacity ∧
      (b.after us).channel.capacity = b.channel.capacity := by
  induction us generalizing b with
  | nil => exact ⟨h, rfl⟩
  | cons u us ih =>
    obtain ⟨hw, hc⟩ := waiting_next h u
    rw [← hc] at hw ⊢
    exact ih hw

theorem isOpen_after (h : b.channel.isOpen = true) (hc : .close ∉ us) :
    (b.after us).channel.isOpen = true := by
  induction us generalizing b with
  | nil => exact h
  | cons u us ih =>
    rw [List.mem_cons, not_or] at hc
    apply ih _ hc.2
    cases u with
    | act a =>
      rw [channel_act]
      exact h
    | drain => exact h
    | close => exact absurd rfl hc.1

theorem take_prefix_kept (h : b.channel.isOpen = true) (hc : .close ∉ us)
    (hn : n ≤ b.channel.capacity - b.channel.waiting.length) :
    (b.emissions us).take n <+: b.kept us := by
  induction us generalizing b n with
  | nil =>
    rw [emissions, trace, List.take_nil]
    exact List.nil_prefix
  | cons u us ih =>
    rw [List.mem_cons, not_or] at hc
    have hopen : (b.next u).channel.isOpen = true := by
      have hu : .close ∉ [u] := fun h => hc.1 (List.mem_singleton.mp h)
      exact isOpen_after h hu
    rw [emissions, trace, ← emissions, kept, trace, ← kept]
    cases u with
    | close => exact absurd rfl hc.1
    | drain =>
      apply ih hopen hc.2
      change n ≤ b.channel.capacity - 0
      omega
    | act a =>
      rw [Channel.kept_of_open h, List.take_append]
      by_cases hl : n ≤ (b.emitted (.act a)).length
      · rw [Nat.sub_eq_zero_of_le hl, List.take_zero, List.append_nil]
        exact (List.take_prefix_take_left hn).trans (List.prefix_append _ _)
      · have hall : (b.emitted (.act a)).take (b.channel.capacity - b.channel.waiting.length) =
            b.emitted (.act a) := List.take_of_length_le (by omega)
        rw [List.take_of_length_le (by omega), hall]
        apply (List.prefix_append_right_inj _).mpr
        apply ih hopen hc.2
        rw [channel_act, Channel.kept_of_open h, hall, List.length_append]
        simp only
        omega

structure Delivered (capacity : ℕ) (b : Broadcast) (us : List Use) : Prop where
  complete : b.drained us ++ b.leftover us = b.kept us
  order : (b.kept us).Sublist ((b.session.emissions (actions us)).map Emission.report)
  within : ∀ before a later, us = before ++ .act a :: later → ∀ k,
    ((b.after before).channel.offerAll
      (((b.after before).emitted (.act a)).take k)).waiting.length ≤ capacity
  between : ∀ before later, us = before ++ later →
    (b.after before).channel.waiting.length ≤ capacity
  emptied : ∀ before later, us = before ++ .drain :: later →
    (b.after (before ++ [.drain])).channel.waiting = []
  room : ∀ before more later, us = before ++ .drain :: (more ++ later) → .close ∉ before →
    .close ∉ more → ((b.after (before ++ [.drain])).emissions more).take capacity <+:
      (b.after (before ++ [.drain])).kept more

theorem delivered (session : Session) (capacity : ℕ) (us : List Use) :
    Delivered capacity ⟨session, .empty capacity⟩ us := by
  have hempty : (Channel.empty capacity).waiting.length ≤ capacity := Nat.zero_le _
  refine ⟨drained_append_leftover _ us, ?_, ?_, ?_, ?_, ?_⟩
  · rw [← emissions_eq]
    exact kept_sublist _ us
  · rintro before a later - k
    obtain ⟨hw, hc⟩ := @waiting_after ⟨session, .empty capacity⟩ hempty before
    rw [← hc] at hw
    have hlength := Channel.length_offerAll_le hw
      (((after ⟨session, .empty capacity⟩ before).emitted (.act a)).take k)
    rw [Channel.offerAll_eq] at hlength ⊢
    exact Nat.le_trans hlength (Nat.le_of_eq hc)
  · rintro before later -
    exact (@waiting_after ⟨session, .empty capacity⟩ hempty before).1
  · rintro before later -
    rw [after, List.foldl_append]
    rfl
  · rintro before more later - hbefore hmore
    obtain ⟨-, hc⟩ := @waiting_after ⟨session, .empty capacity⟩ hempty before
    have hopen : ((after ⟨session, .empty capacity⟩ before).next .drain).channel.isOpen = true :=
      @isOpen_after ⟨session, .empty capacity⟩ before rfl hbefore
    have hdrain : after ⟨session, .empty capacity⟩ (before ++ [.drain]) =
        (after ⟨session, .empty capacity⟩ before).next .drain := List.foldl_append
    rw [hdrain]
    apply take_prefix_kept hopen hmore
    change capacity ≤ (after ⟨session, .empty capacity⟩ before).channel.capacity - 0
    rw [hc]
    exact Nat.le_refl _

def crowded : List Use :=
  [.act (.hear (.evidence ⟨0, 1000⟩)), .act (.hear (.bytes 10)),
    .act (.hear (.live (.setRaw 20))), .act (.hear (.live (.setChanged 40))), .act .start,
    .act (.sleep (.ofMillis 9000)), .drain, .act (.hear (.bytes 70)),
    .act (.sleep (.ofMillis 3000)), .act .stop, .close, .drain]

def crowd : Broadcast := ⟨.starting .standard (.ofConfig .standard), .empty 2⟩

theorem delivered_crowded :
    Delivered 2 crowd crowded ∧
      (crowd.kept crowded).map (fun r => (r.elapsed, r.total)) =
        [(0, 10), (3, 10), (12, 70), (12, 70)] ∧
      (crowd.drained crowded).map (fun r => (r.elapsed, r.total)) = [(0, 10), (3, 10)] :=
  ⟨delivered _ 2 crowded, by decide +kernel, by decide +kernel⟩

end Broadcast

end Headway
