import Headway.Proofs.Transfer.Steady

namespace Headway.Transfer

structure Answering (t : Transfer) : Prop where
  enabled : t.estimator.options.enabled = true
  evidence : ∃ v, t.estimator.evidence = some v ∧ v.total ≠ 0
  changed : t.live.changed ≠ 0

inductive Onward : Operation → Prop
  | advance (d : Duration) : Onward (.advance d)
  | bytes (n : UInt64) : Onward (.hear (.bytes n))
  | evidence (v : Evidence) : Onward (.hear (.evidence v))
  | addRaw (n : UInt64) : Onward (.hear (.live (.addRaw n)))
  | addChanged (n : UInt64) : Onward (.hear (.live (.addChanged n)))
  | tickLive : Onward .tickLive

variable {t : Transfer} {n : ℕ} {op : Operation} {ops : List Operation}

theorem Answering.hear (h : t.Answering) {news : News} (ho : Onward (.hear news)) :
    (t.hear news).1.Answering := by
  obtain ⟨v, hv, hz⟩ := h.evidence
  cases ho with
  | bytes n => exact ⟨h.enabled, ⟨v, hv, hz⟩, h.changed⟩
  | evidence w =>
    have hw : t.estimator.setEvidence w = .error .evidenceAlreadySet := by
      rw [Estimator.setEvidence, hv]
    rw [Transfer.hear, hw]
    exact h
  | addRaw n => exact ⟨h.enabled, ⟨v, hv, hz⟩, h.changed⟩
  | addChanged n => exact ⟨h.enabled, ⟨v, hv, hz⟩, Count.addSat_ne_zero (.inl h.changed)⟩

theorem Answering.tick (h : t.Answering) (hs : t.Steady n) (hn : n < Count.largest)
    (hc : t.now.nanos < Duration.limit) :
    ∃ e r, t.step .tickLive = ({ t with estimator := e }, .ticked (.ok (some r))) ∧
      Answering { t with estimator := e } ∧ Steady { t with estimator := e } (n + 1) ∧
      e.time.first = some (t.estimator.time.first.getD t.now) := by
  obtain ⟨v, hv, hz⟩ := h.evidence
  obtain ⟨e, r, hr, hsteady⟩ := hs.tick hn hc t.live
  have hframe := Estimator.tick_frame t.estimator t.now t.live
  rw [hr] at hframe
  have hvisit : t.estimator.visit? t.now t.live =
      some ⟨t.now, t.live, v.total, t.estimator.total, t.estimator.stalls t.now⟩ := by
    rw [Estimator.visit?, h.enabled, hv]
  have hstep : t.step .tickLive = ({ t with estimator := e }, .ticked (.ok r)) := by
    rw [@step_of_asked t .tickLive t.live rfl, hr]
  have hnext : Answering { t with estimator := e } :=
    ⟨hframe.1 ▸ h.enabled, ⟨v, hframe.2.1.trans hv, hz⟩, h.changed⟩
  cases Estimator.ticks_of_tick hr with
  | unanswered hnone =>
    rw [hvisit] at hnone
    cases hnone
  | stalled => exact ⟨_, _, hstep, hnext, hsteady, rfl⟩
  | skipped w hw hns hskip =>
    rw [hvisit] at hw
    cases hw
    exact absurd ⟨hns, h.changed, hz⟩ hskip
  | completed => exact ⟨_, _, hstep, hnext, hsteady, rfl⟩

theorem Onward.forward (ho : Onward op) : Forward op := by cases ho <;> trivial

theorem Answering.next (h : t.Answering) (hs : t.Steady n) (ho : Onward op)
    (ha : t.asked op = none) :
    (t.next op).Answering ∧ (t.next op).Steady n ∧
      (t.next op).estimator.time.first = t.estimator.time.first := by
  cases op with
  | advance d => exact ⟨⟨h.enabled, h.evidence, h.changed⟩, hs.moved ho.forward.now_le_next, rfl⟩
  | hear news => exact ⟨h.hear ho, hs.hear news, first_hear t news⟩
  | rewind => cases ho
  | tick => cases ho
  | tickLive => cases ha

theorem emissions_cons (t : Transfer) (op : Operation) (ops : List Operation) :
    t.emissions (op :: ops) = t.emitted op ++ (t.next op).emissions ops := rfl

theorem tickTimes_cons (t : Transfer) (op : Operation) (ops : List Operation) :
    t.tickTimes (op :: ops) =
      (if (t.asked op).isSome then [t.now] else []) ++ (t.next op).tickTimes ops := rfl

theorem after_cons (t : Transfer) (op : Operation) (ops : List Operation) :
    t.after (op :: ops) = (t.next op).after ops := rfl

theorem Answering.run (h : t.Answering) (hs : t.Steady n) (ho : ∀ op ∈ ops, Onward op)
    (hn : n + (t.tickTimes ops).length ≤ Count.largest)
    (hc : (t.after ops).now.nanos < Duration.limit) :
    (t.emissions ops).map Emission.time = t.tickTimes ops ∧
      (t.after ops).estimator.time.first =
        t.estimator.time.first.or (t.tickTimes ops).head? := by
  induction ops generalizing t n with
  | nil => exact ⟨rfl, Option.or_none.symm⟩
  | cons op ops ih =>
    have hop := ho op List.mem_cons_self
    have hops : ∀ op' ∈ ops, Onward op' := fun op' h => ho op' (List.mem_cons_of_mem op h)
    rw [after_cons] at hc ⊢
    rw [tickTimes_cons] at hn ⊢
    rw [emissions_cons]
    cases ha : t.asked op with
    | none =>
      rw [ha, Option.isSome_none, if_neg Bool.false_ne_true, List.nil_append] at hn
      obtain ⟨hanswer, hsteady, hfirst⟩ := h.next hs hop ha
      obtain ⟨htimes, hrun⟩ := ih hanswer hsteady hops hn hc
      rw [(step_of_not_asked ha).2.2.2.2, Option.isSome_none, if_neg Bool.false_ne_true,
        List.nil_append, List.nil_append, htimes, hrun, hfirst]
      exact ⟨rfl, rfl⟩
    | some live =>
      cases hop with
      | tickLive =>
        rw [ha, Option.isSome_some, if_pos rfl, List.singleton_append, List.length_cons] at hn
        have hnow : t.now.nanos < Duration.limit :=
          Int.lt_of_le_of_lt (Forward.now_le_after fun op h => (ho op h).forward) hc
        obtain ⟨e, r, hr, hanswer, hsteady, hfirst⟩ := h.tick hs (by omega) hnow
        have hnext : t.next .tickLive = { t with estimator := e } := congrArg Prod.fst hr
        have hemitted : t.emitted .tickLive = [⟨t.now, r⟩] := by
          rw [emitted, hr]
          rfl
        rw [hnext] at hn hc ⊢
        obtain ⟨htimes, hrun⟩ := ih hanswer hsteady hops (by omega) hc
        rw [hemitted, Option.isSome_some, if_pos rfl, List.singleton_append, List.singleton_append,
          List.map_cons, htimes, List.head?_cons, hrun, hfirst, Option.some_or]
        refine ⟨rfl, ?_⟩
        cases t.estimator.time.first with
        | none => rfl
        | some first => rfl
      | _ => cases ha

end Headway.Transfer
