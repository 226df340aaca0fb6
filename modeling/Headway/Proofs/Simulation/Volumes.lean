import Headway.Proofs.Simulation.Loop

namespace Headway.Simulation.State

variable {a : Arguments} {s t u : State} {ss : List State}

theorem toNat_foldl_addSat (n : UInt64) (ns : List UInt64) :
    (ns.foldl Count.addSat n).toNat = min (n.toNat + (ns.map UInt64.toNat).sum) Count.largest := by
  induction ns generalizing n with
  | nil =>
    have := Count.toNat_le_largest n
    simp only [List.foldl_nil, List.map_nil, List.sum_nil]
    omega
  | cons m ns ih =>
    rw [List.foldl_cons, ih, Count.toNat_addSat, List.map_cons, List.sum_cons]
    omega

theorem live_loaded (a : Arguments) (s : State) :
    (s.loaded a).session.transfer.live =
      ⟨Count.addSat s.session.transfer.live.raw (a.raw (s.size a)),
        Count.addSat s.session.transfer.live.changed (s.size a)⟩ := by
  rw [loaded, news]
  split
  · rfl
  · rfl

theorem bytes_loaded (hc : s.session.transfer.estimator.bytes.current = s.inVolume)
    (hn : (s.carried a).toNat + (s.wire a).toNat ≤ Count.largest) :
    (s.loaded a).session.transfer.estimator.bytes =
      ⟨s.carried a + s.wire a,
        Count.addSat s.session.transfer.estimator.bytes.total (s.wire a)⟩ := by
  by_cases h : s.Overfull a
  · have hz : s.carried a = 0 := if_pos h
    have hl : (s.loaded a).session.transfer.estimator.bytes =
        (s.session.transfer.estimator.bytes.record 0).record (s.carried a + s.wire a) := by
      rw [loaded, news, if_pos h]
      rfl
    have hback : Count.subSat 0 s.session.transfer.estimator.bytes.current = 0 := by
      apply UInt64.toNat.inj
      rw [Count.toNat_subSat, UInt64.toNat_zero, Nat.zero_sub]
    rw [hl, ByteCount.record, ByteCount.record, hback, Count.addSat_zero, hz]
    rw [hz] at hn
    rw [Count.subSat_add_left hn]
  · have hz : s.carried a = s.inVolume := if_neg h
    have hl : (s.loaded a).session.transfer.estimator.bytes =
        s.session.transfer.estimator.bytes.record (s.carried a + s.wire a) := by
      rw [loaded, news, if_neg h]
      rfl
    rw [hz] at hn
    rw [hl, ByteCount.record, hc, hz, Count.subSat_add_left hn]

theorem counts_step (h : s.step a = .ok t)
    (hc : s.session.transfer.estimator.bytes.current = s.inVolume) :
    t.session.transfer.live.changed =
        Count.addSat s.session.transfer.live.changed (s.size a) ∧
      t.session.transfer.live.raw =
        Count.addSat s.session.transfer.live.raw (a.raw (s.size a)) ∧
      t.session.transfer.estimator.total =
        Count.addSat s.session.transfer.estimator.total (s.wire a) ∧
      t.session.transfer.estimator.bytes.current = t.inVolume := by
  obtain ⟨d, hf, -⟩ := step_eq_ok_iff.mp h
  have hr := rested_step h
  have hb := bytes_loaded hc hf.sum
  rw [hr.live, live_loaded, Estimator.total, hr.bytes, hb, hr.inVolume]
  exact ⟨rfl, rfl, rfl, rfl⟩

theorem inVolume_step (h : s.step a = .ok t) (hv : a.volume < t.inVolume) :
    t.inVolume = s.wire a := by
  obtain ⟨d, hf, -⟩ := step_eq_ok_iff.mp h
  have hn : t.inVolume = s.carried a + s.wire a := (rested_step h).inVolume
  rw [hn] at hv ⊢
  by_cases ho : s.Overfull a
  · rw [show s.carried a = 0 from if_pos ho, UInt64.zero_add]
  · -- A chunk that does not fit stays only in a volume that is empty as it is.
    have hz : s.carried a = s.inVolume := if_neg ho
    have hsum := hf.sum
    rw [hz] at hv hsum ⊢
    have hempty : ¬ 0 < s.inVolume := by
      intro hp
      apply ho
      refine ⟨hp, ?_⟩
      rw [UInt64.lt_iff_toNat_lt, Count.toNat_add_of_le hsum] at hv
      rw [UInt64.lt_iff_toNat_lt, Count.toNat_addSat]
      omega
    rw [UInt64.pos_iff_ne_zero, not_not] at hempty
    rw [hempty, UInt64.zero_add]

theorem Passes.counts (h : Passes a s ss u)
    (hc : s.session.transfer.estimator.bytes.current = s.inVolume) :
    u.session.transfer.live.changed =
        (ss.map (size a)).foldl Count.addSat s.session.transfer.live.changed ∧
      u.session.transfer.live.raw =
        ((ss.map (size a)).map a.raw).foldl Count.addSat s.session.transfer.live.raw ∧
      u.session.transfer.estimator.total =
        ((ss.map (size a)).map fun n => a.wire (a.raw n)).foldl Count.addSat
          s.session.transfer.estimator.total ∧
      ∀ t ∈ ss ++ [u], t.session.transfer.estimator.bytes.current = t.inVolume := by
  induction h with
  | done s =>
    refine ⟨rfl, rfl, rfl, ?_⟩
    intro t ht
    rw [List.mem_singleton.mp ht]
    exact hc
  | @step s t u ss hs ht h ih =>
    obtain ⟨hchanged, hraw, htotal, hcurrent⟩ := counts_step ht hc
    obtain ⟨ihchanged, ihraw, ihtotal, ihcurrent⟩ := ih hcurrent
    refine ⟨?_, ?_, ?_, ?_⟩
    · rw [ihchanged, hchanged]
      rfl
    · rw [ihraw, hraw]
      rfl
    · rw [ihtotal, htotal]
      rfl
    · intro v hv
      rcases List.mem_cons.mp hv with rfl | hv
      · exact hc
      · exact ihcurrent v hv

theorem Passes.step_of_eq_append (h : Passes a s ss u) {before later : List State} {v w : State}
    (he : ss ++ [u] = before ++ v :: w :: later) : v.step a = .ok w := by
  induction h generalizing before with
  | done s =>
    have := congrArg List.length he
    simp only [List.length_append, List.length_cons, List.length_nil] at this
    omega
  | @step s t u ss hs ht h ih =>
    cases before with
    | cons x before => exact ih (List.cons.inj he).2
    | nil =>
      obtain ⟨rfl, htail⟩ := List.cons.inj he
      have hw : t = w := by
        cases h with
        | done => exact (List.cons.inj htail).1
        | step => exact (List.cons.inj htail).1
      rw [← hw]
      exact ht

structure Counted (a : Arguments) (ss : List State) (u : State) : Prop where
  steps : ss.length =
    min (a.newBytes.toNat + a.changedBytes.toNat) Count.largest ⌈/⌉ a.chunk.toNat
  sizes : ss.map (size a) = a.sizes
  changed : u.session.transfer.live.changed.toNat =
    min (a.newBytes.toNat + a.changedBytes.toNat) Count.largest
  raw : u.session.transfer.live.raw.toNat =
    min (a.sizes.map fun n => (n.toFloat * a.deltaRatio).toUInt64.toNat).sum Count.largest
  total : u.session.transfer.estimator.total.toNat =
    min (a.sizes.map fun n => ((n.toFloat * a.deltaRatio).toUInt64.toFloat *
      a.compressRatio).toUInt64.toNat).sum Count.largest
  current : ∀ t ∈ ss ++ [u], t.session.transfer.estimator.bytes.current = t.inVolume
  volume : ∀ before v w later, ss ++ [u] = before ++ v :: w :: later → a.volume < w.inVolume →
    w.inVolume =
      (((v.size a).toFloat * a.deltaRatio).toUInt64.toFloat * a.compressRatio).toUInt64

theorem counted_of_passes (h : Passes a s ss u) (hc : a.chunk ≠ 0) (hp : s.processed = 0)
    (hlive : s.session.transfer.live = .zero)
    (hbytes : s.session.transfer.estimator.bytes = .zero) (hv : s.inVolume = 0)
    (hu : ¬ u.processed < a.total) : Counted a ss u := by
  obtain ⟨hsizes, -⟩ := h.sizes_eq hc hp hu
  obtain ⟨hchanged, hraw, htotal, hcurrent⟩ := h.counts (by rw [hbytes, hv]; rfl)
  rw [hsizes, hlive] at hchanged hraw
  rw [hsizes, Estimator.total, Estimator.total, hbytes] at htotal
  have hwhole : a.total.toNat = min (a.newBytes.toNat + a.changedBytes.toNat) Count.largest :=
    Evidence.toNat_total _
  refine ⟨?_, hsizes, ?_, ?_, ?_, hcurrent, ?_⟩
  · rw [← hwhole, ← Arguments.length_splitInto hc, ← Arguments.sizes, ← hsizes, List.length_map]
  · have := Count.toNat_le_largest a.total
    rw [hchanged, toNat_foldl_addSat, Arguments.sizes, Arguments.sum_splitInto, ← hwhole]
    change min (0 + _) _ = _
    omega
  · rw [hraw, toNat_foldl_addSat, List.map_map]
    exact congrArg (min · _) (Nat.zero_add _)
  · rw [Estimator.total, htotal, toNat_foldl_addSat, List.map_map]
    exact congrArg (min · _) (Nat.zero_add _)
  · intro before v w later he
    exact inVolume_step (h.step_of_eq_append he)

theorem starting_zero (c : Config) (a : Arguments) :
    (starting c a).1.processed = 0 ∧ (starting c a).1.inVolume = 0 ∧
      (starting c a).1.session.transfer.live = .zero ∧
      (starting c a).1.session.transfer.estimator.bytes = .zero := ⟨rfl, rfl, rfl, rfl⟩

theorem counted_of_run (c : Config) (h : a.unfit? = none)
    (hr : (starting c a).1.run a (Arguments.chunk_ne_zero h) = (u, .ok ())) :
    ∃ ss, Passes a (starting c a).1 ss u ∧ Counted a ss u := by
  have hc := Arguments.chunk_ne_zero h
  obtain ⟨hp, hv, hlive, hbytes⟩ := starting_zero c a
  obtain ⟨ss, hpass, hend⟩ := passes_run hc (starting c a).1
  rw [hr] at hpass hend
  exact ⟨ss, hpass, counted_of_passes hpass hc hp hlive hbytes hv hend⟩

/-- Three whole chunks of two bytes and one of a single byte.  They become 5, 5, 5 and 2 delta bytes,
and 3, 3, 3 and 1 on the wire, so the first three fit no volume. -/
def ragged : Arguments := ⟨3, 4, 2.5, 0.75, 1, 2, 2, some 1⟩

theorem unfit?_ragged : ragged.unfit? = none := by decide +kernel

theorem counted_of_run_ragged :
    let r := (starting .standard ragged).1.run ragged (Arguments.chunk_ne_zero unfit?_ragged)
    r.2 = .ok () ∧ r.1.session.transfer.live = ⟨17, 7⟩ ∧
      r.1.session.transfer.estimator.total = 10 ∧ r.1.volumes = 4 ∧ r.1.inVolume = 1 ∧
      ∃ ss, Counted ragged ss r.1 ∧ ss.length = 4 ∧ ss.map (size ragged) = [2, 2, 2, 1] := by
  intro r
  have hr : r.2 = .ok () := by decide +kernel
  obtain ⟨ss, -, h⟩ := counted_of_run .standard unfit?_ragged (u := r.1) (Prod.ext rfl hr)
  refine ⟨hr, by decide +kernel, by decide +kernel, by decide +kernel, by decide +kernel, ss, h,
    ?_, ?_⟩
  · rw [h.steps]
    decide +kernel
  · rw [h.sizes]
    decide +kernel

end Headway.Simulation.State
