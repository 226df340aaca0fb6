import Headway.Proofs.Binary64.Quotient
import Headway.Proofs.Simulation.Loop

namespace Headway.Simulation

namespace Arguments

def fill (volume : ℕ) (p : ℕ × ℕ) (wire : ℕ) : ℕ × ℕ :=
  if 0 < p.1 ∧ volume < p.1 + wire then (wire, p.2 + 1) else (p.1 + wire, p.2)

def filled (a : Arguments) : ℕ × ℕ :=
  (a.wires.map UInt64.toNat).foldl (fill a.volume.toNat) (0, 1)

structure Endures (a : Arguments) : Prop where
  sum : a.volume.toNat = Count.largest → (a.wires.map UInt64.toNat).sum ≤ Count.largest
  volumes : a.filled.2 < UInt32.size
  sending : a.rate = 1 → ∀ wire ∈ a.wires, wire.toNat < 2 ^ 64 - 1024

theorem rate_ne_zero {a : Arguments} (h : a.unfit? = none) : a.rate ≠ 0 := by
  intro hz
  simp [unfit?, hz] at h

section Fill

variable {a : Arguments} {volume : ℕ} {p : ℕ × ℕ} {ws : List ℕ}

theorem fill_of_le {wire : ℕ} (h : p.1 + wire ≤ volume) : fill volume p wire = (p.1 + wire, p.2) := by
  rw [fill, if_neg]
  rintro ⟨-, hlt⟩
  omega

theorem fill_bounds (p : ℕ × ℕ) (w : ℕ) :
    p.2 ≤ (fill volume p w).2 ∧ (fill volume p w).2 ≤ p.2 + 1 := by
  rw [fill]
  split
  · exact ⟨Nat.le_succ _, Nat.le_refl _⟩
  · exact ⟨Nat.le_refl _, Nat.le_succ _⟩

theorem foldl_fill_bounds (ws : List ℕ) (p : ℕ × ℕ) :
    p.2 ≤ (ws.foldl (fill volume) p).2 ∧ (ws.foldl (fill volume) p).2 ≤ p.2 + ws.length := by
  induction ws generalizing p with
  | nil => exact ⟨Nat.le_refl _, Nat.le_refl _⟩
  | cons w ws ih =>
    obtain ⟨hlo, hhi⟩ := @fill_bounds volume p w
    obtain ⟨hle, hub⟩ := ih (fill volume p w)
    rw [List.foldl_cons, List.length_cons]
    exact ⟨by omega, by omega⟩

theorem foldl_fill_of_lt (hp : 0 < p.1) (h : ∀ w ∈ ws, volume < w) :
    (ws.foldl (fill volume) p).2 = p.2 + ws.length := by
  induction ws generalizing p with
  | nil => rfl
  | cons w ws ih =>
    have hw := h w List.mem_cons_self
    have hf : fill volume p w = (w, p.2 + 1) := if_pos ⟨hp, by omega⟩
    have hrest := ih (p := fill volume p w) (by rw [hf]; simp only; omega)
      fun v hv => h v (List.mem_cons_of_mem w hv)
    rw [List.foldl_cons, hrest, hf, List.length_cons]
    simp only
    omega

theorem filled_of_lt (hn : a.sizes ≠ []) (h : ∀ size ∈ a.sizes, a.volume < a.wire (a.raw size)) :
    a.filled.2 = a.sizes.length := by
  obtain ⟨size, sizes, hs⟩ := List.exists_cons_of_ne_nil hn
  rw [hs] at h
  have hz : fill a.volume.toNat (0, 1) (a.wire (a.raw size)).toNat =
      (0 + (a.wire (a.raw size)).toNat, 1) := if_neg fun hp => absurd hp.1 (Nat.lt_irrefl 0)
  have hfirst := UInt64.lt_iff_toNat_lt.mp (h size List.mem_cons_self)
  have hlater : ∀ w ∈ (sizes.map fun n => a.wire (a.raw n)).map UInt64.toNat,
      a.volume.toNat < w := by
    intro w hw
    obtain ⟨v, hv, rfl⟩ := List.mem_map.mp hw
    obtain ⟨n, hn, rfl⟩ := List.mem_map.mp hv
    exact UInt64.lt_iff_toNat_lt.mp (h n (List.mem_cons_of_mem size hn))
  have hrest := foldl_fill_of_lt (p := (0 + (a.wire (a.raw size)).toNat, 1)) (by simp only; omega)
    hlater
  rw [filled, wires_eq, hs, List.map_cons, List.map_cons, List.foldl_cons, hz, hrest,
    List.length_map, List.length_map, List.length_cons, Nat.add_comm]

theorem endures_of_length_lt (hv : a.volume.toNat ≠ Count.largest) (hr : a.rate ≠ 1)
    (hn : a.sizes.length + 1 < UInt32.size) : a.Endures := by
  refine ⟨fun h => absurd h hv, ?_, fun h => absurd h hr⟩
  have hle : a.filled.2 ≤ 1 + _ := (foldl_fill_bounds (a.wires.map UInt64.toNat) (0, 1)).2
  rw [List.length_map, wires, List.length_map] at hle
  omega

theorem sending?_eq_none_iff {wire : UInt64} (hr : a.rate ≠ 0) :
    a.sending? wire = none ↔ a.rate = 1 ∧ 2 ^ 64 - 1024 ≤ wire.toNat :=
  Binary64.ofFloat?_div_eq_none_iff hr

end Fill

end Arguments

namespace State

open Arguments

variable {a : Arguments} {s t u : State} {ss : List State} {d : Duration}

theorem overfull_iff
    (h : a.volume.toNat = Count.largest → s.inVolume.toNat + (s.wire a).toNat ≤ Count.largest) :
    s.Overfull a ↔
      0 < s.inVolume.toNat ∧ a.volume.toNat < s.inVolume.toNat + (s.wire a).toNat := by
  have hv := Count.toNat_le_largest a.volume
  rw [Overfull, UInt64.lt_iff_toNat_lt, UInt64.lt_iff_toNat_lt, Count.toNat_addSat,
    UInt64.toNat_zero]
  omega

theorem not_overfull_of_largest (hv : a.volume.toNat = Count.largest) : ¬ s.Overfull a := by
  rintro ⟨-, h⟩
  rw [UInt64.lt_iff_toNat_lt, Count.toNat_addSat] at h
  omega

theorem Fits.room (h : s.Fits a d) (hv : a.volume.toNat = Count.largest) :
    s.inVolume.toNat + (s.wire a).toNat ≤ Count.largest := by
  have hs := h.sum
  rw [carried, if_neg (not_overfull_of_largest hv)] at hs
  exact hs

theorem fill_step (h : s.step a = .ok t) :
    (t.inVolume.toNat, t.volumes.toNat) =
      fill a.volume.toNat (s.inVolume.toNat, s.volumes.toNat) (s.wire a).toNat := by
  obtain ⟨d, hf, -⟩ := step_eq_ok_iff.mp h
  have hr := rested_step h
  have hi : t.inVolume = s.carried a + s.wire a := hr.inVolume
  have hn : t.volumes = if s.Overfull a then s.volumes + 1 else s.volumes := hr.volumes
  have ho := overfull_iff hf.room
  rw [hi, hn, Count.toNat_add_of_le hf.sum, fill, carried]
  by_cases h : s.Overfull a
  · have hv := hf.volumes h
    have hn : (s.volumes + 1).toNat = s.volumes.toNat + 1 := by
      rw [UInt32.toNat_add]
      exact Nat.mod_eq_of_lt hv
    rw [if_pos h, if_pos h, if_pos (ho.mp h), UInt64.toNat_zero, Nat.zero_add, hn]
  · rw [if_neg h, if_neg h, if_neg (mt ho.mpr h)]

theorem Passes.fill (h : Passes a s ss u) :
    (u.inVolume.toNat, u.volumes.toNat) =
      ((ss.map (wire a)).map UInt64.toNat).foldl (fill a.volume.toNat)
        (s.inVolume.toNat, s.volumes.toNat) := by
  induction h with
  | done s => rfl
  | step hs ht h ih =>
    rw [ih, fill_step ht]
    rfl

theorem Passes.sum (h : Passes a s ss u) (hv : a.volume.toNat = Count.largest) :
    u.inVolume.toNat = s.inVolume.toNat + ((ss.map (wire a)).map UInt64.toNat).sum := by
  induction h with
  | done s => rfl
  | @step s t u ss hs ht h ih =>
    obtain ⟨d, hf, -⟩ := step_eq_ok_iff.mp ht
    have hi := congrArg Prod.fst (fill_step ht)
    rw [fill_of_le (by rw [hv]; exact hf.room hv)] at hi
    simp only at hi
    rw [ih, hi, List.map_cons, List.map_cons, List.sum_cons, Nat.add_assoc]

theorem Passes.sending (h : Passes a s ss u) : ∀ t ∈ ss, a.sending? (t.wire a) ≠ none := by
  induction h with
  | done s =>
    intro t ht
    cases ht
  | step hs ht h ih =>
    obtain ⟨d, hf, -⟩ := step_eq_ok_iff.mp ht
    intro v hv
    rcases List.mem_cons.mp hv with rfl | hv
    · rw [hf.sending]
      exact Option.some_ne_none d
    · exact ih v hv

theorem Passes.wires (h : Passes a s ss u) (hc : a.chunk ≠ 0) (hz : s.processed = 0) :
    a.wires = ss.map (wire a) ++
      (splitInto a.chunk (a.total - u.processed)).map fun size => a.wire (a.raw size) := by
  obtain ⟨-, hs⟩ := h.sizes hc (hz ▸ UInt64.zero_le)
  rw [hz, UInt64.sub_zero] at hs
  rw [wires_eq, Arguments.sizes, hs, List.map_append, List.map_map]
  rfl

theorem endures_of_passes (h : Passes a s ss u) (hr : a.rate ≠ 0) (hw : a.wires = ss.map (wire a))
    (hi : s.inVolume = 0) (hv : s.volumes = 1) : a.Endures := by
  have hf := h.fill
  rw [← hw, hi, hv] at hf
  refine ⟨?_, ?_, ?_⟩
  · intro hl
    have hs := h.sum hl
    have hle := Count.toNat_le_largest u.inVolume
    rw [← hw, hi, UInt64.toNat_zero, Nat.zero_add] at hs
    omega
  · have hlt := u.volumes.toNat_lt
    have hn : u.volumes.toNat = a.filled.2 := congrArg Prod.snd hf
    rw [← hn]
    exact hlt
  · intro hone wire hm
    rw [hw] at hm
    obtain ⟨t, ht, rfl⟩ := List.mem_map.mp hm
    apply Nat.lt_of_not_le
    intro hle
    exact h.sending t ht ((sending?_eq_none_iff hr).mpr ⟨hone, hle⟩)

section Room

variable (h : Passes a s ss u) (he : a.Endures) {rest : List UInt64}
  (hw : a.wires = ss.map (wire a) ++ u.wire a :: rest) (hi : s.inVolume = 0)
include he hw

theorem exists_sending (hr : a.rate ≠ 0) : ∃ d, a.sending? (u.wire a) = some d := by
  rw [← Option.ne_none_iff_exists']
  intro hn
  obtain ⟨hone, hle⟩ := (sending?_eq_none_iff hr).mp hn
  have hmem : u.wire a ∈ a.wires := by
    rw [hw]
    exact List.mem_append_right _ List.mem_cons_self
  have hlt := he.sending hone _ hmem
  omega

include h hi

theorem inVolume_add_wire_le (hl : a.volume.toNat = Count.largest) :
    u.inVolume.toNat + (u.wire a).toNat ≤ Count.largest := by
  have hle := he.sum hl
  have hs := h.sum hl
  rw [hi, UInt64.toNat_zero, Nat.zero_add] at hs
  rw [hw, List.map_append, List.map_cons, List.sum_append, List.sum_cons, ← hs] at hle
  omega

theorem carried_add_wire_le : (u.carried a).toNat + (u.wire a).toNat ≤ Count.largest := by
  have ho := overfull_iff (inVolume_add_wire_le h he hw hi)
  have hle := Count.toNat_le_largest (u.wire a)
  have hlv := Count.toNat_le_largest a.volume
  rw [carried]
  by_cases hover : u.Overfull a
  · rw [if_pos hover, UInt64.toNat_zero]
    omega
  · rw [if_neg hover]
    have hn := mt ho.mpr hover
    omega

theorem volumes_lt (hv : s.volumes = 1) (hover : u.Overfull a) :
    u.volumes.toNat + 1 < UInt32.size := by
  have ho := overfull_iff (inVolume_add_wire_le h he hw hi)
  have hlt := he.volumes
  -- The volume that begins now is one of those that all the bytes fill.
  have hf := h.fill
  rw [hi, hv] at hf
  change (u.inVolume.toNat, u.volumes.toNat) = List.foldl _ (0, 1) _ at hf
  rw [Arguments.filled, hw, List.map_append, List.map_cons, List.foldl_append, List.foldl_cons,
    ← hf, Arguments.fill, if_pos (ho.mp hover)] at hlt
  exact Nat.lt_of_le_of_lt (foldl_fill_bounds (rest.map UInt64.toNat)
    ((u.wire a).toNat, u.volumes.toNat + 1)).1 hlt

theorem exists_fits (hr : a.rate ≠ 0) (hv : s.volumes = 1) : ∃ d, u.Fits a d := by
  obtain ⟨d, hd⟩ := exists_sending he hw hr
  exact ⟨d, volumes_lt h he hw hi hv, carried_add_wire_le h he hw hi, hd⟩

end Room

theorem run_eq_ok_iff (c : Config) (h : a.unfit? = none) :
    ((starting c a).1.run a (chunk_ne_zero h)).2 = .ok () ↔ a.Endures := by
  have hc := chunk_ne_zero h
  have hr := rate_ne_zero h
  obtain ⟨ss, hp, he⟩ := passes_run hc (starting c a).1
  have hw := hp.wires hc rfl
  constructor
  · intro hok
    -- All the bytes have gone through the steps of the run, and each of them had its room.
    rw [hok] at he
    obtain ⟨-, htotal⟩ := hp.sizes_eq hc rfl he
    rw [htotal, UInt64.sub_self, splitInto_zero, List.map_nil, List.append_nil] at hw
    exact endures_of_passes hp hr hw rfl rfl
  · intro hsound
    cases hres : ((starting c a).1.run a hc).2 with
    | ok _ => rfl
    | error f =>
      -- The step that failed was to send the next of all the bytes, for which there is room.
      rw [hres] at he
      obtain ⟨hlt, hf⟩ := he
      rw [splitInto_left hc hlt, List.map_cons] at hw
      obtain ⟨d, hd⟩ := exists_fits hp hsound hw rfl hr rfl
      rw [step_eq_ok_iff.mpr ⟨d, hd, rfl⟩] at hf
      cases hf

end State

theorem simulate_endures (c : Config) {a : Arguments} (h : a.unfit? = none) :
    ∃ r, simulate c a = .ok r ∧ (r.ending = .ok () ↔ a.Endures) := by
  have hiff := State.run_eq_ok_iff c h
  cases hr : ((State.starting c a).1.run a (Arguments.chunk_ne_zero h)).2 with
  | ok _ =>
    refine ⟨_, simulate_of_ok h (Prod.ext rfl hr), ?_⟩
    rw [← hiff, hr]
  | error f =>
    refine ⟨_, simulate_of_error h (Prod.ext rfl hr), ?_⟩
    rw [← hiff, hr]

/-- One byte that becomes as many on the wire as a word can count, sent one a second. -/
def endless : Arguments := ⟨1, 0, 1.0 / 0.0, 1.0 / 0.0, 1, 1, 1, none⟩

/-- All the bytes a word can count in two halves, of which a double rounds the second up. -/
def brimful : Arguments := ⟨18446744073709551615, 0, 1.0, 1.0, 9223372036854775808,
  9223372036854775808, 18446744073709551615, none⟩

/-- As many volumes as steps, one more than a word of 32 bits can count. -/
def scattered : Arguments := ⟨4294967296, 0, 1.0, 2.0, 2, 1, 1, none⟩

theorem unfit?_endless : endless.unfit? = none := by decide +kernel

theorem not_endures_endless : ¬ endless.Endures := by
  intro h
  have hmem : 18446744073709551615 ∈ endless.wires := by decide +kernel
  exact absurd (h.sending rfl _ hmem) (by decide)

theorem simulate_endures_standard :
    Arguments.standard.unfit? = none ∧
      (∃ r, simulate .standard .standard = .ok r ∧ r.ending = .ok ()) ∧
      ∃ r, simulate .standard endless = .ok r ∧ r.ending ≠ .ok () := by
  have h : Arguments.standard.unfit? = none := by decide +kernel
  obtain ⟨r, hr, hiff⟩ := simulate_endures .standard h
  obtain ⟨r', hr', hiff'⟩ := simulate_endures .standard unfit?_endless
  refine ⟨h, ⟨r, hr, hiff.mpr ?_⟩, r', hr', mt hiff'.mp not_endures_endless⟩
  apply Arguments.endures_of_length_lt
  · decide
  · decide
  · decide +kernel

theorem not_endures_brimful : ¬ brimful.Endures := by
  intro h
  exact absurd (h.sum rfl) (by decide +kernel)

theorem not_endures_scattered : ¬ scattered.Endures := by
  intro h
  have hlen : scattered.sizes.length = 4294967296 := by
    rw [Arguments.sizes, Arguments.length_splitInto (by decide)]
    decide +kernel
  have hsizes : ∀ size ∈ scattered.sizes, size = 1 := by
    intro size hs
    rw [Arguments.sizes, Arguments.splitInto, if_pos (by decide +kernel), List.append_nil] at hs
    exact (List.mem_replicate.mp hs).2
  have hwires : ∀ size ∈ scattered.sizes, scattered.volume < scattered.wire (scattered.raw size) := by
    intro size hs
    rw [hsizes size hs]
    decide +kernel
  have hne : scattered.sizes ≠ [] := by
    intro hz
    rw [hz] at hlen
    cases hlen
  have hlt := h.volumes
  rw [Arguments.filled_of_lt hne hwires, hlen] at hlt
  exact absurd hlt (by decide)

theorem not_ok_of_not_endures (c : Config) {a : Arguments} (h : a.unfit? = none)
    (hn : ¬ a.Endures) : ¬ ∃ r, simulate c a = .ok r ∧ r.ending = .ok () := by
  rintro ⟨r, hr, hok⟩
  apply hn
  rw [← State.run_eq_ok_iff c h]
  cases hrun : ((State.starting c a).1.run a (Arguments.chunk_ne_zero h)).2 with
  | ok _ => rfl
  | error f =>
    rw [simulate_of_error h (Prod.ext rfl hrun)] at hr
    cases hr
    cases hok

theorem not_ends_well :
    Config.standard.validate = .ok () ∧
      (endless.unfit? = none ∧ ¬ ∃ r, simulate .standard endless = .ok r ∧ r.ending = .ok ()) ∧
      (brimful.unfit? = none ∧ ¬ ∃ r, simulate .standard brimful = .ok r ∧ r.ending = .ok ()) ∧
      scattered.unfit? = none ∧ ¬ ∃ r, simulate .standard scattered = .ok r ∧ r.ending = .ok () := by
  have hb : brimful.unfit? = none := by decide +kernel
  have hs : scattered.unfit? = none := by decide +kernel
  exact ⟨rfl, ⟨unfit?_endless, not_ok_of_not_endures _ unfit?_endless not_endures_endless⟩,
    ⟨hb, not_ok_of_not_endures _ hb not_endures_brimful⟩,
    hs, not_ok_of_not_endures _ hs not_endures_scattered⟩

end Headway.Simulation
