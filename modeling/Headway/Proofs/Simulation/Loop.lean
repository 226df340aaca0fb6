import Mathlib.Algebra.BigOperators.Group.List.Basic
import Mathlib.Algebra.Order.Floor.Div
import Mathlib.Algebra.Order.Group.Nat
import Headway.Proofs.Session.Flags
import Headway.Simulation

namespace Headway.Simulation

namespace Arguments

def splitInto (chunk n : UInt64) : List UInt64 :=
  List.replicate (n / chunk).toNat chunk ++ if n % chunk = 0 then [] else [n % chunk]

def sizes (a : Arguments) : List UInt64 := splitInto a.chunk a.total

def wires (a : Arguments) : List UInt64 :=
  a.sizes.map fun size =>
    ((size.toFloat * a.deltaRatio).toUInt64.toFloat * a.compressRatio).toUInt64

theorem wires_eq (a : Arguments) : a.wires = a.sizes.map fun size => a.wire (a.raw size) := rfl

section Split

variable {chunk n : UInt64}

theorem splitInto_of_lt (h : n < chunk) (hn : n ≠ 0) : splitInto chunk n = [n] := by
  have hd : n / chunk = 0 := by
    apply UInt64.toNat.inj
    rw [UInt64.toNat_div, Nat.div_eq_of_lt (UInt64.lt_iff_toNat_lt.mp h), UInt64.toNat_zero]
  have hm : n % chunk = n := by
    apply UInt64.toNat.inj
    rw [UInt64.toNat_mod, Nat.mod_eq_of_lt (UInt64.lt_iff_toNat_lt.mp h)]
  rw [splitInto, hd, hm, if_neg hn]
  rfl

theorem splitInto_of_le (h : chunk ≤ n) (hc : chunk ≠ 0) :
    splitInto chunk n = chunk :: splitInto chunk (n - chunk) := by
  have hle := UInt64.le_iff_toNat_le.mp h
  have hpos := Count.toNat_pos hc
  have hs : (n - chunk).toNat = n.toNat - chunk.toNat := UInt64.toNat_sub_of_le _ _ h
  have hd : (n / chunk).toNat = ((n - chunk) / chunk).toNat + 1 := by
    rw [UInt64.toNat_div, UInt64.toNat_div, hs, Nat.div_eq_sub_div hpos hle]
  have hm : (n - chunk) % chunk = n % chunk := by
    apply UInt64.toNat.inj
    rw [UInt64.toNat_mod, UInt64.toNat_mod, hs, ← Nat.mod_eq_sub_mod hle]
  rw [splitInto, splitInto, hd, hm, List.replicate_succ, List.cons_append]

theorem splitInto_zero (chunk : UInt64) : splitInto chunk 0 = [] := by
  have hd : (0 : UInt64) / chunk = 0 := by
    apply UInt64.toNat.inj
    simp
  have hm : (0 : UInt64) % chunk = 0 := by
    apply UInt64.toNat.inj
    simp
  rw [splitInto, hd, hm]
  rfl

theorem splitInto_eq_cons (hc : chunk ≠ 0) (hn : n ≠ 0) :
    splitInto chunk n = min chunk n :: splitInto chunk (n - min chunk n) := by
  by_cases h : chunk ≤ n
  · have hmin : min chunk n = chunk := if_pos h
    rw [hmin, splitInto_of_le h hc]
  · have hmin : min chunk n = n := if_neg h
    rw [hmin, splitInto_of_lt (UInt64.not_le.mp h) hn, UInt64.sub_self, splitInto_zero]

theorem length_splitInto (hc : chunk ≠ 0) :
    (splitInto chunk n).length = n.toNat ⌈/⌉ chunk.toNat := by
  have hpos := Count.toNat_pos hc
  have hd := Nat.div_add_mod n.toNat chunk.toNat
  have hlt := Nat.mod_lt n.toNat hpos
  have hz : n % chunk = 0 ↔ n.toNat % chunk.toNat = 0 := by
    rw [← UInt64.toNat_inj, UInt64.toNat_mod, UInt64.toNat_zero]
  rw [splitInto, List.length_append, List.length_replicate, UInt64.toNat_div,
    Nat.ceilDiv_eq_add_pred_div]
  by_cases hm : n % chunk = 0
  · rw [if_pos hm, List.length_nil, Nat.add_zero]
    symm
    apply Nat.div_eq_of_lt_le
    · rw [Nat.mul_comm]
      omega
    · rw [Nat.succ_mul, Nat.mul_comm]
      have := hz.mp hm
      omega
  · rw [if_neg hm, List.length_singleton]
    symm
    have := mt hz.mpr hm
    apply Nat.div_eq_of_lt_le
    · rw [Nat.succ_mul, Nat.mul_comm]
      omega
    · rw [Nat.succ_mul, Nat.succ_mul, Nat.mul_comm]
      omega

theorem sum_splitInto (chunk n : UInt64) :
    ((splitInto chunk n).map UInt64.toNat).sum = n.toNat := by
  have hd := Nat.div_add_mod' n.toNat chunk.toNat
  rw [splitInto, List.map_append, List.sum_append, List.map_replicate, List.sum_replicate,
    UInt64.toNat_div, smul_eq_mul]
  by_cases hm : n % chunk = 0
  · rw [if_pos hm]
    have := congrArg UInt64.toNat hm
    rw [UInt64.toNat_mod, UInt64.toNat_zero] at this
    simp only [List.map_nil, List.sum_nil]
    omega
  · rw [if_neg hm]
    simp only [List.map_cons, List.map_nil, List.sum_cons, List.sum_nil, UInt64.toNat_mod]
    omega

end Split

end Arguments

namespace State

variable {a : Arguments} {s t u : State} {d : Duration}

def wire (a : Arguments) (s : State) : UInt64 := a.wire (a.raw (s.size a))

def Overfull (a : Arguments) (s : State) : Prop :=
  0 < s.inVolume ∧ a.volume < Count.addSat s.inVolume (s.wire a)

instance (a : Arguments) (s : State) : Decidable (s.Overfull a) :=
  inferInstanceAs (Decidable (0 < s.inVolume ∧ a.volume < Count.addSat s.inVolume (s.wire a)))

def carried (a : Arguments) (s : State) : UInt64 := if s.Overfull a then 0 else s.inVolume

def news (a : Arguments) (s : State) : List News :=
  [.live (.addChanged (s.size a)), .live (.addRaw (a.raw (s.size a)))] ++
    (if s.Overfull a then [.bytes 0] else []) ++ [.bytes (s.carried a + s.wire a)]

def loaded (a : Arguments) (s : State) : State :=
  { s with
    session := s.session.after ((s.news a).map .hear)
    processed := s.processed + s.size a
    inVolume := s.carried a + s.wire a
    volumes := if s.Overfull a then s.volumes + 1 else s.volumes }

structure Fits (a : Arguments) (s : State) (d : Duration) : Prop where
  volumes : s.Overfull a → s.volumes.toNat + 1 < UInt32.size
  sum : (s.carried a).toNat + (s.wire a).toNat ≤ Count.largest
  sending : a.sending? (s.wire a) = some d

def opened (a : Arguments) (s : State) : State :=
  if s.Overfull a then hear { s.take a with inVolume := 0, volumes := s.volumes + 1 } (.bytes 0)
  else s.take a

theorem inVolume_opened (a : Arguments) (s : State) : (s.opened a).inVolume = s.carried a := by
  rw [opened, carried]
  split
  · rfl
  · rfl

theorem loaded_eq (a : Arguments) (s : State) :
    s.loaded a = hear { s.opened a with inVolume := s.carried a + s.wire a }
      (.bytes (s.carried a + s.wire a)) := by
  rw [loaded, news, opened]
  by_cases h : s.Overfull a
  · rw [if_pos h, if_pos h, if_pos h]
    rfl
  · rw [if_neg h, if_neg h, if_neg h]
    rfl

theorem changeVolume_take (a : Arguments) (s : State) :
    (s.take a).changeVolume a (s.wire a) =
      if s.Overfull a → s.volumes.toNat + 1 < UInt32.size then .ok (s.opened a)
      else .error .countSum := by
  have hc : (s.take a).changeVolume a (s.wire a) =
      if s.Overfull a then
        if s.volumes.toNat + 1 < UInt32.size then
          .ok (hear { s.take a with inVolume := 0, volumes := s.volumes + 1 } (.bytes 0))
        else .error .countSum
      else .ok (s.take a) := rfl
  rw [hc, opened]
  by_cases h : s.Overfull a
  · simp only [h, if_true, true_imp_iff]
  · simp only [h, if_false, false_imp_iff, if_true]

def finish (a : Arguments) (wire : UInt64) (s : State) : Except Fault State :=
  (s.send wire).bind fun s =>
    match a.sending? wire with
    | some d => .ok ((s.sleep d).pause a)
    | none => .error .secondsRange

theorem step_eq (a : Arguments) (s : State) :
    s.step a = ((s.take a).changeVolume a (s.wire a)).bind (finish a (s.wire a)) := rfl

theorem finish_eq_ok_iff {wire : UInt64} :
    s.finish a wire = .ok t ↔
      s.inVolume.toNat + wire.toNat ≤ Count.largest ∧ ∃ d, a.sending? wire = some d ∧
        t = ((hear { s with inVolume := s.inVolume + wire } (.bytes (s.inVolume + wire))).sleep
          d).pause a := by
  rw [finish, send, Count.add?]
  by_cases hn : s.inVolume.toNat + wire.toNat ≤ Count.largest
  · rw [if_pos hn]
    cases hd : a.sending? wire with
    | none => simp [Except.bind]
    | some d => simp [Except.bind, hn, eq_comm]
  · rw [if_neg hn]
    simp [Except.bind, hn]

theorem step_eq_ok_iff :
    s.step a = .ok t ↔ ∃ d, s.Fits a d ∧ t = ((s.loaded a).sleep d).pause a := by
  rw [step_eq, changeVolume_take]
  by_cases hv : s.Overfull a → s.volumes.toNat + 1 < UInt32.size
  · rw [if_pos hv, Except.bind, finish_eq_ok_iff, inVolume_opened, ← loaded_eq]
    constructor
    · rintro ⟨hn, d, hd, rfl⟩
      exact ⟨d, ⟨hv, hn, hd⟩, rfl⟩
    · rintro ⟨d, hf, rfl⟩
      exact ⟨hf.sum, d, hf.sending, rfl⟩
  · rw [if_neg hv]
    constructor
    · intro ht
      cases ht
    · rintro ⟨d, hf, -⟩
      exact absurd hf.volumes hv

section Rest

structure Rested (s t : State) : Prop where
  processed : t.processed = s.processed
  inVolume : t.inVolume = s.inVolume
  volumes : t.volumes = s.volumes
  live : t.session.transfer.live = s.session.transfer.live
  bytes : t.session.transfer.estimator.bytes = s.session.transfer.estimator.bytes

theorem rested_refl (s : State) : Rested s s := ⟨rfl, rfl, rfl, rfl, rfl⟩

theorem Rested.trans (h : Rested s t) (h' : Rested t u) : Rested s u :=
  ⟨h'.processed.trans h.processed, h'.inVolume.trans h.inVolume, h'.volumes.trans h.volumes,
    h'.live.trans h.live, h'.bytes.trans h.bytes⟩

theorem display_eq (s : State) (es : List Emission) :
    ∃ queue shown, s.display es = { s with queue := queue, shown := shown } := by
  induction es generalizing s with
  | nil => exact ⟨s.queue, s.shown, rfl⟩
  | cons e es ih =>
    obtain ⟨queue, shown, h⟩ := ih (s.display [e])
    exact ⟨queue, shown, h⟩

theorem giveWay_eq (s : State) (d : Duration) :
    s.giveWay d = display { s with session := s.session.next (.sleep d), streak := 1 }
      (s.session.act (.sleep d)).2.2 := rfl

theorem giveWay_fields (s : State) (d : Duration) :
    ∃ queue shown, s.giveWay d = { s with
      session := s.session.next (.sleep d), streak := 1, queue := queue, shown := shown } := by
  rw [giveWay_eq]
  obtain ⟨queue, shown, h⟩ := display_eq
    { s with session := s.session.next (.sleep d), streak := 1 }
    (s.session.act (.sleep d)).2.2
  exact ⟨queue, shown, h⟩

theorem rested_giveWay (s : State) (d : Duration) : Rested s (s.giveWay d) := by
  obtain ⟨queue, shown, h⟩ := giveWay_fields s d
  have hk := Session.sleepUntil_holds
    (P := fun t => t.live = s.session.transfer.live ∧
      t.estimator.bytes = s.session.transfer.estimator.bytes)
    (fun _ _ ht => ht)
    (fun t ht => ⟨ht.1, (Estimator.tick_frame t.estimator t.now t.live).2.2.trans ht.2⟩)
    (s := s.session) ⟨rfl, rfl⟩ (s.session.transfer.now.later d.slept)
  rw [h]
  exact ⟨rfl, rfl, rfl, hk.1, hk.2⟩

theorem rested_sleep (s : State) (d : Duration) : Rested s (s.sleep d) := by
  rw [sleep]
  split
  · exact ⟨rfl, rfl, rfl, rfl, rfl⟩
  · exact rested_giveWay s d

theorem rested_pause (a : Arguments) (s : State) : Rested s (s.pause a) := by
  rw [pause]
  split
  · split
    next secs _ _ =>
      have h : Rested s { s with paused := true } := ⟨rfl, rfl, rfl, rfl, rfl⟩
      exact h.trans (rested_sleep _ _)
    next => exact rested_refl s
  · exact rested_refl s

theorem rested_step (h : s.step a = .ok t) : Rested (s.loaded a) t := by
  obtain ⟨d, -, rfl⟩ := step_eq_ok_iff.mp h
  exact (rested_sleep _ _).trans (rested_pause _ _)

end Rest

section Run

inductive Passes (a : Arguments) : State → List State → State → Prop
  | done (s : State) : Passes a s [] s
  | step {s t u : State} {ss : List State} (hs : s.processed < a.total) (ht : s.step a = .ok t)
      (h : Passes a t ss u) : Passes a s (s :: ss) u

theorem passes_run (fit : a.chunk ≠ 0) (s : State) :
    ∃ ss, Passes a s ss (s.run a fit).1 ∧
      match (s.run a fit).2 with
      | .ok () => ¬ (s.run a fit).1.processed < a.total
      | .error f => (s.run a fit).1.processed < a.total ∧ (s.run a fit).1.step a = .error f := by
  fun_induction State.run a fit s with
  | case1 s hs t ht ih =>
    obtain ⟨ss, hp, he⟩ := ih
    exact ⟨s :: ss, .step hs ht hp, he⟩
  | case2 s hs f hf => exact ⟨[], .done s, hs, hf⟩
  | case3 s hs => exact ⟨[], .done s, hs⟩

variable {ss : List State}

theorem size_ne_zero (hc : a.chunk ≠ 0) (hs : s.processed < a.total) : s.size a ≠ 0 := by
  intro hz
  have h := toNat_processed_add_size hs
  have hlt := UInt64.lt_iff_toNat_lt.mp hs
  have hpos := Count.toNat_pos hc
  rw [hz, UInt64.add_zero] at h
  omega

theorem splitInto_left (hc : a.chunk ≠ 0) (hs : s.processed < a.total) :
    Arguments.splitInto a.chunk (a.total - s.processed) =
      s.size a :: Arguments.splitInto a.chunk (a.total - s.processed - s.size a) := by
  apply Arguments.splitInto_eq_cons hc
  intro hz
  have hlt := UInt64.lt_iff_toNat_lt.mp hs
  have hn := congrArg UInt64.toNat hz
  rw [UInt64.toNat_sub_of_le _ _ (UInt64.le_of_lt hs), UInt64.toNat_zero] at hn
  omega

theorem Passes.sizes (h : Passes a s ss u) (hc : a.chunk ≠ 0) (hp : s.processed ≤ a.total) :
    u.processed ≤ a.total ∧ Arguments.splitInto a.chunk (a.total - s.processed) =
      ss.map (size a) ++ Arguments.splitInto a.chunk (a.total - u.processed) := by
  induction h with
  | done s => exact ⟨hp, rfl⟩
  | @step s t u ss hs ht h ih =>
    have hlt := UInt64.lt_iff_toNat_lt.mp hs
    have hn := toNat_processed_add_size hs
    have hproc := processed_step ht
    have hle : t.processed ≤ a.total := by
      rw [hproc, UInt64.le_iff_toNat_le, hn]
      omega
    have hleft : a.total - t.processed = a.total - s.processed - s.size a := by
      grind
    obtain ⟨hu, hsizes⟩ := ih hle
    refine ⟨hu, ?_⟩
    rw [splitInto_left hc hs, List.map_cons, List.cons_append, ← hsizes, hleft]

theorem Passes.sizes_eq (h : Passes a s ss u) (hc : a.chunk ≠ 0) (hz : s.processed = 0)
    (hu : ¬ u.processed < a.total) : ss.map (size a) = a.sizes ∧ u.processed = a.total := by
  obtain ⟨hle, hs⟩ := h.sizes hc (hz ▸ UInt64.zero_le)
  have he : u.processed = a.total := UInt64.le_antisymm hle (UInt64.not_lt.mp hu)
  rw [he, UInt64.sub_self, Arguments.splitInto_zero, List.append_nil, hz, UInt64.sub_zero] at hs
  exact ⟨hs.symm, he⟩

end Run

end State

section Simulate

variable {c : Config} {a : Arguments} {s : State}

theorem simulate_of_fit (h : a.unfit? = none) :
    simulate c a = match (State.starting c a).1.run a (Arguments.chunk_ne_zero h) with
      | (s, .ok ()) => .ok ⟨(State.starting c a).2, s.stop.shown.toList, .ok ()⟩
      | (s, .error f) => .ok ⟨(State.starting c a).2, s.shown.toList, .error f⟩ := by
  rw [simulate]
  split
  next u hu =>
    rw [h] at hu
    cases hu
  next => rfl

theorem simulate_of_ok (h : a.unfit? = none)
    (hr : (State.starting c a).1.run a (Arguments.chunk_ne_zero h) = (s, .ok ())) :
    simulate c a = .ok ⟨(State.starting c a).2, s.stop.shown.toList, .ok ()⟩ := by
  rw [simulate_of_fit h, hr]

theorem simulate_of_error (h : a.unfit? = none) {f : Fault}
    (hr : (State.starting c a).1.run a (Arguments.chunk_ne_zero h) = (s, .error f)) :
    simulate c a = .ok ⟨(State.starting c a).2, s.shown.toList, .error f⟩ := by
  rw [simulate_of_fit h, hr]

end Simulate

end Headway.Simulation
