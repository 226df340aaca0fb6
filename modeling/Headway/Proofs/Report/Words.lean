import Headway.Proofs.Decimal.Numeral
import Headway.Proofs.Report.Amounts

namespace Headway

open Headway.Decimal

namespace Clock

def Sixtieths (cs : List Char) : Prop := Numeral cs ∧ value cs < 60

inductive IsFace : List Char → ℕ → Prop where
  | turns (h m s : List Char) (hours : Numeral h ∧ 2 ≤ h.length)
      (minutes : Sixtieths m ∧ m.length = 2) (seconds : Sixtieths s ∧ s.length = 2) :
      IsFace (h ++ ':' :: (m ++ ':' :: s)) (3600 * value h + 60 * value m + value s)

inductive IsBrief : List Char → ℕ → Prop where
  | hours (h m s : List Char) (first : Numeral h ∧ 0 < value h) (minutes : Sixtieths m)
      (seconds : Sixtieths s) :
      IsBrief (h ++ 'h' :: (m ++ 'm' :: (s ++ ['s']))) (3600 * value h + 60 * value m + value s)
  | minutes (m s : List Char) (first : Sixtieths m ∧ 0 < value m) (seconds : Sixtieths s) :
      IsBrief (m ++ 'm' :: (s ++ ['s'])) (60 * value m + value s)
  | seconds (s : List Char) (only : Sixtieths s) : IsBrief (s ++ ['s']) (value s)

variable {cs : List Char} {i j : ℕ} {n : UInt64}

theorem IsFace.unique (hi : IsFace cs i) (hj : IsFace cs j) : i = j := by
  obtain ⟨h, m, s, hh, hm, -⟩ := hi
  generalize he : h ++ ':' :: (m ++ ':' :: s) = cs at hj
  obtain ⟨h', m', s', hh', hm', -⟩ := hj
  obtain ⟨rfl, -, he⟩ := append_cons_inj hh.1 hh'.1 rfl rfl he
  obtain ⟨rfl, -, rfl⟩ := append_cons_inj hm.1.1 hm'.1.1 rfl rfl he
  rfl

theorem IsBrief.unique (hi : IsBrief cs i) (hj : IsBrief cs j) : i = j := by
  generalize he : cs = cs' at hj
  cases hi with
  | hours h m s hh hm hs =>
    cases hj with
    | hours h' m' s' hh' hm' hs' =>
      obtain ⟨rfl, -, he⟩ := append_cons_inj hh.1 hh'.1 rfl rfl he
      obtain ⟨rfl, -, he⟩ := append_cons_inj hm.1 hm'.1 rfl rfl he
      obtain ⟨rfl, -⟩ := append_cons_inj hs.1 hs'.1 rfl rfl he
      rfl
    | minutes m' s' hm' hs' => exact absurd he (append_cons_ne hh.1 hm'.1.1 rfl rfl (by decide))
    | seconds s' hs' => exact absurd he (append_cons_ne hh.1 hs'.1 rfl rfl (by decide))
  | minutes m s hm hs =>
    cases hj with
    | hours h' m' s' hh' hm' hs' =>
      exact absurd he (append_cons_ne hm.1.1 hh'.1 rfl rfl (by decide))
    | minutes m' s' hm' hs' =>
      obtain ⟨rfl, -, he⟩ := append_cons_inj hm.1.1 hm'.1.1 rfl rfl he
      obtain ⟨rfl, -⟩ := append_cons_inj hs.1 hs'.1 rfl rfl he
      rfl
    | seconds s' hs' => exact absurd he (append_cons_ne hm.1.1 hs'.1 rfl rfl (by decide))
  | seconds s hs =>
    cases hj with
    | hours h' m' s' hh' hm' hs' => exact absurd he (append_cons_ne hs.1 hh'.1 rfl rfl (by decide))
    | minutes m' s' hm' hs' => exact absurd he (append_cons_ne hs.1 hm'.1.1 rfl rfl (by decide))
    | seconds s' hs' =>
      obtain ⟨rfl, -⟩ := append_cons_inj hs.1 hs'.1 rfl rfl he
      rfl

theorem sixtieths_digits {k : ℕ} (hk : k < 60) : Sixtieths (digits k) :=
  ⟨numeral_digits k, by rw [value_digits]; exact hk⟩

theorem sixtieths_padded {k : ℕ} (hk : k < 60) :
    Sixtieths (padded 2 k) ∧ (padded 2 k).length = 2 := by
  have hlength : ∀ k < 60, (digits k).length ≤ 2 := by decide
  refine ⟨⟨numeral_padded 2 k, by rw [value_padded]; exact hk⟩, ?_⟩
  rw [length_padded]
  exact Nat.max_eq_left (hlength k hk)

theorem seconds_ofSeconds (n : UInt64) :
    3600 * (ofSeconds n).hours + 60 * (ofSeconds n).minutes + (ofSeconds n).seconds = n.toNat := by
  simp only [ofSeconds]
  omega

theorem isFace_face (n : UInt64) : IsFace (ofSeconds n).face n.toNat := by
  have hminutes : (ofSeconds n).minutes < 60 := Nat.mod_lt _ (by decide)
  have hseconds : (ofSeconds n).seconds < 60 := Nat.mod_lt _ (by decide)
  have hhours : 2 ≤ (padded 2 (ofSeconds n).hours).length := by
    rw [length_padded]
    exact Nat.le_max_left _ _
  have hface := IsFace.turns _ _ _ ⟨numeral_padded 2 (ofSeconds n).hours, hhours⟩
    (sixtieths_padded hminutes) (sixtieths_padded hseconds)
  rw [value_padded, value_padded, value_padded, seconds_ofSeconds] at hface
  rw [face, List.append_assoc, List.cons_append]
  exact hface

theorem isBrief_brief (n : UInt64) : IsBrief (ofSeconds n).brief n.toNat := by
  have hsum := seconds_ofSeconds n
  have hminutes : (ofSeconds n).minutes < 60 := Nat.mod_lt _ (by decide)
  have hseconds : (ofSeconds n).seconds < 60 := Nat.mod_lt _ (by decide)
  have hs := sixtieths_digits hseconds
  rw [brief]
  split
  next hpos =>
    have hh : 0 < value (digits (ofSeconds n).hours) := by rw [value_digits]; exact hpos
    have hbrief := IsBrief.hours _ _ _ ⟨numeral_digits _, hh⟩ (sixtieths_digits hminutes) hs
    rw [value_digits, value_digits, value_digits, hsum] at hbrief
    rw [List.append_assoc, List.singleton_append]
    exact hbrief
  next hzero =>
    split
    next hpos =>
      have hm : 0 < value (digits (ofSeconds n).minutes) := by rw [value_digits]; exact hpos
      have hbrief := IsBrief.minutes _ _ ⟨sixtieths_digits hminutes, hm⟩ hs
      rw [value_digits, value_digits,
        show 60 * (ofSeconds n).minutes + (ofSeconds n).seconds = n.toNat by omega] at hbrief
      rw [List.append_assoc, List.singleton_append]
      exact hbrief
    next hzero' =>
      have hbrief := IsBrief.seconds _ hs
      rw [value_digits] at hbrief
      rw [show n.toNat = (ofSeconds n).seconds by omega]
      exact hbrief

end Clock

section Spaces

theorem spaced_eq (ws : List (List Char)) : spaced ws = [' '].intercalate ws := by
  induction ws with
  | nil => rfl
  | cons w ws ih =>
    cases ws with
    | nil => simp [spaced]
    | cons v ws =>
      rw [spaced, ih, List.intercalate_cons_cons, List.append_assoc, List.singleton_append]
      exact List.cons_ne_nil v ws

theorem space_notMem_numeral {cs : List Char} (h : Numeral cs) : ' ' ∉ cs :=
  fun hc => absurd (h.2 ' ' hc) (by decide)

theorem space_notMem_tenths (n : ℕ) : ' ' ∉ tenths n := by
  simp [tenths, space_notMem_numeral (numeral_digits _)]

theorem space_notMem_oneDecimal (x : Float) : ' ' ∉ oneDecimal x := by
  have hsign (negative : Bool) : ' ' ∉ sign negative := by cases negative <;> decide
  rw [oneDecimal]
  split
  · decide
  · simp [hsign]
  · simp [hsign, space_notMem_tenths]

theorem space_notMem_figure (n : UInt64) : ' ' ∉ (Amount.ofBytes n).figure := by
  rw [Amount.ofBytes_eq]
  generalize ByteUnit.holding n.toNat = u
  cases u with
  | byte => exact space_notMem_numeral (numeral_digits _)
  | kibi | mebi | gibi | tebi => exact space_notMem_tenths _

theorem space_notMem_symbol (u : ByteUnit) : ' ' ∉ u.symbol := by
  cases u <;> decide

theorem space_notMem_face (c : Clock) : ' ' ∉ c.face := by
  simp [Clock.face, space_notMem_numeral (numeral_padded _ _)]

theorem space_notMem_brief (c : Clock) : ' ' ∉ c.brief := by
  rw [Clock.brief]
  split
  · simp [space_notMem_numeral (numeral_digits _)]
  · split <;> simp [space_notMem_numeral (numeral_digits _)]

end Spaces

namespace Report

variable {r : Report}

def tokens (line : String) : List (List Char) := line.toList.splitOn ' '

theorem space_notMem_words (r : Report) : ∀ w ∈ r.words, ' ' ∉ w := by
  intro w hw
  rw [words, List.mem_append] at hw
  rcases hw with hw | hw
  · simp only [List.mem_cons, List.not_mem_nil, or_false] at hw
    obtain rfl | rfl | rfl | rfl | rfl | rfl | rfl | rfl := hw
    · exact space_notMem_figure _
    · exact space_notMem_symbol _
    · exact space_notMem_face _
    · simp [space_notMem_figure]
    · simp [space_notMem_symbol]
    · simp [space_notMem_oneDecimal]
    · decide
    · exact space_notMem_brief _
  · split at hw
    · rw [List.mem_singleton.mp hw]
      decide
    · cases hw

theorem tokens_text (r : Report) : tokens r.text = r.words := by
  rw [tokens, text, String.toList_ofList, spaced_eq]
  exact List.splitOn_intercalate ' ' r.space_notMem_words (List.cons_ne_nil _ _)

structure Legible (r : Report) : Prop where
  length : (tokens r.text).length = if r.stalled then 9 else 8
  mark : (tokens r.text)[8]? = if r.stalled then some "(stalled)".toList else none
  elapsed : ∃ w, (tokens r.text)[2]? = some w ∧ Clock.IsFace w r.elapsed.toNat
  remaining : ∃ w, (tokens r.text)[7]? = some w ∧ Clock.IsBrief w r.eta.toNat

theorem legible (r : Report) : r.Legible := by
  refine ⟨?_, ?_, ?_, ?_⟩
  · rw [tokens_text, words]
    cases r.stalled <;> rfl
  · rw [tokens_text, words]
    cases r.stalled <;> rfl
  · rw [tokens_text]
    exact ⟨_, rfl, Clock.isFace_face _⟩
  · rw [tokens_text]
    exact ⟨_, rfl, Clock.isBrief_brief _⟩

theorem text_readable (r : Report) :
    r.Legible ∧ ∀ r' : Report, r'.text = r.text →
      r'.elapsed = r.elapsed ∧ r'.eta = r.eta ∧ r'.stalled = r.stalled := by
  have h := r.legible
  refine ⟨h, fun r' htext => ?_⟩
  have h' := r'.legible
  obtain ⟨w, hw, hface⟩ := h.elapsed
  obtain ⟨w', hw', hface'⟩ := h'.elapsed
  obtain ⟨v, hv, hbrief⟩ := h.remaining
  obtain ⟨v', hv', hbrief'⟩ := h'.remaining
  have hlength := h.length
  have hlength' := h'.length
  rw [htext] at hw' hv' hlength'
  cases hw.symm.trans hw'
  cases hv.symm.trans hv'
  refine ⟨UInt64.toNat.inj (hface'.unique hface), UInt64.toNat.inj (hbrief'.unique hbrief), ?_⟩
  rw [hlength] at hlength'
  revert hlength'
  cases r.stalled <;> cases r'.stalled <;> simp

def worn (total : UInt64) : Report := ⟨0.0 / 0.0, 240, total, 360000, 1.0 / 0.0, true⟩

theorem text_readable_worn :
    (worn 2049).text = (worn 2048).text ∧ (worn 2048).Legible ∧
      (worn 2049).elapsed = (worn 2048).elapsed ∧ (worn 2049).eta = (worn 2048).eta ∧
      (worn 2049).stalled = (worn 2048).stalled := by
  have hamount : Amount.ofBytes 2049 = Amount.ofBytes 2048 := by rfl
  have htext : (worn 2049).text = (worn 2048).text := by
    rw [text, text, words, words, show (worn 2049).total = 2049 from rfl, hamount]
    rfl
  have h := text_readable (worn 2048)
  exact ⟨htext, h.1, h.2 _ htext⟩

end Report

end Headway
