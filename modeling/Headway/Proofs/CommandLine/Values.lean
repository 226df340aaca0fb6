import Mathlib.Data.Int.Notation
import Mathlib.Data.List.Induction
import Mathlib.Data.List.TakeWhile
import Headway.CommandLine
import Headway.Proofs.Decimal.Numeral

namespace Headway

section Numbers

open Decimal

variable {n : ℕ} {cs : List Char}

def Writes (n : ℕ) (cs : List Char) : Prop := ∃ k, cs = List.replicate k '0' ++ digits n

theorem Writes.value_eq (h : Writes n cs) : value cs = n := by
  obtain ⟨k, rfl⟩ := h
  rw [value, Nat.ofDigitChars_append, Nat.ofDigitChars_replicate_zero, Nat.mul_zero]
  exact value_digits n

theorem Writes.numeral (h : Writes n cs) : Numeral cs := by
  obtain ⟨k, rfl⟩ := h
  refine ⟨List.append_ne_nil_of_right_ne_nil _ (digits_ne_nil n), fun c hc => ?_⟩
  rcases List.mem_append.mp hc with hc | hc
  · exact isDigit_of_mem_zeros hc
  · exact isDigit_of_mem_digits hc

theorem exists_digitChar {c : Char} (h : c.isDigit = true) : ∃ d < 10, c = d.digitChar := by
  obtain ⟨hlo, hhi⟩ := Char.isDigit_iff_toNat.mp h
  change 48 ≤ c.toNat at hlo
  change c.toNat ≤ 57 at hhi
  refine ⟨c.toNat - 48, by omega, Char.toNat_inj.mp ?_⟩
  rw [Nat.toNat_digitChar_of_lt_ten (by omega)]
  omega

theorem digits_append (n : ℕ) {d : ℕ} (hd : d < 10) :
    Writes (10 * n + d) (digits n ++ [d.digitChar]) := by
  rcases Nat.eq_zero_or_pos n with rfl | hn
  · refine ⟨1, ?_⟩
    rw [Nat.mul_zero, Nat.zero_add, digits, digits, Nat.toDigits_of_lt_base hd]
    rfl
  · refine ⟨0, ?_⟩
    have hdiv : (10 * n + d) / 10 = n := by omega
    have hmod : (10 * n + d) % 10 = d := by omega
    rw [digits, digits, Nat.toDigits_of_base_le (n := 10 * n + d) (by omega) (by omega), hdiv, hmod]
    rfl

theorem writes_value (h : Numeral cs) : Writes (value cs) cs := by
  induction cs using List.reverseRecOn with
  | nil => exact absurd rfl h.1
  | append_singleton cs c ih =>
    obtain ⟨d, hd, rfl⟩ := exists_digitChar (h.2 c (List.mem_append_right _ List.mem_cons_self))
    have hvalue : value (cs ++ [d.digitChar]) = 10 * value cs + d := by
      rw [value, Nat.ofDigitChars_append, Nat.ofDigitChars_cons_digitChar_of_lt_ten hd]
      rfl
    rw [hvalue]
    rcases eq_or_ne cs [] with rfl | hne
    · refine ⟨0, ?_⟩
      rw [show 10 * value [] + d = d from Nat.zero_add d, digits, Nat.toDigits_of_lt_base hd]
      rfl
    · obtain ⟨k, hk⟩ := ih ⟨hne, fun x hx => h.2 x (List.mem_append_left _ hx)⟩
      obtain ⟨j, hj⟩ := digits_append (value cs) hd
      refine ⟨k + j, ?_⟩
      rw [List.replicate_add, List.append_assoc, ← hj, ← List.append_assoc, ← hk]

theorem writes_iff : Writes n cs ↔ Numeral cs ∧ value cs = n := by
  constructor
  · intro h
    exact ⟨h.numeral, h.value_eq⟩
  · rintro ⟨h, rfl⟩
    exact writes_value h

end Numbers

namespace CommandLine

open Decimal

section Texts

def PathText (v path : List Char) : Prop := v = path ∧ path ≠ []

inductive FormatText : List Char → Format → Prop
  | text : FormatText "text".toList .text
  | json : FormatText "json".toList .json

inductive WordText : List Char → UInt64 → Prop
  | plain {n : UInt64} {cs : List Char} (h : Writes n.toNat cs) : WordText cs n
  | plus {n : UInt64} {cs : List Char} (h : Writes n.toNat cs) : WordText ('+' :: cs) n

inductive HalfWordText : List Char → UInt32 → Prop
  | plain {n : UInt32} {cs : List Char} (h : Writes n.toNat cs) : HalfWordText cs n
  | plus {n : UInt32} {cs : List Char} (h : Writes n.toNat cs) : HalfWordText ('+' :: cs) n
  | minus {cs : List Char} (h : Writes 0 cs) : HalfWordText ('-' :: cs) 0

inductive PowerText : List Char → ℤ → Prop
  | none : PowerText [] 0
  | plain {c : Char} {n : ℕ} {cs : List Char} (hc : c = 'e' ∨ c = 'E') (h : Writes n cs) :
      PowerText (c :: cs) n
  | plus {c : Char} {n : ℕ} {cs : List Char} (hc : c = 'e' ∨ c = 'E') (h : Writes n cs) :
      PowerText (c :: '+' :: cs) n
  | minus {c : Char} {n : ℕ} {cs : List Char} (hc : c = 'e' ∨ c = 'E') (h : Writes n cs) :
      PowerText (c :: '-' :: cs) (-n)

/-- The double for `n * 10 ^ e`, the first digit of which stands at `10 ^ (place - 1)`. -/
inductive Approximates (n : ℕ) (e : ℤ) : Float → Prop
  | tiny (h : n = 0 ∨ (digits n).length + e < -400) : Approximates n e 0.0
  | huge (hn : n ≠ 0) (h : 400 < (digits n).length + e) : Approximates n e (1.0 / 0.0)
  | near (hn : n ≠ 0) (hlo : -400 ≤ (digits n).length + e) (hhi : (digits n).length + e ≤ 400) :
      Approximates n e (.ofScientific n (decide (e < 0)) e.natAbs)

inductive DecimalText : List Char → Float → Prop
  | whole {n : ℕ} {e : ℤ} {x : Float} {ds tail : List Char} (h : Writes n ds)
      (ht : PowerText tail e) (hx : Approximates n e x) : DecimalText (ds ++ tail) x
  | pointed {n : ℕ} {e : ℤ} {x : Float} {ds part tail : List Char} (h : Writes n (ds ++ part))
      (ht : PowerText tail e) (hx : Approximates n (e - part.length) x) :
      DecimalText (ds ++ '.' :: (part ++ tail)) x

inductive UnsignedText : List Char → Float → Prop
  | decimal {x : Float} {cs : List Char} (h : DecimalText cs x) : UnsignedText cs x
  | infinity {cs : List Char}
      (h : cs.map Char.toLower = "inf".toList ∨ cs.map Char.toLower = "infinity".toList) :
      UnsignedText cs (1.0 / 0.0)
  | nan {cs : List Char} (h : cs.map Char.toLower = "nan".toList) :
      UnsignedText cs (.ofBits 0x7ff8000000000000)

inductive FloatText : List Char → Float → Prop
  | plain {x : Float} {cs : List Char} (h : UnsignedText cs x) : FloatText cs x
  | plus {x : Float} {cs : List Char} (h : UnsignedText cs x) : FloatText ('+' :: cs) x
  | minus {x : Float} {cs : List Char} (h : UnsignedText cs x) : FloatText ('-' :: cs) (-x)

end Texts

section Read

variable {cs ds part tail v path : List Char} {c : Char} {f : Format}

theorem path?_eq_some_iff : Given.path? v = some path ↔ PathText v path := by
  rw [Given.path?, PathText]
  cases v with
  | nil => simp
  | cons c cs =>
    constructor
    · rintro ⟨⟩
      exact ⟨rfl, List.cons_ne_nil c cs⟩
    · rintro ⟨rfl, -⟩
      rfl

theorem format?_eq_some_iff : format? v = some f ↔ FormatText v f := by
  rw [format?]
  constructor
  · intro h
    split at h
    next ht =>
      cases h
      exact ht ▸ .text
    next =>
      split at h
      next hj =>
        cases h
        exact hj ▸ .json
      next => cases h
  · rintro (_ | _) <;> rfl

theorem allDigits_iff : allDigits cs = true ↔ Numeral cs := by
  simp [allDigits, Numeral]

theorem head_ne_sign (h : Numeral (c :: cs)) : c ≠ '+' ∧ c ≠ '-' := by
  have hc := h.2 c List.mem_cons_self
  constructor <;>
    · rintro rfl
      exact absurd hc (by decide)

theorem toUInt64_eq_some_iff {n : UInt64} :
    (if allDigits cs = true ∧ value cs < UInt64.size then some (value cs).toUInt64 else none) =
      some n ↔ Writes n.toNat cs := by
  constructor
  · intro h
    split at h
    next hcs =>
      cases h
      rw [Nat.toUInt64, UInt64.toNat_ofNat_of_lt' hcs.2]
      exact writes_value (allDigits_iff.mp hcs.1)
    next => cases h
  · intro h
    obtain ⟨hcs, hn⟩ := writes_iff.mp h
    rw [hn, if_pos ⟨allDigits_iff.mpr hcs, n.toNat_lt⟩]
    exact congrArg some UInt64.ofNat_toNat

theorem word?_eq_some_iff {n : UInt64} : word? v = some n ↔ WordText v n := by
  constructor
  · intro h
    unfold word? at h
    split at h
    next => exact .plus (toUInt64_eq_some_iff.mp h)
    next => exact .plain (toUInt64_eq_some_iff.mp h)
  · rintro (h | h)
    · obtain ⟨c, rest, rfl⟩ := List.exists_cons_of_ne_nil h.numeral.1
      unfold word?
      split
      next he => exact absurd (List.cons.inj he).1 (head_ne_sign h.numeral).1
      next => exact toUInt64_eq_some_iff.mpr h
    · exact toUInt64_eq_some_iff.mpr h

theorem toUInt32_eq_some_iff {n : UInt32} {negative : Bool} :
    (if allDigits cs = true ∧ value cs < UInt32.size ∧ (negative = true → value cs = 0) then
      some (value cs).toUInt32 else none) = some n ↔
        Writes n.toNat cs ∧ (negative = true → n = 0) := by
  constructor
  · intro h
    split at h
    next hcs =>
      cases h
      obtain ⟨hdigits, hlt, hzero⟩ := hcs
      rw [Nat.toUInt32, UInt32.toNat_ofNat_of_lt' hlt]
      refine ⟨writes_value (allDigits_iff.mp hdigits), fun hn => ?_⟩
      rw [hzero hn]
      rfl
    next => cases h
  · rintro ⟨h, hzero⟩
    obtain ⟨hcs, hn⟩ := writes_iff.mp h
    rw [hn, if_pos ⟨allDigits_iff.mpr hcs, n.toNat_lt, fun hneg => by rw [hzero hneg]; rfl⟩]
    exact congrArg some UInt32.ofNat_toNat

theorem halfWord?_eq_some_iff {n : UInt32} : halfWord? v = some n ↔ HalfWordText v n := by
  constructor
  · intro h
    unfold halfWord? at h
    split at h
    next negative ds he =>
      obtain ⟨hw, hzero⟩ := toUInt32_eq_some_iff.mp h
      split at he
      next =>
        cases he
        exact .plus hw
      next =>
        cases he
        rw [hzero rfl] at hw ⊢
        exact .minus hw
      next =>
        cases he
        exact .plain hw
  · rintro (h | h | h)
    · obtain ⟨c, rest, rfl⟩ := List.exists_cons_of_ne_nil h.numeral.1
      obtain ⟨hplus, hminus⟩ := head_ne_sign h.numeral
      have hs : halfWord? (c :: rest) =
          if allDigits (c :: rest) = true ∧ value (c :: rest) < UInt32.size ∧
              (false = true → value (c :: rest) = 0) then some (value (c :: rest)).toUInt32
          else none := by
        unfold halfWord?
        split
        next he =>
          split at he
          next hc => exact absurd (List.cons.inj hc).1 hplus
          next hc => exact absurd (List.cons.inj hc).1 hminus
          next =>
            cases he
            rfl
      rw [hs]
      exact toUInt32_eq_some_iff.mpr ⟨h, nofun⟩
    · exact (@toUInt32_eq_some_iff _ _ false).mpr ⟨h, nofun⟩
    · exact (@toUInt32_eq_some_iff _ _ true).mpr ⟨h, fun _ => rfl⟩

end Read

section Decimal

variable {cs ds part tail : List Char} {c : Char} {n : ℕ} {e : ℤ} {x : Float}

theorem allDigits_value_iff : allDigits cs = true ∧ value cs = n ↔ Writes n cs := by
  rw [allDigits_iff, writes_iff]

theorem power?_eq_some_iff : power? cs = some e ↔ PowerText cs e := by
  constructor
  · intro h
    unfold power? at h
    split at h
    next =>
      cases h
      exact .none
    next c rest =>
      split at h
      next hc =>
        split at h
        all_goals
          split at h
          next hd =>
            cases h
            have hw := writes_value (allDigits_iff.mp hd)
            first
              | exact .plus hc hw
              | exact .minus hc hw
              | exact .plain hc hw
          next => cases h
      next => cases h
  · rintro (_ | ⟨hc, h⟩ | ⟨hc, h⟩ | ⟨hc, h⟩)
    · rfl
    · obtain ⟨d, rest, rfl⟩ := List.exists_cons_of_ne_nil h.numeral.1
      obtain ⟨hplus, hminus⟩ := head_ne_sign h.numeral
      obtain ⟨hd, hn⟩ := allDigits_value_iff.mpr h
      simp only [power?, if_pos hc]
      split
      next he => exact absurd (List.cons.inj he).1 hplus
      next he => exact absurd (List.cons.inj he).1 hminus
      next => rw [if_pos hd, hn]
    · obtain ⟨hd, hn⟩ := allDigits_value_iff.mpr h
      simp only [power?, if_pos hc, if_pos hd, hn]
    · obtain ⟨hd, hn⟩ := allDigits_value_iff.mpr h
      simp only [power?, if_pos hc, if_pos hd, hn]

theorem ofBits_infinity : Float.ofBits 0x7ff0000000000000 = 1.0 / 0.0 := by decide +kernel

theorem nearest_eq_iff : nearest n e = x ↔ Approximates n e x := by
  constructor
  · rintro rfl
    rw [nearest, ofBits_infinity]
    split_ifs with htiny hhuge he
    · exact .tiny htiny
    · exact .huge (fun h => htiny (.inl h)) hhuge
    · have h := @Approximates.near n e (fun h => htiny (.inl h)) (by omega) (by omega)
      rwa [decide_eq_true he] at h
    · have h := @Approximates.near n e (fun h => htiny (.inl h)) (by omega) (by omega)
      rwa [decide_eq_false he] at h
  · rintro (h | ⟨hn, h⟩ | ⟨hn, hlo, hhi⟩)
    · rw [nearest, if_pos h]
    · rw [nearest, if_neg (by omega), if_pos h, ofBits_infinity]
    · rw [nearest, if_neg (by omega), if_neg (by omega)]
      split_ifs with he
      · rw [decide_eq_true he]
      · rw [decide_eq_false he]

theorem PowerText.head? (h : PowerText tail e) :
    ∀ c ∈ tail.head?, c.isDigit = false ∧ c ≠ '.' := by
  rintro c hc
  cases h with
  | none => cases hc
  | plain he | plus he | minus he =>
    cases hc
    obtain rfl | rfl := he <;> decide

theorem span_append (hd : ∀ c ∈ ds, c.isDigit = true) (ht : ∀ c ∈ tail.head?, c.isDigit = false) :
    (ds ++ tail).takeWhile Char.isDigit = ds ∧ (ds ++ tail).dropWhile Char.isDigit = tail := by
  rw [List.takeWhile_append_of_pos hd, List.dropWhile_append_of_pos hd]
  cases tail with
  | nil => exact ⟨List.append_nil ds, rfl⟩
  | cons c tail =>
    have hc := ht c rfl
    rw [List.takeWhile_cons_of_neg (by simp [hc]), List.dropWhile_cons_of_neg (by simp [hc])]
    exact ⟨List.append_nil ds, rfl⟩

theorem unsigned?_whole (hd : ∀ c ∈ ds, c.isDigit = true)
    (ht : ∀ c ∈ tail.head?, c.isDigit = false ∧ c ≠ '.') :
    unsigned? (ds ++ tail) =
      if ds.isEmpty then none else (power? tail).map fun e => nearest (value ds) e := by
  obtain ⟨htake, hdrop⟩ := span_append hd fun c hc => (ht c hc).1
  unfold unsigned?
  simp only [htake, hdrop]
  split
  next => exact absurd rfl (ht '.' rfl).2
  next => simp

theorem unsigned?_pointed (hd : ∀ c ∈ ds, c.isDigit = true) (hp : ∀ c ∈ part, c.isDigit = true)
    (ht : ∀ c ∈ tail.head?, c.isDigit = false) :
    unsigned? (ds ++ '.' :: (part ++ tail)) =
      if (ds ++ part).isEmpty then none
      else (power? tail).map fun e => nearest (value (ds ++ part)) (e - part.length) := by
  have hpoint : ∀ c ∈ ('.' :: (part ++ tail)).head?, c.isDigit = false := by
    rintro c ⟨⟩
    rfl
  obtain ⟨htake, hdrop⟩ := span_append hd hpoint
  obtain ⟨htake', hdrop'⟩ := span_append hp ht
  unfold unsigned?
  simp only [htake, hdrop, htake', hdrop']
  simp

theorem exists_span (cs : List Char) : ∃ ds tail, cs = ds ++ tail ∧
    (∀ c ∈ ds, c.isDigit = true) ∧ ∀ c ∈ tail.head?, c.isDigit = false := by
  refine ⟨_, _, List.takeWhile_append_dropWhile.symm, fun c hc => List.mem_takeWhile_imp hc, ?_⟩
  intro c hc
  have h := List.head?_dropWhile_not Char.isDigit cs
  rw [hc] at h
  simpa using h

theorem unsigned?_eq_some_iff : unsigned? cs = some x ↔ DecimalText cs x := by
  constructor
  · intro h
    obtain ⟨ds, tail, rfl, hd, ht⟩ := exists_span cs
    by_cases hpoint : ∃ after, tail = '.' :: after
    · obtain ⟨after, rfl⟩ := hpoint
      obtain ⟨part, tail, rfl, hp, ht⟩ := exists_span after
      rw [unsigned?_pointed hd hp ht] at h
      split at h
      next => cases h
      next hne =>
        obtain ⟨e, he, hx⟩ := Option.map_eq_some_iff.mp h
        refine .pointed (writes_value ⟨by simpa using hne, ?_⟩) (power?_eq_some_iff.mp he)
          (nearest_eq_iff.mp hx)
        intro c hc
        exact (List.mem_append.mp hc).elim (hd c) (hp c)
    · have ht' : ∀ c ∈ tail.head?, c.isDigit = false ∧ c ≠ '.' := by
        intro c hc
        refine ⟨ht c hc, ?_⟩
        rintro rfl
        obtain ⟨after, hafter⟩ := List.head?_eq_some_iff.mp hc
        exact hpoint ⟨after, hafter⟩
      rw [unsigned?_whole hd ht'] at h
      split at h
      next => cases h
      next hne =>
        obtain ⟨e, he, hx⟩ := Option.map_eq_some_iff.mp h
        exact .whole (writes_value ⟨by simpa using hne, hd⟩) (power?_eq_some_iff.mp he)
          (nearest_eq_iff.mp hx)
  · rintro (⟨h, ht, hx⟩ | @⟨n, e, x, ds, part, tail, h, ht, hx⟩)
    · rw [unsigned?_whole h.numeral.2 ht.head?, if_neg (by simp [h.numeral.1]), h.value_eq,
        power?_eq_some_iff.mpr ht, Option.map_some, nearest_eq_iff.mpr hx]
    · have hd : ∀ c ∈ ds, c.isDigit = true := fun c hc => h.numeral.2 c (List.mem_append_left _ hc)
      have hp : ∀ c ∈ part, c.isDigit = true :=
        fun c hc => h.numeral.2 c (List.mem_append_right _ hc)
      rw [unsigned?_pointed hd hp fun c hc => (ht.head? c hc).1,
        if_neg (by simpa using h.numeral.1), h.value_eq, power?_eq_some_iff.mpr ht,
        Option.map_some, nearest_eq_iff.mpr hx]

theorem special?_eq_none (hc : c.toLower = c) (hi : c ≠ 'i') (hn : c ≠ 'n') :
    special? (c :: cs) = none := by
  have hne : ∀ d rest, c ≠ d → (c :: cs).map Char.toLower ≠ d :: rest := by
    intro d rest hd he
    rw [List.map_cons, hc] at he
    exact hd (List.cons.inj he).1
  have hinf : (c :: cs).map Char.toLower ≠ "inf".toList := hne _ _ hi
  have hinfinity : (c :: cs).map Char.toLower ≠ "infinity".toList := hne _ _ hi
  have hnan : (c :: cs).map Char.toLower ≠ "nan".toList := hne _ _ hn
  simp only [special?, hinf, hinfinity, hnan, or_self, if_false]

theorem DecimalText.head (h : DecimalText cs x) :
    ∃ c rest, cs = c :: rest ∧ (c.isDigit = true ∨ c = '.') := by
  cases h with
  | whole h ht hx =>
    obtain ⟨c, rest, rfl⟩ := List.exists_cons_of_ne_nil h.numeral.1
    exact ⟨c, _, rfl, .inl (h.numeral.2 c List.mem_cons_self)⟩
  | @pointed n e x ds part tail h ht hx =>
    cases ds with
    | nil => exact ⟨'.', _, rfl, .inr rfl⟩
    | cons c rest => exact ⟨c, _, rfl, .inl (h.numeral.2 c List.mem_cons_self)⟩

theorem plain_of_head (h : c.isDigit = true ∨ c = '.') :
    c.toLower = c ∧ c ≠ 'i' ∧ c ≠ 'n' ∧ c ≠ '+' ∧ c ≠ '-' := by
  have hdigits : ∀ d < 10, (Nat.digitChar d).toLower = Nat.digitChar d ∧ Nat.digitChar d ≠ 'i' ∧
      Nat.digitChar d ≠ 'n' ∧ Nat.digitChar d ≠ '+' ∧ Nat.digitChar d ≠ '-' := by decide
  rcases h with h | rfl
  · obtain ⟨d, hd, rfl⟩ := exists_digitChar h
    exact hdigits d hd
  · decide

theorem special?_eq_some_iff :
    special? cs = some x ↔
      (cs.map Char.toLower = "inf".toList ∨ cs.map Char.toLower = "infinity".toList) ∧
        x = 1.0 / 0.0 ∨
      cs.map Char.toLower = "nan".toList ∧ x = .ofBits 0x7ff8000000000000 := by
  rw [special?, ofBits_infinity]
  constructor
  · intro h
    split at h
    next hinf =>
      cases h
      exact .inl ⟨hinf, rfl⟩
    next =>
      split at h
      next hnan =>
        cases h
        exact .inr ⟨hnan, rfl⟩
      next => cases h
  · rintro (⟨hinf, rfl⟩ | ⟨hnan, rfl⟩)
    · rw [if_pos hinf]
    · rw [if_neg (by rw [hnan]; decide), if_pos hnan]

theorem magnitude_eq_some_iff :
    (match special? cs with
      | some x => some x
      | none => unsigned? cs) = some x ↔ UnsignedText cs x := by
  constructor
  · intro h
    split at h
    next hs =>
      cases h
      rcases special?_eq_some_iff.mp hs with ⟨hinf, rfl⟩ | ⟨hnan, rfl⟩
      · exact .infinity hinf
      · exact .nan hnan
    next => exact .decimal (unsigned?_eq_some_iff.mp h)
  · rintro (h | hinf | hnan)
    · obtain ⟨c, rest, rfl, hc⟩ := h.head
      obtain ⟨hlower, hi, hn, -⟩ := plain_of_head hc
      rw [special?_eq_none hlower hi hn]
      exact unsigned?_eq_some_iff.mpr h
    · rw [special?_eq_some_iff.mpr (.inl ⟨hinf, rfl⟩)]
    · rw [special?_eq_some_iff.mpr (.inr ⟨hnan, rfl⟩)]

theorem UnsignedText.head (h : UnsignedText cs x) :
    ∃ c rest, cs = c :: rest ∧ c ≠ '+' ∧ c ≠ '-' := by
  have hname : ∀ d name, cs.map Char.toLower = d :: name → d.isLower = true →
      ∃ c rest, cs = c :: rest ∧ c ≠ '+' ∧ c ≠ '-' := by
    intro d name he hd
    obtain ⟨c, rest, rfl, rfl, -⟩ := List.map_eq_cons_iff.mp he
    refine ⟨c, rest, rfl, ?_, ?_⟩ <;>
      · rintro rfl
        exact absurd hd (by decide)
  rcases h with h | (hinf | hinf) | hnan
  · obtain ⟨c, rest, rfl, hc⟩ := h.head
    exact ⟨c, rest, rfl, (plain_of_head hc).2.2.2⟩
  · exact hname _ _ hinf (by decide)
  · exact hname _ _ hinf (by decide)
  · exact hname _ _ hnan (by decide)

theorem float?_eq_some_iff : float? cs = some x ↔ FloatText cs x := by
  constructor
  · intro h
    unfold float? at h
    split at h
    next negative body he =>
      obtain ⟨y, hy, rfl⟩ := Option.map_eq_some_iff.mp h
      have hbody := magnitude_eq_some_iff.mp hy
      split at he
      next =>
        cases he
        exact .plus hbody
      next =>
        cases he
        exact .minus hbody
      next =>
        cases he
        exact .plain hbody
  · rintro (h | h | h)
    · obtain ⟨c, rest, rfl, hplus, hminus⟩ := h.head
      unfold float?
      split
      next he =>
        split at he
        next hc => exact absurd (List.cons.inj hc).1 hplus
        next hc => exact absurd (List.cons.inj hc).1 hminus
        next =>
          cases he
          exact congrArg (Option.map _) (magnitude_eq_some_iff.mpr h)
    · exact congrArg (Option.map _) (magnitude_eq_some_iff.mpr h)
    · exact congrArg (Option.map _) (magnitude_eq_some_iff.mpr h)

end Decimal

section Settings

variable {g : Given} {s : Setting} {v : List Char}

def Allowed : Setting → List Char → Prop
  | .config, v => ∃ path, PathText v path
  | .interval, v => ∃ n, HalfWordText v n
  | .format, v => ∃ f, FormatText v f
  | .deltaRatio, v | .compressRatio, v => ∃ x, FloatText v x
  | .newBytes, v | .changedBytes, v | .rate, v | .chunk, v | .volume, v | .pauseSecs, v =>
    ∃ n, WordText v n

def Setting.refusal : Setting → UsageError
  | .config | .format => .badChoice
  | _ => .badValue

theorem take_cases {α : Type} {read : List Char → Option α} {meant : List Char → α → Prop}
    (hread : ∀ y, read v = some y ↔ meant v y) (e : UsageError) (put : α → Given) :
    (∃ y, meant v y) ∧ (∃ g', Given.take read e put v = .ok g') ∨
      (¬∃ y, meant v y) ∧ Given.take read e put v = .error e := by
  rw [Given.take]
  cases h : read v with
  | some y => exact .inl ⟨⟨y, (hread y).mp h⟩, _, rfl⟩
  | none =>
    refine .inr ⟨?_, rfl⟩
    rintro ⟨y, hy⟩
    rw [(hread y).mpr hy] at h
    cases h

theorem store_cases (hfree : g.has s = false) :
    Allowed s v ∧ (∃ g', g.store s v = .ok g') ∨
      ¬Allowed s v ∧ g.store s v = .error s.refusal := by
  unfold Given.store
  rw [hfree, if_neg Bool.false_ne_true]
  cases s with
  | config => exact take_cases (fun _ => path?_eq_some_iff) _ _
  | interval => exact take_cases (fun _ => halfWord?_eq_some_iff) _ _
  | format => exact take_cases (fun _ => format?_eq_some_iff) _ _
  | deltaRatio | compressRatio => exact take_cases (fun _ => float?_eq_some_iff) _ _
  | newBytes | changedBytes | rate | chunk | volume | pauseSecs =>
    exact take_cases (fun _ => word?_eq_some_iff) _ _

end Settings

end CommandLine

end Headway
