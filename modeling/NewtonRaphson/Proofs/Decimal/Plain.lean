import NewtonRaphson.Proofs.Decimal.Shortest
import NewtonRaphson.Proofs.Double.Identity

/-! # Doubles in plain text

The plain text of a double is a sign and a body: a word for what is no number, and otherwise a
numeral that stands for a number nearer to this double than to any other.

* **`Numeral.Denotes`** — the numbers that stand for a double without its sign.
* **`Numeral.Body`** — the bodies of plain texts, and what they are the bodies of.
* **`Numeral.exists_body`** — every plain text is a sign and a body.
* **`Numeral.ne_of_mem_plain`** — no plain text has a comma or a bracket in it. -/

namespace NewtonRaphson

open Double
open Float.Model.UnpackedFloat

namespace Numeral

/-! ## (1) Numbers -/

/-- A number **denotes** the double with given parts, its sign left aside: it is zero for a zero,
and otherwise in the neighbourhood of the double. -/
def Denotes (b : Binary) (v : ℚ) : Prop :=
  if b.mantissa = 0 then v = 0 else (Decimal.Neighbourhood.ofBinary b).Contains v

/-- Zero is in no neighbourhood. -/
theorem pos_of_contains {b : Binary} (hb : b.mantissa ≠ 0) {v : ℚ}
    (hv : (Decimal.Neighbourhood.ofBinary b).Contains v) : 0 < v := by
  have hlower : 0 < (Decimal.Neighbourhood.ofBinary b).lower := by
    show 0 < if b.mantissa = twoTo 52 ∧ b.exponent ≠ -1074 then 4 * b.mantissa - 1
      else 4 * b.mantissa - 2
    split <;> omega
  have hlower : (0 : ℚ) < (Decimal.Neighbourhood.ofBinary b).lower := by exact_mod_cast hlower
  exact lt_of_lt_of_le (by positivity) hv.bounds.1

/-- The text of the parts of a number without the sign. -/
def magnitudeText (b : Binary) : String :=
  if b.mantissa = 0 then "0.0" else (Decimal.shortest b).plainText

/-- It is a numeral of a number that denotes the double. -/
theorem exists_isNumeral {b : Binary} (hb : IsCanonical b.mantissa b.exponent)
    (hrange : b.exponent ≤ 971) : ∃ v, IsNumeral (magnitudeText b).toList v ∧ Denotes b v := by
  by_cases hzero : b.mantissa = 0
  · simp only [magnitudeText, Denotes, hzero, if_true]
    refine ⟨0, ?_, rfl⟩
    have hvalue : (0 : ℚ) = digitsValue (['0'] ++ ['0']) * 10 ^ (-['0'].length : ℤ) := by
      rw [show digitsValue (['0'] ++ ['0']) = 0 from rfl, Nat.cast_zero, zero_mul]
    rw [hvalue]
    exact .fixed (.point (areDigits_replicate 1) (List.cons_ne_nil _ _) (areDigits_replicate 1))
  · simp only [magnitudeText, Denotes, hzero, if_false]
    obtain ⟨hcontains, hdigits⟩ :=
      Decimal.contains_shortest (Nat.pos_of_ne_zero hzero) hb.size hrange
    exact ⟨_, Decimal.isNumeral_plainText hdigits, hcontains⟩

/-! ## (2) Texts -/

/-- The sign in front of a body. -/
def signText (negative : Bool) : List Char := if negative then ['-'] else []

/-- A text is the **body** of a double with a given sign: a word for the undefined value and for
infinities, and for a number a numeral that denotes it. -/
inductive Body (x : Float) : Bool → List Char → Prop
  | undefined (h : parts x = .notANumber) : Body x false ['n', 'a', 'n']
  | infinite {s : Sign} (h : parts x = .infinity s) : Body x (isNegative s) ['i', 'n', 'f']
  | number {b : Binary} {t : List Char} {v : ℚ} (hb : Binary.ofFloat? x = some b)
      (ht : IsNumeral t v)
    (hv : Denotes b v) : Body x b.negative t

/-- The word of a double that is no number. -/
theorem wordOf?_eq (x : Float) : (parts x = .notANumber → wordOf? x = some "nan") ∧
    ∀ s, parts x = .infinity s → wordOf? x = some (if isNegative s then "-inf" else "inf") := by
  have hnan : x.isNaN = (parts x).isNaN := rfl
  have hfinite : x.isFinite = (parts x).isFinite := rfl
  have hlt : decide (x < 0) = (parts x).lt (.zero .positive) := scalar_lt_eq x 0
  constructor
  · intro h
    rw [wordOf?, hnan, h]
    rfl
  · intro s h
    rw [h] at hnan hfinite hlt
    rw [wordOf?, hnan, hfinite]
    cases s with
    | positive => exact congrArg some (if_neg (of_decide_eq_false hlt))
    | negative => exact congrArg some (if_pos (of_decide_eq_true hlt))

/-- **Every plain text is a sign and a body.** -/
theorem exists_body (x : Float) :
    ∃ negative t, (plain x).toList = signText negative ++ t ∧ Body x negative t := by
  obtain ⟨hundefined, hinfinite⟩ := wordOf?_eq x
  rcases hx : Binary.ofFloat? x with _ | b
  · have htext : plain x = (wordOf? x).getD "" := by
      unfold plain textWith
      rw [hx]
    rcases parts_of_ofFloat?_none hx with hparts | ⟨s, hparts⟩
    · refine ⟨false, _, ?_, .undefined hparts⟩
      rw [htext, hundefined hparts]
      rfl
    · refine ⟨isNegative s, _, ?_, .infinite hparts⟩
      rw [htext, hinfinite s hparts]
      cases s <;> rfl
  · have htext : plain x = (if b.negative then "-" else "") ++ magnitudeText b := by
      unfold plain textWith
      rw [hx]
      rfl
    obtain ⟨hcanonical, hrange⟩ := isCanonical_of_ofFloat? hx
    obtain ⟨v, hnumeral, hv⟩ := exists_isNumeral hcanonical hrange
    refine ⟨b.negative, _, ?_, .number hx hnumeral hv⟩
    rw [htext, String.toList_append]
    cases b.negative <;> rfl

/-- **No plain text has a comma or a bracket in it.** -/
theorem ne_of_mem_plain {x : Float} {c : Char} (hc : c ∈ (plain x).toList) : c ≠ ',' ∧ c ≠ ']' := by
  obtain ⟨n, t, htext, hbody⟩ := exists_body x
  have hsign : ∀ c ∈ signText n, c ≠ ',' ∧ c ≠ ']' := by cases n <;> simp [signText]
  have hletters : ∀ c ∈ t, c ≠ ',' ∧ c ≠ ']' := by
    cases hbody with
    | undefined | infinite => simp
    | number _ hnumeral =>
      intro c hc
      have hmark : ∀ c ∈ ['.', 'e', '+', '-'], c ≠ ',' ∧ c ≠ ']' := by simp
      rcases hnumeral.isDigit_or_mem c hc with hdigit | hmem
      · exact ⟨fun h => absurd (h ▸ hdigit) (by decide), fun h => absurd (h ▸ hdigit) (by decide)⟩
      · exact hmark c hmem
  rw [htext, List.mem_append] at hc
  exact hc.elim (hsign c) (hletters c)

end Numeral

end NewtonRaphson
