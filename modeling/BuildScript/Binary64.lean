/-!
# Numbers of 64 binary digits

A number with a fraction is kept in 64 binary digits: a sign, a significand of up to 53 digits and
an exponent. A ratio that has no such form is rounded to the nearest one that has, and to the one
with the even significand if two are equally near. What is too large becomes infinite.

Results:
* `two_mul_roundRatio_le`, `le_two_mul_roundRatio`: a ratio is rounded by at most one half.
-/
namespace BuildScript

/-- A number kept in 64 binary digits. -/
inductive Binary64 where
  /-- `significand * 2 ^ exponent`, with a sign. -/
  | finite (negative : Bool) (significand : Nat) (exponent : Int)
  | infinite (negative : Bool)
  /-- What is not a number. -/
  | undefined
deriving DecidableEq, Repr

namespace Binary64

/-- The whole number nearest to a ratio, the even one if two are equally near. -/
def roundRatio (num den : Nat) : Nat :=
  let whole := num / den
  let left := num % den
  if den < 2 * left ∨ (2 * left = den ∧ whole % 2 = 1) then whole + 1 else whole

theorem two_mul_roundRatio_le (num den : Nat) :
    2 * (den * roundRatio num den) ≤ 2 * num + den := by
  have h := Nat.div_add_mod num den
  unfold roundRatio
  dsimp only
  split
  · rw [Nat.mul_add, Nat.mul_one]; omega
  · omega

theorem le_two_mul_roundRatio (num den : Nat) (hden : 0 < den) :
    2 * num ≤ 2 * (den * roundRatio num den) + den := by
  have h := Nat.div_add_mod num den
  have hlt := Nat.mod_lt num hden
  unfold roundRatio
  dsimp only
  split
  · rw [Nat.mul_add, Nat.mul_one]; omega
  · omega

/-- A ratio divided by a power of two. -/
def scaled (num den : Nat) (exponent : Int) : Nat × Nat :=
  if 0 ≤ exponent then (num, den * Nat.pow 2 exponent.toNat)
  else (num * Nat.pow 2 (-exponent).toNat, den)

/-- The exponent of the last binary digit that is kept of a ratio. -/
def lastDigit (num den : Nat) : Int :=
  let estimate : Int := (num.log2 : Int) - den.log2
  let (num, den) := scaled num den estimate
  let first := if num < den then estimate - 1 else estimate
  max (first - 52) (-1074)

/-- The number nearest to a ratio. -/
def ofRatio (negative : Bool) (num den : Nat) : Binary64 :=
  let exponent := lastDigit num den
  let (num, den) := scaled num den exponent
  let significand := roundRatio num den
  if 0 ≤ exponent ∧ Nat.pow 2 1024 ≤ significand * Nat.pow 2 exponent.toNat then infinite negative
  else finite negative significand exponent

/-- The number nearest to `digits * 10 ^ exponent`. What is far out of reach is not computed. -/
def ofDecimal (negative : Bool) (digits : Nat) (exponent : Int) : Binary64 :=
  let magnitude := ((Nat.toDigits 10 digits).length : Int) + exponent
  if digits = 0 ∨ magnitude < -400 then finite negative 0 0
  else if 400 < magnitude then infinite negative
  else if 0 ≤ exponent then ofRatio negative (digits * Nat.pow 10 exponent.toNat) 1
  else ofRatio negative digits (Nat.pow 10 (-exponent).toNat)

def isZero : Binary64 → Bool
  | finite _ significand _ => significand = 0
  | _ => false

/-- The whole number that a number is, if it is one. -/
def whole? : Binary64 → Option Int
  | finite negative significand exponent =>
    let (num, den) := scaled significand 1 (-exponent)
    if num % den = 0 then
      let whole : Int := ↑(num / den)
      some (if negative then -whole else whole)
    else none
  | _ => none

end Binary64

end BuildScript
