import LServer.Basic
import Mathlib.Tactic.Linarith
import Mathlib.Tactic.Ring

set_option autoImplicit false

namespace LServer

def isSpace (b : UInt8) : Bool := b.toNat == 32 || (9 ≤ b.toNat && b.toNat ≤ 13)

def isDigit (b : UInt8) : Bool := 48 ≤ b.toNat && b.toNat ≤ 57

def digitsValue (ds : Bytes) : Nat := ds.foldl (fun v d => 10 * v + (d.toNat - 48)) 0

def takeSign : Bytes → Bool × Bytes
  | 43 :: r => (false, r)
  | 45 :: r => (true, r)
  | r => (false, r)

/-- `std::stoul(s)`, base 10, with a 64-bit `unsigned long`. -/
def stoul (s : Bytes) : Option Nat :=
  let (neg, t) := takeSign (s.dropWhile isSpace)
  let ds := t.takeWhile isDigit
  if ds.isEmpty || 2 ^ 64 ≤ digitsValue ds then none
  else some (if neg then (2 ^ 64 - digitsValue ds) % 2 ^ 64 else digitsValue ds)

def decimalAux : Nat → Nat → Bytes → Bytes
  | 0, _, acc => acc
  | fuel + 1, n, acc =>
    if n / 10 = 0 then (48 + n % 10).toUInt8 :: acc
    else decimalAux fuel (n / 10) ((48 + n % 10).toUInt8 :: acc)

def decimal (n : Nat) : Bytes := decimalAux (n + 1) n []

theorem digitsValue_append_aux (v : Nat) (b : Bytes) :
    b.foldl (fun v d => 10 * v + (d.toNat - 48)) v = v * 10 ^ b.length + digitsValue b := by
  induction b generalizing v with
  | nil => simp [digitsValue]
  | cons d b ih =>
    simp only [List.foldl_cons, digitsValue, List.length_cons] at ih ⊢
    rw [ih, ih (10 * 0 + _)]
    ring

theorem digitsValue_append (a b : Bytes) :
    digitsValue (a ++ b) = digitsValue a * 10 ^ b.length + digitsValue b := by
  rw [digitsValue, List.foldl_append, digitsValue_append_aux]
  rfl

theorem digit_toNat {n : Nat} (h : n < 10) : ((48 + n).toUInt8).toNat = 48 + n :=
  UInt8.toNat_ofNat_of_lt (by unfold UInt8.size; omega)

theorem digitsValue_decimalAux (fuel n : Nat) (acc : Bytes) (h : n < 10 ^ fuel) :
    digitsValue (decimalAux fuel n acc) = n * 10 ^ acc.length + digitsValue acc := by
  induction fuel generalizing n acc with
  | zero =>
    obtain rfl : n = 0 := by simpa using h
    simp [decimalAux]
  | succ fuel ih =>
    have hd := digit_toNat (Nat.mod_lt n (by norm_num : 10 > 0))
    have hcons : digitsValue ((48 + n % 10).toUInt8 :: acc) =
        n % 10 * 10 ^ acc.length + digitsValue acc := by
      rw [← List.singleton_append, digitsValue_append]
      simp [digitsValue, hd]
    unfold decimalAux
    split
    · rw [hcons]
      congr 2
      omega
    · rw [ih _ _ (by rw [pow_succ] at h; omega), hcons, List.length_cons, pow_succ]
      conv_rhs => rw [← Nat.div_add_mod n 10]
      ring

theorem lt_ten_pow_succ (n : Nat) : n < 10 ^ (n + 1) := by
  induction n with
  | zero => norm_num
  | succ n ih => rw [pow_succ]; omega

@[simp] theorem digitsValue_decimal (n : Nat) : digitsValue (decimal n) = n := by
  simpa [decimal, digitsValue] using digitsValue_decimalAux (n + 1) n [] (lt_ten_pow_succ n)

theorem decimalAux_length_le (fuel : Nat) {n k : Nat} (acc : Bytes) (hk : 0 < k)
    (h : n < 10 ^ k) : (decimalAux fuel n acc).length ≤ k + acc.length := by
  induction fuel generalizing n k acc with
  | zero => simp [decimalAux]
  | succ fuel ih =>
    unfold decimalAux
    split
    · simp only [List.length_cons]; omega
    · obtain ⟨k, rfl⟩ : ∃ k', k = k' + 1 := ⟨k - 1, by omega⟩
      have hk : 0 < k := Nat.pos_of_ne_zero fun h0 => by subst h0; omega
      have hdiv : n / 10 < 10 ^ k := Nat.div_lt_of_lt_mul (by rw [← pow_succ']; exact h)
      have := ih ((48 + n % 10).toUInt8 :: acc) hk hdiv
      simp only [List.length_cons] at this
      omega

theorem decimal_length_le {n k : Nat} (hk : 0 < k) (h : n < 10 ^ k) : (decimal n).length ≤ k :=
  decimalAux_length_le _ [] hk h

theorem decimal_injective {m n : Nat} (h : decimal m = decimal n) : m = n := by
  rw [← digitsValue_decimal m, h, digitsValue_decimal]

theorem decimalAux_digits (fuel n : Nat) (acc : Bytes) (hacc : ∀ b ∈ acc, isDigit b) :
    ∀ b ∈ decimalAux fuel n acc, isDigit b := by
  induction fuel generalizing n acc with
  | zero => simpa [decimalAux] using hacc
  | succ fuel ih =>
    have hd : isDigit (48 + n % 10).toUInt8 := by
      have h := digit_toNat (Nat.mod_lt n (by norm_num : 10 > 0))
      simp only [isDigit, h, Bool.and_eq_true, decide_eq_true_eq]
      omega
    unfold decimalAux
    split
    · simpa [hd] using hacc
    · exact ih _ _ (by simpa [hd] using hacc)

theorem decimal_digits (n : Nat) : ∀ b ∈ decimal n, isDigit b :=
  decimalAux_digits _ _ _ (by simp)

theorem decimalAux_ne_nil (fuel n : Nat) (acc : Bytes) (h : acc ≠ []) :
    decimalAux fuel n acc ≠ [] := by
  induction fuel generalizing n acc with
  | zero => exact h
  | succ fuel ih => unfold decimalAux; split <;> simp [ih]

theorem decimal_ne_nil (n : Nat) : decimal n ≠ [] := by
  unfold decimal decimalAux
  split <;> simp [decimalAux_ne_nil]

theorem isDigit_not_space {b : UInt8} (h : isDigit b) : isSpace b = false := by
  simp only [isDigit, Bool.and_eq_true, decide_eq_true_eq] at h
  simp only [isSpace, Bool.or_eq_false_iff, beq_eq_false_iff_ne, ne_eq, Bool.and_eq_false_imp,
    decide_eq_true_eq, decide_eq_false_iff_not, Nat.not_le]
  omega

theorem isDigit_ne_newline {b : UInt8} (h : isDigit b) : b ≠ 10 := by
  rintro rfl
  exact absurd h (by decide)

theorem stoul_digits {ds : Bytes} (hd : ∀ b ∈ ds, isDigit b) (hne : ds ≠ []) :
    stoul ds = if digitsValue ds < 2 ^ 64 then some (digitsValue ds) else none := by
  obtain ⟨d, rest, rfl⟩ := List.exists_cons_of_ne_nil hne
  have hd0 : isDigit d := hd d (by simp)
  have hsign : takeSign (d :: rest) = (false, d :: rest) := by
    have h43 : d ≠ 43 := by rintro rfl; exact absurd hd0 (by decide)
    have h45 : d ≠ 45 := by rintro rfl; exact absurd hd0 (by decide)
    unfold takeSign
    split <;> simp_all
  have hdrop : (d :: rest).dropWhile isSpace = d :: rest := by
    simp [List.dropWhile, isDigit_not_space hd0]
  have htake : (d :: rest).takeWhile isDigit = d :: rest := List.takeWhile_eq_self_iff.mpr hd
  simp only [stoul, hdrop, hsign, htake, List.isEmpty_cons, Bool.false_or, decide_eq_true_eq,
    Bool.false_eq_true, if_false]
  split_ifs <;> first | rfl | omega

theorem stoul_decimal {n : Nat} (hn : n < 2 ^ 64) : stoul (decimal n) = some n := by
  rw [stoul_digits (decimal_digits n) (decimal_ne_nil n), digitsValue_decimal, if_pos hn]

end LServer
