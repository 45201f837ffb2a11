import Mathlib.Data.List.Basic

namespace Utf8

/-! # Lossy decoding of UTF-8

A text that is not UTF-8 is decoded with a replacement character for each longest part
that starts a character and does not go on with it.
-/

def replacement : Char := Char.ofNat 0xFFFD

/-- A byte that goes on with a character. -/
def continues (byte : UInt8) : Bool := 0x80 ≤ byte.toNat && byte.toNat ≤ 0xBF

/-- A byte that may be the second one of a character of three or four. It is neither
overlong nor that of a surrogate or beyond the last character. -/
def second (byte next : UInt8) : Bool :=
  if byte.toNat = 0xE0 then 0xA0 ≤ next.toNat && next.toNat ≤ 0xBF
  else if byte.toNat = 0xED then 0x80 ≤ next.toNat && next.toNat ≤ 0x9F
  else if byte.toNat = 0xF0 then 0x90 ≤ next.toNat && next.toNat ≤ 0xBF
  else if byte.toNat = 0xF4 then 0x80 ≤ next.toNat && next.toNat ≤ 0x8F
  else continues next

/-- The bits of a byte that goes on with a character, after those before it. -/
def append (bits : Nat) (byte : UInt8) : Nat := bits * 64 + byte.toNat % 64

/-- The first character of a text and how many bytes after the first one it takes. Past
the end there are zeros. -/
def first (byte : UInt8) (rest : List UInt8) : Char × Nat :=
  let b₁ := rest.getD 0 0
  let b₂ := rest.getD 1 0
  let b₃ := rest.getD 2 0
  if byte.toNat < 0x80 then (Char.ofNat byte.toNat, 0)
  else if 0xC2 ≤ byte.toNat ∧ byte.toNat ≤ 0xDF then
    if continues b₁ then (Char.ofNat (append (byte.toNat % 32) b₁), 1) else (replacement, 0)
  else if 0xE0 ≤ byte.toNat ∧ byte.toNat ≤ 0xEF then
    if ¬ second byte b₁ then (replacement, 0)
    else if ¬ continues b₂ then (replacement, 1)
    else (Char.ofNat (append (append (byte.toNat % 16) b₁) b₂), 2)
  else if 0xF0 ≤ byte.toNat ∧ byte.toNat ≤ 0xF4 then
    if ¬ second byte b₁ then (replacement, 0)
    else if ¬ continues b₂ then (replacement, 1)
    else if ¬ continues b₃ then (replacement, 2)
    else (Char.ofNat (append (append (append (byte.toNat % 8) b₁) b₂) b₃), 3)
  else (replacement, 0)

def lossy : List UInt8 → List Char
  | [] => []
  | byte :: rest => (first byte rest).1 :: lossy (rest.drop (first byte rest).2)
termination_by bytes => bytes.length
decreasing_by
  simp only [List.length_cons, List.length_drop]
  omega

/-! ## Texts that are UTF-8 -/

theorem toNat_ofNat {n : Nat} (byte : n < 256) : (UInt8.ofNat n).toNat = n :=
  UInt8.toNat_ofNat_of_lt' byte

theorem continues_ofNat (n : Nat) : continues (UInt8.ofNat (n % 64 + 128)) = true := by
  rw [continues, toNat_ofNat (by omega)]
  simp only [Bool.and_eq_true, decide_eq_true_eq]
  omega

theorem append_ofNat (bits n : Nat) : append bits (UInt8.ofNat (n % 64 + 128)) = bits * 64 + n % 64 := by
  rw [append, toNat_ofNat (by omega)]
  omega

/-! The four lengths of an encoding. The second byte of a longer one is in range where the
character is neither one that has a shorter encoding nor a surrogate. -/

section Lengths

variable {n : Nat} (more : List UInt8)

theorem first_one (high : n ≤ 0x7F) : first (UInt8.ofNat n) more = (Char.ofNat n, 0) := by
  have byte : (UInt8.ofNat n).toNat = n := toNat_ofNat (by omega)
  simp only [first, byte, show n < 0x80 by omega, if_true]

theorem first_two (low : 0x7F < n) (high : n ≤ 0x7FF) :
    first (UInt8.ofNat (n / 64 % 32 + 192)) (UInt8.ofNat (n % 64 + 128) :: more) =
      (Char.ofNat n, 1) := by
  have byte : (UInt8.ofNat (n / 64 % 32 + 192)).toNat = n / 64 % 32 + 192 := toNat_ofNat (by omega)
  have start : ¬ n / 64 % 32 + 192 < 0x80 := by omega
  have two : 0xC2 ≤ n / 64 % 32 + 192 ∧ n / 64 % 32 + 192 ≤ 0xDF := by omega
  have whole : (n / 64 % 32 + 192) % 32 * 64 + n % 64 = n := by omega
  simp only [first, byte, start, two, if_false, List.getD_cons_zero, continues_ofNat, append_ofNat,
    whole]
  rfl

theorem second_three (low : 0x7FF < n) (high : n ≤ 0xFFFF) (valid : n < 0xD800 ∨ 0xDFFF < n) :
    second (UInt8.ofNat (n / 4096 % 16 + 224)) (UInt8.ofNat (n / 64 % 64 + 128)) = true := by
  have byte : (UInt8.ofNat (n / 4096 % 16 + 224)).toNat = n / 4096 % 16 + 224 :=
    toNat_ofNat (by omega)
  have next : (UInt8.ofNat (n / 64 % 64 + 128)).toNat = n / 64 % 64 + 128 := toNat_ofNat (by omega)
  simp only [second, byte, next, continues_ofNat]
  split
  · simp only [Bool.and_eq_true, decide_eq_true_eq]
    omega
  · split
    · simp only [Bool.and_eq_true, decide_eq_true_eq]
      omega
    · simp only [show ¬ n / 4096 % 16 + 224 = 0xF0 by omega,
        show ¬ n / 4096 % 16 + 224 = 0xF4 by omega, if_false]

theorem first_three (low : 0x7FF < n) (high : n ≤ 0xFFFF) (valid : n < 0xD800 ∨ 0xDFFF < n) :
    first (UInt8.ofNat (n / 4096 % 16 + 224))
        (UInt8.ofNat (n / 64 % 64 + 128) :: UInt8.ofNat (n % 64 + 128) :: more) =
      (Char.ofNat n, 2) := by
  have byte : (UInt8.ofNat (n / 4096 % 16 + 224)).toNat = n / 4096 % 16 + 224 :=
    toNat_ofNat (by omega)
  have start : ¬ n / 4096 % 16 + 224 < 0x80 := by omega
  have two : ¬ (0xC2 ≤ n / 4096 % 16 + 224 ∧ n / 4096 % 16 + 224 ≤ 0xDF) := by omega
  have three : 0xE0 ≤ n / 4096 % 16 + 224 ∧ n / 4096 % 16 + 224 ≤ 0xEF := by omega
  have whole : ((n / 4096 % 16 + 224) % 16 * 64 + n / 64 % 64) * 64 + n % 64 = n := by omega
  simp only [first, byte, start, two, three, if_false, List.getD_cons_zero, List.getD_cons_succ,
    second_three low high valid, continues_ofNat, append_ofNat, whole]
  rfl

theorem second_four (low : 0xFFFF < n) (high : n < 0x110000) :
    second (UInt8.ofNat (n / 262144 % 8 + 240)) (UInt8.ofNat (n / 4096 % 64 + 128)) = true := by
  have byte : (UInt8.ofNat (n / 262144 % 8 + 240)).toNat = n / 262144 % 8 + 240 :=
    toNat_ofNat (by omega)
  have next : (UInt8.ofNat (n / 4096 % 64 + 128)).toNat = n / 4096 % 64 + 128 :=
    toNat_ofNat (by omega)
  simp only [second, byte, next, continues_ofNat, show ¬ n / 262144 % 8 + 240 = 0xE0 by omega,
    show ¬ n / 262144 % 8 + 240 = 0xED by omega, if_false]
  split
  · simp only [Bool.and_eq_true, decide_eq_true_eq]
    omega
  · split
    · simp only [Bool.and_eq_true, decide_eq_true_eq]
      omega
    · rfl

theorem first_four (low : 0xFFFF < n) (high : n < 0x110000) :
    first (UInt8.ofNat (n / 262144 % 8 + 240)) (UInt8.ofNat (n / 4096 % 64 + 128) ::
        UInt8.ofNat (n / 64 % 64 + 128) :: UInt8.ofNat (n % 64 + 128) :: more) =
      (Char.ofNat n, 3) := by
  have byte : (UInt8.ofNat (n / 262144 % 8 + 240)).toNat = n / 262144 % 8 + 240 :=
    toNat_ofNat (by omega)
  have start : ¬ n / 262144 % 8 + 240 < 0x80 := by omega
  have two : ¬ (0xC2 ≤ n / 262144 % 8 + 240 ∧ n / 262144 % 8 + 240 ≤ 0xDF) := by omega
  have three : ¬ (0xE0 ≤ n / 262144 % 8 + 240 ∧ n / 262144 % 8 + 240 ≤ 0xEF) := by omega
  have four : 0xF0 ≤ n / 262144 % 8 + 240 ∧ n / 262144 % 8 + 240 ≤ 0xF4 := by omega
  have whole : (((n / 262144 % 8 + 240) % 8 * 64 + n / 4096 % 64) * 64 + n / 64 % 64) * 64 +
      n % 64 = n := by omega
  simp only [first, byte, start, two, three, four, if_false, List.getD_cons_zero,
    List.getD_cons_succ, second_four low high, continues_ofNat, append_ofNat, whole]
  rfl

end Lengths

/-- A character is the first one of any text that starts with its bytes. -/
theorem first_utf8EncodeChar (c : Char) : ∃ byte tail, String.utf8EncodeChar c = byte :: tail ∧
    ∀ more, first byte (tail ++ more) = (c, tail.length) := by
  have same : Char.ofNat c.val.toNat = c := Char.ofNat_toNat c
  have valid : c.val.toNat < 0xD800 ∨ 0xDFFF < c.val.toNat ∧ c.val.toNat < 0x110000 := c.valid
  by_cases one : c.val.toNat ≤ 0x7F
  · simp only [String.utf8EncodeChar, one, if_true]
    refine ⟨_, _, rfl, fun more => ?_⟩
    rw [List.nil_append, first_one more one, same]
    rfl
  · by_cases two : c.val.toNat ≤ 0x7FF
    · simp only [String.utf8EncodeChar, one, two, if_true, if_false]
      refine ⟨_, _, rfl, fun more => ?_⟩
      rw [List.singleton_append, first_two more (by omega) two, same]
      rfl
    · by_cases three : c.val.toNat ≤ 0xFFFF
      · simp only [String.utf8EncodeChar, one, two, three, if_true, if_false]
        refine ⟨_, _, rfl, fun more => ?_⟩
        rw [List.cons_append, List.singleton_append,
          first_three more (by omega) three (valid.imp_right And.left), same]
        rfl
      · simp only [String.utf8EncodeChar, one, two, three, if_false]
        refine ⟨_, _, rfl, fun more => ?_⟩
        rw [List.cons_append, List.cons_append, List.singleton_append,
          first_four more (by omega) (by omega), same]
        rfl

/-- What is UTF-8 is decoded. -/
theorem lossy_utf8 (text : List Char) : lossy (text.flatMap String.utf8EncodeChar) = text := by
  induction text with
  | nil => simp [lossy]
  | cons c text ih =>
      obtain ⟨byte, tail, encoded, decoded⟩ := first_utf8EncodeChar c
      rw [List.flatMap_cons, encoded, List.cons_append, lossy, decoded, List.drop_left, ih]

end Utf8
