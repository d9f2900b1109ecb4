/-
Do sizes wrap?

Neither reader of sizes looks at the range of its product. The count of
`string2size` is the number, or the greatest one of 64 bits, so what it
returns is exact if and only if the size has 64 bits
(`string2size_exact_iff`); it never throws for a unit of its table. The
scheduler's conversion throws for a count of more than 63 bits, and of the
counts below that the product wraps (`schedulerGroupSize_exact_iff`).
-/
import BigDataExpress.Utils.Size

namespace BigDataExpress

open Text
open GridMapfile (isspace)

-- ============================================================== numerals

/-- Digits, at least one and any number of them. -/
structure Numeral where
  digits : Chars
  ne_nil : digits ≠ []
  isDigit : ∀ c ∈ digits, c.isDigit = true

namespace Numeral

def value (n : Numeral) : Nat := numberOf n.digits

/-- What can stand behind a numeral: it does not go on with a digit. -/
def Ends (rest : Chars) : Prop := ∀ c, rest.head? = some c → c.isDigit = false

theorem isspace_digit {c : Char} (h : c.isDigit = true) :
    isspace c = false := by
  unfold isspace
  apply decide_eq_false
  intro hmem
  simp only [List.mem_cons, List.not_mem_nil, or_false] at hmem
  rcases hmem with rfl | rfl | rfl | rfl | rfl | rfl <;> cases h

theorem takeWhile_digits {n : Numeral} {rest : Chars} (h : Ends rest) :
    (n.digits ++ rest).takeWhile Char.isDigit = n.digits
      ∧ (n.digits ++ rest).dropWhile Char.isDigit = rest := by
  have hrest : rest.takeWhile Char.isDigit = []
      ∧ rest.dropWhile Char.isDigit = rest := by
    cases rest with
    | nil => exact ⟨rfl, rfl⟩
    | cons c rest =>
        have hc := h c rfl
        simp [hc]
  rw [List.takeWhile_append_of_pos n.isDigit,
    List.dropWhile_append_of_pos n.isDigit, hrest.1, hrest.2,
    List.append_nil]
  exact ⟨rfl, rfl⟩

theorem exists_head (n : Numeral) :
    ∃ c cs, n.digits = c :: cs ∧ c.isDigit = true := by
  obtain ⟨c, cs, hcs⟩ := List.exists_cons_of_ne_nil n.ne_nil
  exact ⟨c, cs, hcs, n.isDigit c (hcs ▸ List.mem_cons_self ..)⟩

/-- A numeral is scanned as its digits, without a sign. -/
theorem scanInteger_eq (n : Numeral) {rest : Chars} (h : Ends rest) :
    scanInteger (n.digits ++ rest) = some (false, n.digits, rest) := by
  obtain ⟨c, cs, hcs, hc⟩ := n.exists_head
  have hspace : (n.digits ++ rest).dropWhile isspace = n.digits ++ rest := by
    rw [hcs, List.cons_append]
    apply List.dropWhile_cons_of_neg
    simp [isspace_digit hc]
  have hsign : scanSign (n.digits ++ rest) = (false, n.digits ++ rest) := by
    rw [hcs, List.cons_append]
    unfold scanSign
    split
    · rename_i heq
      injection heq with heq _
      subst heq
      cases hc
    · rename_i heq
      injection heq with heq _
      subst heq
      cases hc
    · rfl
  unfold scanInteger
  rw [hspace, hsign]
  simp only [takeWhile_digits h, if_neg n.ne_nil]

/-- No digit is the zero character. -/
theorem zero_not_mem (n : Numeral) : '\x00' ∉ n.digits := by
  intro h
  have hdigit := n.isDigit _ h
  cases hdigit

end Numeral

theorem cString_eq {str : Chars} (h : '\x00' ∉ str) : cString str = str := by
  unfold cString
  rw [List.takeWhile_eq_self_iff]
  intro c hc
  simp only [decide_eq_true_eq]
  intro heq
  exact h (heq ▸ hc)

-- ================================================================= units

/-- A unit of the table of `string2size`, or none. -/
structure SizeUnit where
  name : Chars
  factor : Nat
  mem : (name, factor) ∈ ([], 1) :: sizeUnits

/-- The units are words that can stand behind a number, and the table has
each of them once. -/
theorem sizeUnits_spec : ∀ u ∈ ([], 1) :: sizeUnits,
    0 < u.2 ∧ u.2 < 2 ^ 64 ∧ u.1.length < bufsiz ∧ '\x00' ∉ u.1
      ∧ scanWord u.1 = u.1 ∧ u.1.head?.all (fun c => !c.isDigit) = true
      ∧ sizeUnits.lookup u.1 = if u.1 = [] then none else some u.2 := by
  decide +kernel

theorem SizeUnit.ends (u : SizeUnit) : Numeral.Ends u.name := by
  obtain ⟨_, _, _, _, _, hhead, _⟩ := sizeUnits_spec _ u.mem
  intro c hc
  rw [hc] at hhead
  simpa using hhead

/-- A unit of the scheduler: a letter, and any character behind it. -/
structure GroupUnit where
  letter : Char
  next : Char
  factor : Nat
  known : groupUnit letter = some factor

theorem GroupUnit.factor_range (u : GroupUnit) :
    0 < u.factor ∧ u.factor < 2 ^ 64 := by
  have h := u.known
  unfold groupUnit at h
  split_ifs at h <;> (injection h with h; omega)

-- ============================================================== products

/-- The size is returned, or there is an error. -/
def SizeEnd.Exact (n : Nat) : SizeEnd → Prop
  | .size m => m.toNat = n
  | .thrown _ => True
  | .undefined => False

/-- A count that is cut off at the greatest number makes no size that
fits. -/
theorem product_exact_iff {n u : Nat} (hu : 0 < u) (hfits : u < 2 ^ 64)
    {m : UInt64} (hm : m.toNat = min n (2 ^ 64 - 1)) :
    (m * UInt64.ofNat u).toNat = n * u ↔ n * u < 2 ^ 64 := by
  have hof : (UInt64.ofNat u).toNat = u := UInt64.toNat_ofNat_of_lt' hfits
  rw [UInt64.toNat_mul, hof, hm]
  constructor
  · intro h
    rw [← h]
    exact Nat.mod_lt _ (by omega)
  · intro h
    have hn : n ≤ n * u := Nat.le_mul_of_pos_right n hu
    rw [Nat.min_eq_left (by omega)]
    exact Nat.mod_eq_of_lt h

theorem scannedSize_toNat (digits : Chars) :
    (scannedSize false digits).toNat = min (numberOf digits) (2 ^ 64 - 1) := by
  unfold scannedSize
  dsimp only
  split
  · rename_i h
    rw [UInt64.toNat_ofNat_of_lt' (by decide)]
    omega
  · rename_i h
    rw [if_neg Bool.false_ne_true,
      UInt64.toNat_ofNat_of_lt' (show numberOf digits < 2 ^ 64 by omega)]
    omega

/-- `string2size` of a number and a unit. -/
theorem string2size_eq (n : Numeral) (u : SizeUnit) :
    string2size (n.digits ++ u.name)
      = .size (scannedSize false n.digits * UInt64.ofNat u.factor) := by
  obtain ⟨_, _, hlen, hzero, hword, _, hlookup⟩ := sizeUnits_spec _ u.mem
  have hstr : cString (n.digits ++ u.name) = n.digits ++ u.name := by
    apply cString_eq
    rw [List.mem_append, not_or]
    exact ⟨n.zero_not_mem, hzero⟩
  have hscan : sscanfSize (n.digits ++ u.name)
      = (scannedSize false n.digits, u.name) := by
    unfold sscanfSize
    rw [hstr, n.scanInteger_eq u.ends]
    dsimp only
    rw [hword]
  unfold string2size
  rw [hscan]
  dsimp only
  rw [if_neg (Nat.not_le.mpr hlen), hlookup]
  by_cases hnil : u.name = []
  · have hone : u.factor = 1 := by
      have hmem := u.mem
      rw [hnil] at hmem
      have hnone : ([] : Chars) ∉ sizeUnits.map Prod.fst := by decide
      rcases List.mem_cons.mp hmem with heq | hin
      · injection heq
      · exact absurd (List.mem_map_of_mem hin) hnone
    rw [if_pos hnil, hone]
    simp [hnil]
  · rw [if_neg hnil]

theorem string2size_exact_iff (n : Numeral) (u : SizeUnit) :
    (string2size (n.digits ++ u.name)).Exact (n.value * u.factor)
      ↔ n.value * u.factor < 2 ^ 64 := by
  obtain ⟨hpos, hfits, _⟩ := sizeUnits_spec _ u.mem
  rw [string2size_eq]
  exact product_exact_iff hpos hfits (scannedSize_toNat n.digits)

theorem stoll_eq (n : Numeral) :
    stoll n.digits
      = if n.value < 2 ^ 63 then .ok (n.value : Int) else .error "stoll" := by
  have hscan : scanInteger (n.digits ++ []) = some (false, n.digits, []) :=
    n.scanInteger_eq nofun
  rw [List.append_nil] at hscan
  unfold stoll
  rw [cString_eq n.zero_not_mem, hscan]
  simp only [Bool.false_eq_true, if_false]
  by_cases h : n.value < 2 ^ 63
  · unfold Numeral.value at h ⊢
    rw [if_pos h, if_pos (by omega)]
    rfl
  · unfold Numeral.value at h ⊢
    rw [if_neg h, if_neg (by omega)]
    rfl

theorem schedulerGroupSize_eq (n : Numeral) (u : GroupUnit) :
    schedulerGroupSize (n.digits ++ [u.letter, u.next])
      = if n.value < 2 ^ 63 then
          .size (UInt64.ofNat n.value * UInt64.ofNat u.factor)
        else .thrown "stoll" := by
  have hlen : (n.digits ++ [u.letter, u.next]).length - 2
      = n.digits.length := by simp
  unfold schedulerGroupSize
  rw [if_neg (by simp), hlen]
  simp only [List.take_left, List.drop_left, stoll_eq]
  by_cases h : n.value < 2 ^ 63
  · have hknown : [u.letter, u.next].head?.bind groupUnit = some u.factor :=
      u.known
    have hnum : UInt64.ofInt (n.value : Int) = UInt64.ofNat n.value := by
      unfold UInt64.ofInt
      congr 1
      omega
    simp only [if_pos h, hknown, hnum]
  · simp only [if_neg h]

theorem schedulerGroupSize_exact_iff (n : Numeral) (u : GroupUnit) :
    (schedulerGroupSize (n.digits ++ [u.letter, u.next])).Exact
        (n.value * u.factor)
      ↔ n.value * u.factor < 2 ^ 64 ∨ 2 ^ 63 ≤ n.value := by
  obtain ⟨hpos, hfits⟩ := u.factor_range
  rw [schedulerGroupSize_eq]
  by_cases h : n.value < 2 ^ 63
  · have hm : (UInt64.ofNat n.value).toNat = min n.value (2 ^ 64 - 1) := by
      rw [UInt64.toNat_ofNat_of_lt' (show n.value < 2 ^ 64 by omega)]
      omega
    rw [if_pos h, or_iff_left (by omega)]
    exact product_exact_iff hpos hfits hm
  · rw [if_neg h]
    exact iff_of_true trivial (.inr (by omega))

/-- Sizes are exact, or an error, if they have 64 bits, and the group size
also if its count has more than 63. -/
theorem sizes_exact_iff (n : Numeral) :
    (∀ u : SizeUnit, (string2size (n.digits ++ u.name)).Exact
        (n.value * u.factor) ↔ n.value * u.factor < 2 ^ 64)
      ∧ ∀ u : GroupUnit,
        (schedulerGroupSize (n.digits ++ [u.letter, u.next])).Exact
          (n.value * u.factor)
        ↔ n.value * u.factor < 2 ^ 64 ∨ 2 ^ 63 ≤ n.value :=
  ⟨string2size_exact_iff n, schedulerGroupSize_exact_iff n⟩

/-- A count of petabytes. -/
def petabytes : Numeral where
  digits := "18447".toList
  ne_nil := by decide
  isDigit := List.all_eq_true.mp (by decide +kernel)

/-- A count of binary terabytes. -/
def tebibytes : Numeral where
  digits := "16777216".toList
  ne_nil := by decide
  isDigit := List.all_eq_true.mp (by decide +kernel)

/-- 18447 petabytes are taken for less than one, and 2 ^ 24 binary
terabytes for nothing. -/
theorem sizes_wrap :
    (¬ ∀ (n : Numeral) (u : SizeUnit), (string2size (n.digits ++ u.name)).Exact
        (n.value * u.factor))
      ∧ ¬ ∀ (n : Numeral) (u : GroupUnit),
        (schedulerGroupSize (n.digits ++ [u.letter, u.next])).Exact
          (n.value * u.factor) := by
  refine ⟨?_, ?_⟩
  · intro h
    have hsize := h petabytes ⟨"PB".toList, 10 ^ 15, by decide⟩
    have hwrapped : string2size (petabytes.digits ++ "PB".toList)
        = .size 255926290448384 := by decide +kernel
    have hvalue : petabytes.value = 18447 := by decide +kernel
    rw [hwrapped, hvalue] at hsize
    exact absurd hsize (show ¬ (_ = _) by decide)
  · intro h
    have hsize := h tebibytes ⟨'T', 'B', 1024 * 1024 * 1024 * 1024, rfl⟩
    have hwrapped : schedulerGroupSize (tebibytes.digits ++ ['T', 'B'])
        = .size 0 := by decide +kernel
    have hvalue : tebibytes.value = 16777216 := by decide +kernel
    rw [hwrapped, hvalue] at hsize
    exact absurd hsize (show ¬ (_ = _) by decide)

end BigDataExpress
