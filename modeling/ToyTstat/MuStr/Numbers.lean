import ToyTstat.MuStr.Slice

/-!
# Parsing numbers

The magnitude is read digit by digit, so every value on the way is a tenth of what follows. Only the last
step can overflow.
-/

open CLib ToyTstat.Code

namespace ToyTstat.MuStr

/-! ## Digits -/

theorem is_decimal_eq (byte : Byte) : is_decimal byte = isDigit byte := by
  simp only [is_decimal, isDigit, ge_iff_le, UInt8.le_iff_toNat_le]
  rfl

/-- A text that does not go on with a digit. -/
def NoDigit (rest : List Byte) : Prop := ∀ x ∈ rest.head?, isDigit x = false

theorem decimal_last (m : Nat) :
    ∃ ds c, decimal m = ds ++ [c] ∧ (∀ x ∈ ds, isDigit x = true) ∧ isDigit c = true ∧
      digitsValue ds = m / 10 ∧ c.toNat - 48 = m % 10 := by
  have hdigits := decimal_isDigit m
  have hdigit := ch_digitChar (m % 10) (Nat.mod_lt _ (by decide))
  by_cases hm : m < 10
  · have heq : decimal m = [] ++ [ch (Nat.digitChar (m % 10))] := by
      rw [decimal_eq, if_pos hm, Nat.mod_eq_of_lt hm, List.nil_append]
    rw [heq] at hdigits
    refine ⟨[], _, heq, by simp, hdigits _ (by simp), ?_, by omega⟩
    rw [Nat.div_eq_of_lt hm]
    rfl
  · have heq : decimal m = decimal (m / 10) ++ [ch (Nat.digitChar (m % 10))] := by
      rw [decimal_eq, if_neg hm]
    rw [heq] at hdigits
    exact ⟨_, _, heq, decimal_isDigit (m / 10), hdigits _ (by simp), digitsValue_decimal (m / 10), by omega⟩

/-- The value of `v` with the digits of `ds` behind it. -/
def valueFrom (v : Nat) (ds : List Byte) : Nat := ds.foldl (fun v c => 10 * v + (c.toNat - 48)) v

theorem le_valueFrom (v : Nat) (ds : List Byte) : v ≤ valueFrom v ds := by
  induction ds generalizing v with
  | nil => exact Nat.le_refl v
  | cons c ds ih =>
    have hstep : v ≤ 10 * v + (c.toNat - 48) := by omega
    exact Nat.le_trans hstep (ih _)

/-! ## The loop -/

variable {type : IntType} {buf : Pointer} {ds rest : List Byte}

theorem decimal_loop_stop (hbuf : buf.Holds rest) (hrest : NoDigit rest) (v : Int) :
    decimal_loop type buf rest.length v = some v := by
  cases rest with
  | nil => rfl
  | cons x rest =>
    have hread : buf.read 0 = some x := hbuf 0 (Nat.succ_pos _)
    rw [List.length_cons, decimal_loop, hread, Option.bind_eq_bind, Option.bind_some, is_decimal_eq, hrest x rfl]
    rfl

theorem decimal_loop_digit {c : Byte} (hbuf : buf.Holds (c :: rest)) (hc : isDigit c = true) (v : Int) :
    decimal_loop type buf (c :: rest).length v =
      (type.arith (v * 10)).bind fun v10 => (type.arith (v10 + (c.toNat - 48 : Nat))).bind fun v' =>
        decimal_loop type (buf.add 1) rest.length (type.convert v') := by
  have hread : buf.read 0 = some c := hbuf 0 (Nat.succ_pos _)
  have hlow : 48 ≤ c.toNat := by
    simp only [isDigit, decide_eq_true_eq] at hc
    exact hc.1
  have hzero : ((ch '0').toNat : Int) = 48 := rfl
  rw [List.length_cons, decimal_loop, hread, Option.bind_eq_bind, Option.bind_some, is_decimal_eq, if_pos hc, hzero,
    Int.natCast_sub hlow]
  rfl

theorem decimal_loop_run (ht : 0 < type.bits) (hbuf : buf.Holds (ds ++ rest)) (hds : ∀ x ∈ ds, isDigit x = true)
    {v : Nat} (hw : (valueFrom v ds : Int) ≤ type.highest) :
    decimal_loop type buf (ds ++ rest).length v =
      decimal_loop type (buf.add ds.length) rest.length (valueFrom v ds) := by
  induction ds generalizing buf v with
  | nil =>
    rw [List.nil_append, List.length_nil, Pointer.add, Nat.cast_zero, Int.add_zero]
    rfl
  | cons c ds ih =>
    have hmono := le_valueFrom (10 * v + (c.toNat - 48)) ds
    have hpromote := type.highest_le_promote
    have hvalue : valueFrom v (c :: ds) = valueFrom (10 * v + (c.toNat - 48)) ds := rfl
    rw [hvalue] at hw ⊢
    have h10 : type.arith ((v : Int) * 10) = some ((v : Int) * 10) :=
      IntType.arith_of_inRange (IntType.inRange_of_nonneg (by omega) (by omega))
    have hnext : type.arith ((v : Int) * 10 + (c.toNat - 48 : Nat)) = some ((10 * v + (c.toNat - 48) : Nat) : Int) := by
      rw [IntType.arith_of_inRange (IntType.inRange_of_nonneg (by omega) (by omega))]
      congr 1
      omega
    rw [List.cons_append] at hbuf ⊢
    rw [decimal_loop_digit hbuf (hds c List.mem_cons_self), h10, Option.bind_some, hnext, Option.bind_some,
      IntType.convert_of_inRange ht (IntType.inRange_of_nonneg (by omega) (by omega)),
      ih hbuf.tail (fun x hx => hds x (List.mem_cons_of_mem c hx)) hw, Pointer.add_add, List.length_cons, Nat.cast_succ,
      Int.add_comm 1]

theorem decimal_loop_last (ht : 0 < type.bits) {m : Nat} (hbuf : buf.Holds (decimal m ++ rest)) (hrest : NoDigit rest)
    (htenth : ((m / 10 : Nat) : Int) ≤ type.highest) :
    decimal_loop type buf (decimal m ++ rest).length 0 =
      (type.arith ((m / 10 : Nat) * 10)).bind fun v10 => (type.arith (v10 + (m % 10 : Nat))).map type.convert := by
  -- a canonical number is cut only in its last step
  obtain ⟨ds, c, heq, hds, hc, hvalue, hdigit⟩ := decimal_last m
  have hvalue' : valueFrom 0 ds = m / 10 := hvalue
  rw [heq, List.append_assoc] at hbuf
  have hrun := decimal_loop_run ht hbuf hds (v := 0) (by rwa [hvalue'])
  have hlast : (buf.add ds.length).Holds (c :: rest) := by
    have hdrop := hbuf.add ds.length
    rwa [List.drop_left] at hdrop
  have hend (v : Int) : decimal_loop type ((buf.add ds.length).add 1) rest.length v = some v :=
    decimal_loop_stop hlast.tail hrest v
  rw [heq, List.append_assoc]
  rw [Nat.cast_zero] at hrun
  rw [hrun, hvalue', List.singleton_append, decimal_loop_digit hlast hc, hdigit]
  congr 1
  funext v10
  cases type.arith (v10 + (m % 10 : Nat)) with
  | none => rfl
  | some v' => exact hend _

theorem decimal_loop_value (ht : 0 < type.bits) {m : Nat} (hbuf : buf.Holds (decimal m ++ rest))
    (hrest : NoDigit rest) (htenth : ((m / 10 : Nat) : Int) ≤ type.highest) (hm : (m : Int) ≤ type.promote.highest) :
    decimal_loop type buf (decimal m ++ rest).length 0 = some (type.convert m) := by
  rw [decimal_loop_last ht hbuf hrest htenth,
    IntType.arith_of_inRange (IntType.inRange_of_nonneg (by omega) (by omega)), Option.bind_some,
    show ((m / 10 : Nat) : Int) * 10 + (m % 10 : Nat) = m by omega,
    IntType.arith_of_inRange (IntType.inRange_of_nonneg (by omega) (by omega)), Option.map_some]

theorem decimal_loop_overflow (ht : 0 < type.bits) (hsigned : type.promote.signed) {m : Nat}
    (hbuf : buf.Holds (decimal m ++ rest)) (hrest : NoDigit rest) (htenth : ((m / 10 : Nat) : Int) ≤ type.highest)
    (hm : type.promote.highest < m) : decimal_loop type buf (decimal m ++ rest).length 0 = none := by
  rw [decimal_loop_last ht hbuf hrest htenth]
  cases h10 : type.arith ((m / 10 : Nat) * 10) with
  | none => rfl
  | some v10 =>
    have hv10 : v10 = (m / 10 : Nat) * 10 := by
      by_cases hfits : type.promote.InRange ((m / 10 : Nat) * 10)
      · rw [IntType.arith_of_inRange hfits, Option.some.injEq] at h10
        exact h10.symm
      · rw [IntType.arith_overflow hsigned hfits] at h10
        cases h10
    rw [Option.bind_some, hv10, show ((m / 10 : Nat) : Int) * 10 + (m % 10 : Nat) = m by omega,
      IntType.arith_overflow hsigned fun h => absurd h.2 (Int.not_le.mpr hm), Option.map_none]

/-! ## The parsers -/

variable {str : mu_str_t}

theorem int_parser_nonneg {m : Nat} (h : Text str (decimal m ++ rest)) :
    DEFINE_INT_PARSER type str = decimal_loop type str.bytes (decimal m ++ rest).length 0 := by
  obtain ⟨c, s, hcons⟩ := List.exists_cons_of_ne_nil (decimal_ne_nil m)
  have hdigit : isDigit c = true := decimal_isDigit m c (by rw [hcons]; exact List.mem_cons_self)
  have hminus : (c == ch '-') = false := by
    rw [beq_eq_false_iff_ne]
    rintro rfl
    exact absurd hdigit (by decide)
  have hread : str.bytes.read 0 = some c := by
    have hbytes := h.bytes
    rw [hcons] at hbytes
    exact hbytes 0 (Nat.succ_pos _)
  have hlen : 1 ≤ (decimal m ++ rest).length := by
    rw [hcons, List.cons_append, List.length_cons]
    omega
  simp only [DEFINE_INT_PARSER, mu_str_bytes, mu_str_length, ge_iff_le, h.len, if_pos hlen, hread, Option.map_some,
    Option.bind_eq_bind, Option.bind_some, hminus, Bool.false_eq_true, if_false]

theorem int_parser_neg {m : Nat} (h : Text str (ch '-' :: (decimal m ++ rest))) :
    DEFINE_INT_PARSER type str =
      (decimal_loop type (str.bytes.add 1) (decimal m ++ rest).length 0).bind fun v =>
        (type.arith (-v)).map type.convert := by
  have hread : str.bytes.read 0 = some (ch '-') := h.bytes 0 (Nat.succ_pos _)
  have hlen : 1 ≤ str.len := by
    rw [h.len, List.length_cons]
    omega
  have htail : str.len - 1 = (decimal m ++ rest).length := by
    rw [h.len, List.length_cons, Nat.add_sub_cancel]
  simp only [DEFINE_INT_PARSER, mu_str_bytes, mu_str_length, ge_iff_le, if_pos hlen, hread, Option.map_some,
    Option.bind_eq_bind, Option.bind_some, htail, beq_self_eq_true, if_true]
  congr 1
  funext v
  cases type.arith (-v) <;> rfl

/-- What is read for a number of the type, up to an overflow. -/
def ParseCorrect (parse : mu_str_t → Option Int) (i : Int) : Prop :=
  ∀ str rest, NoDigit rest → Text str (decimalInt i ++ rest) → parse str = some i

theorem uint_parser_correct (ht : 0 < type.bits) (hunsigned : type.signed = false) {i : Int} (hi : type.InRange i) :
    ParseCorrect (DEFINE_UINT_PARSER type) i := by
  intro str rest hrest h
  have hlow : 0 ≤ i := by
    have := hi.1
    rw [IntType.lowest, hunsigned] at this
    exact this
  obtain ⟨m, rfl⟩ := Int.eq_ofNat_of_zero_le hlow
  have htext : decimalInt m = decimal m := if_neg (Int.not_lt.mpr hlow)
  rw [htext] at h
  have hm : (m : Int) ≤ type.highest := hi.2
  have hpromote := type.highest_le_promote
  rw [DEFINE_UINT_PARSER, mu_str_bytes, mu_str_length, h.len,
    decimal_loop_value ht h.bytes hrest (by omega) (by omega), IntType.convert_of_inRange ht hi]

/-- The magnitude of the lowest value of a wide type is one more than the type holds. -/
def LowestOfWide (type : IntType) (i : Int) : Prop := type.signed ∧ 32 ≤ type.bits ∧ i = type.lowest

theorem int_parser_correct (ht : 0 < type.bits) (hsigned : type.signed = true) {i : Int} (hi : type.InRange i)
    (hwide : ¬ LowestOfWide type i) : ParseCorrect (DEFINE_INT_PARSER type) i := by
  intro str rest hrest h
  have hpromote := type.highest_le_promote
  have hlowest := IntType.lowest_eq hsigned
  rcases Int.lt_or_le i 0 with hneg | hpos
  · obtain ⟨m, hm⟩ := Int.eq_ofNat_of_zero_le (a := -i) (by omega)
    obtain rfl : i = -(m : Int) := by omega
    have htext : decimalInt (-(m : Int)) = ch '-' :: decimal m := by
      rw [decimalInt, if_pos hneg, Int.natAbs_neg, Int.natAbs_natCast]
    rw [htext, List.cons_append] at h
    have hrange := hi.1
    have hroom : (m : Int) ≤ type.promote.highest := by
      rcases Nat.lt_or_ge type.bits 32 with hnarrow | hbits
      · have := IntType.highest_succ_le_promote hsigned hnarrow
        omega
      · have : -(m : Int) ≠ type.lowest := fun hlow => hwide ⟨hsigned, hbits, hlow⟩
        omega
    rw [int_parser_neg h, decimal_loop_value ht h.bytes.tail hrest (by omega) hroom, Option.bind_some]
    rcases Int.lt_or_le type.highest m with hpast | hfits
    -- the magnitude of the lowest value is cut to the lowest value, and so is its negative
    · have hcut : type.convert m = -(m : Int) := by
        rw [show (m : Int) = type.highest + 1 by omega, IntType.convert_past_highest ht hsigned, hlowest]
      rw [hcut, Int.neg_neg, IntType.arith_of_inRange (IntType.inRange_of_nonneg (Int.natCast_nonneg m) hroom),
        Option.map_some, hcut]
    · have hnegative : type.promote.InRange (-(m : Int)) := by
        have := IntType.lowest_eq (IntType.promote_signed hsigned)
        exact ⟨by omega, by omega⟩
      rw [IntType.convert_of_inRange ht (IntType.inRange_of_nonneg (Int.natCast_nonneg m) hfits),
        IntType.arith_of_inRange hnegative, Option.map_some, IntType.convert_of_inRange ht hi]
  · obtain ⟨m, rfl⟩ := Int.eq_ofNat_of_zero_le hpos
    have htext : decimalInt m = decimal m := if_neg (Int.not_lt.mpr hpos)
    rw [htext] at h
    have hm : (m : Int) ≤ type.highest := hi.2
    rw [int_parser_nonneg h, decimal_loop_value ht h.bytes hrest (by omega) (by omega),
      IntType.convert_of_inRange ht hi]

theorem int_parser_overflow {i : Int} (hwide : LowestOfWide type i) : ¬ ParseCorrect (DEFINE_INT_PARSER type) i := by
  obtain ⟨hsigned, hbits, rfl⟩ := hwide
  intro hcorrect
  have ht : 0 < type.bits := by omega
  have hlowest := IntType.lowest_eq hsigned
  have hhighest := type.highest_nonneg
  have hpromote : type.promote = type := if_neg (Nat.not_lt.mpr hbits)
  obtain ⟨m, hm⟩ := Int.eq_ofNat_of_zero_le (a := type.highest + 1) (by omega)
  rw [hlowest, hm] at hcorrect
  have htext : decimalInt (-(m : Int)) = ch '-' :: decimal m := by
    rw [decimalInt, if_pos (by omega), Int.natAbs_neg, Int.natAbs_natCast]
  have hnil : NoDigit [] := by simp [NoDigit]
  have hstr := text_alone (decimalInt (-(m : Int)) ++ [])
  have hresult := hcorrect _ [] hnil hstr
  rw [htext, List.cons_append] at hstr hresult
  have hover := decimal_loop_overflow ht (IntType.promote_signed hsigned) (m := m) hstr.bytes.tail hnil (by omega)
    (by rw [hpromote]; omega)
  rw [int_parser_neg hstr, hover] at hresult
  cases hresult

/-- The sized types and their parsers. -/
def parsers : List (IntType × (mu_str_t → Option Int)) :=
  [(⟨8, true⟩, mu_str_parse_int8), (⟨8, false⟩, mu_str_parse_uint8),
    (⟨16, true⟩, mu_str_parse_int16), (⟨16, false⟩, mu_str_parse_uint16),
    (⟨32, true⟩, mu_str_parse_int32), (⟨32, false⟩, mu_str_parse_uint32),
    (⟨64, true⟩, mu_str_parse_int64), (⟨64, false⟩, mu_str_parse_uint64)]

theorem parsers_cases {parse : mu_str_t → Option Int} (h : (type, parse) ∈ parsers) :
    0 < type.bits ∧ (type.signed = true ∧ parse = DEFINE_INT_PARSER type ∨
      type.signed = false ∧ parse = DEFINE_UINT_PARSER type) := by
  simp only [parsers, List.mem_cons, Prod.mk.injEq, List.not_mem_nil, or_false] at h
  rcases h with ⟨rfl, rfl⟩ | ⟨rfl, rfl⟩ | ⟨rfl, rfl⟩ | ⟨rfl, rfl⟩ | ⟨rfl, rfl⟩ | ⟨rfl, rfl⟩ | ⟨rfl, rfl⟩ | ⟨rfl, rfl⟩
  all_goals exact ⟨by decide, by first | exact Or.inl ⟨rfl, rfl⟩ | exact Or.inr ⟨rfl, rfl⟩⟩

/-- Every value of every type is read back, but for the lowest ones of the wide signed types. -/
theorem parse_correct_iff (type : IntType) (parse : mu_str_t → Option Int) (h : (type, parse) ∈ parsers) (i : Int)
    (hi : type.InRange i) : ParseCorrect parse i ↔ ¬ LowestOfWide type i := by
  obtain ⟨ht, ⟨hsigned, rfl⟩ | ⟨hunsigned, rfl⟩⟩ := parsers_cases h
  · exact ⟨fun hcorrect hwide => int_parser_overflow hwide hcorrect, int_parser_correct ht hsigned hi⟩
  · refine iff_of_true (uint_parser_correct ht hunsigned hi) fun hwide => ?_
    rw [hwide.1] at hunsigned
    cases hunsigned

/-- The lowest value of a narrow type is read. -/
theorem parse_correct_int8_lowest : ParseCorrect mu_str_parse_int8 (-128) :=
  (parse_correct_iff ⟨8, true⟩ mu_str_parse_int8 (by simp [parsers]) (-128) (by decide)).mpr
    fun hwide => absurd hwide.2.1 (by decide)

/-- `-2147483648` overflows when the last digit is added. -/
theorem parse_int32_lowest : ¬ ParseCorrect mu_str_parse_int32 (-2147483648) := by
  intro hcorrect
  have hresult := hcorrect _ [] (by simp [NoDigit]) (text_alone (decimalInt (-2147483648) ++ []))
  have hover : mu_str_parse_int32 ⟨⟨decimalInt (-2147483648) ++ [], 0⟩, (decimalInt (-2147483648) ++ []).length⟩ =
    none := by decide +kernel
  rw [hover] at hresult
  cases hresult

end ToyTstat.MuStr
