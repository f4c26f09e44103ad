import AssemblyPolicy.Proofs.Result
import AssemblyPolicy.Report.Timestamp
import Mathlib

/-!
# Timestamps written and read

A timestamp that the notation has room for is read back from its own text
(`Timestamp.Representable.read_render`).
-/

namespace AssemblyPolicy.Timestamp

/-- A point in time on a day of the calendar, in one of the years and at one of the offsets that the
notation has room for. -/
structure Representable (t : Timestamp) : Prop where
  date : isDate t.year t.month t.day = true
  year : t.year ≤ 9999
  hour : t.hour ≤ 23
  minute : t.minute ≤ 59
  second : t.second ≤ 59
  nanosecond : t.nanosecond < nanosecondsPerSecond
  /-- The offset is less than a day. -/
  offset : t.offset.natAbs < 24 * 60

/-! ### Numbers -/

variable {width n : Nat} {rest : List Char}

lemma foldl_digits (ds : List Char) (init : Nat) :
    ds.foldl (fun v c => v * 10 + (c.toNat - 48)) init = Nat.ofDigitChars 10 ds init := by
  rw [Nat.ofDigitChars_eq_foldl]
  simp only [Nat.mul_comm]
  rfl

lemma padded_eq (width n : Nat) : padded width n =
    List.replicate (width - (Nat.toDigits 10 n).length) '0' ++ Nat.toDigits 10 n := by
  rw [padded, Nat.toList_repr]

lemma length_padded (hwidth : 0 < width) (hn : n < 10 ^ width) :
    (padded width n).length = width := by
  have hlength := (Nat.length_toDigits_le_iff (by decide) hwidth).mpr hn
  rw [padded_eq, List.length_append, List.length_replicate]
  omega

lemma isDigit_of_mem_padded {c : Char} (h : c ∈ padded width n) : c.isDigit = true := by
  rw [padded_eq] at h
  rcases List.mem_append.mp h with h | h
  · rw [List.eq_of_mem_replicate h]
    rfl
  · exact Nat.isDigit_of_mem_toDigits (by decide) le_rfl h

lemma ofDigitChars_padded (width n : Nat) : Nat.ofDigitChars 10 (padded width n) 0 = n := by
  rw [padded_eq, Nat.ofDigitChars_append, Nat.ofDigitChars_replicate_zero, Nat.mul_zero,
    Nat.ofDigitChars_ten_toDigits]

lemma readPart_padded (part : String) (width n : Nat) (hwidth : 0 < width) (hn : n < 10 ^ width)
    (rest : List Char) : readPart part width (padded width n ++ rest) = .ok (n, rest) := by
  have hlength := length_padded hwidth hn
  have hdigits : (padded width n).all Char.isDigit = true :=
    List.all_eq_true.mpr fun c hc => isDigit_of_mem_padded hc
  have htake : (padded width n ++ rest).take width = padded width n := List.take_left' hlength
  have hdrop : (padded width n ++ rest).drop width = rest := List.drop_left' hlength
  simp only [readPart, digits?, htake, hdrop, hlength, hdigits, foldl_digits, ofDigitChars_padded,
    decide_true, Bool.and_self, if_true, Option.elim]

/-! ### Marks -/

lemma skipMark_cons (c : Char) (rest : List Char) : skipMark c (c :: rest) = .ok rest := by
  rw [skipMark, char?, if_pos rfl, Option.elim]

/-! ### Fractions -/

/-- A list of digits is what is left without the zeros at its end, and these zeros. -/
lemma exists_eq_rdropWhile_append (ds : List Char) :
    ∃ k, ds = ds.rdropWhile (· = '0') ++ List.replicate k '0' := by
  refine ⟨(ds.rtakeWhile (· = '0')).length, ?_⟩
  have hzeros : ∀ c ∈ ds.rtakeWhile (· = '0'), c = '0' := by
    intro c hc
    simpa using List.mem_takeWhile_imp (List.mem_reverse.mp hc)
  rw [← List.eq_replicate_of_mem hzeros, List.rdropWhile_append_rtakeWhile]

lemma nanoseconds_rdropWhile (hn : n < nanosecondsPerSecond) :
    nanoseconds ((padded 9 n).rdropWhile (· = '0')) = n := by
  have hlength : (padded 9 n).length = 9 := length_padded (by decide) hn
  obtain ⟨k, hk⟩ := exists_eq_rdropWhile_append (padded 9 n)
  generalize (padded 9 n).rdropWhile (· = '0') = kept at hk ⊢
  have hfill : List.replicate 9 '0' = List.replicate k '0' ++ List.replicate (9 - k) '0' := by
    rw [hk, List.length_append, List.length_replicate] at hlength
    rw [List.replicate_append_replicate]
    congr 1
    omega
  have hnine : (kept ++ List.replicate 9 '0').take 9 = padded 9 n := by
    rw [hfill, ← List.append_assoc, ← hk]
    exact List.take_left' hlength
  rw [nanoseconds, hnine, foldl_digits, ofDigitChars_padded]

/-- A text that does not continue a number and does not begin with a point. -/
def EndsNumber (cs : List Char) : Prop := ∃ c rest, cs = c :: rest ∧ c.isDigit = false ∧ c ≠ '.'

lemma readFraction_renderFraction (hn : n < nanosecondsPerSecond) (hrest : EndsNumber rest) :
    readFraction (renderFraction n ++ rest) = .ok (n, rest) := by
  obtain ⟨c, cs, rfl, hdigit, hpoint⟩ := hrest
  by_cases hzero : n = 0
  · subst hzero
    rw [renderFraction, if_pos rfl, List.nil_append, readFraction]
    exact fun _ h => hpoint (List.cons.inj h).1
  · rw [renderFraction, if_neg hzero]
    change readFraction ('.' :: ((padded 9 n).rdropWhile (· = '0') ++ c :: cs)) = _
    have hvalue := nanoseconds_rdropWhile hn
    have hdigits : ∀ d ∈ (padded 9 n).rdropWhile (· = '0'), d.isDigit = true :=
      fun d hd => isDigit_of_mem_padded ((List.rdropWhile_prefix _ _).subset hd)
    generalize (padded 9 n).rdropWhile (· = '0') = kept at hvalue hdigits ⊢
    have hkept : kept ≠ [] := by
      rintro rfl
      exact hzero hvalue.symm
    have htake : (kept ++ c :: cs).takeWhile Char.isDigit = kept := by
      rw [List.takeWhile_append_of_pos hdigits, List.takeWhile_cons_of_neg (by simp [hdigit]),
        List.append_nil]
    have hdrop : (kept ++ c :: cs).dropWhile Char.isDigit = c :: cs := by
      rw [List.dropWhile_append_of_pos hdigits, List.dropWhile_cons_of_neg (by simp [hdigit])]
    simp only [readFraction, htake, hdrop, if_neg hkept, hvalue]

/-! ### Offsets -/

variable {offset : Int}

lemma endsNumber_renderOffset (offset : Int) : EndsNumber (renderOffset offset) := by
  rw [renderOffset]
  split_ifs
  · exact ⟨'Z', _, rfl, by decide, by decide⟩
  · exact ⟨'-', _, rfl, by decide, by decide⟩
  · exact ⟨'+', _, rfl, by decide, by decide⟩

lemma readOffset_of_readSign (cs : List Char) {clock mark : List Char} {negative : Bool} {hour minute : Nat}
    (hsign : readSign cs = .ok (negative, clock))
    (hreadHour : readPart "offset hour" 2 clock = .ok (hour, ':' :: mark)) (hhour : hour ≤ 23)
    (hreadMinute : readPart "offset minute" 2 mark = .ok (minute, rest)) (hminute : minute ≤ 59) :
    readOffset cs = .ok (if negative then -((hour * 60 + minute : Nat) : Int)
      else ((hour * 60 + minute : Nat) : Int), rest) := by
  unfold readOffset
  split
  · cases hsign
  · cases hsign
  · simp only [hsign, hreadHour, if_neg (Nat.not_lt.mpr hhour), skipMark_cons, hreadMinute,
      if_neg (Nat.not_lt.mpr hminute), bind, Except.bind]

lemma readOffset_renderOffset (h : offset.natAbs < 24 * 60) :
    readOffset (renderOffset offset) = .ok (offset, []) := by
  have hhour : offset.natAbs / 60 ≤ 23 := by omega
  have hminute : offset.natAbs % 60 ≤ 59 := by omega
  have hsum : offset.natAbs / 60 * 60 + offset.natAbs % 60 = offset.natAbs := by omega
  have hreadHour := readPart_padded "offset hour" 2 (offset.natAbs / 60) (by decide) (by omega)
    (':' :: padded 2 (offset.natAbs % 60))
  have hreadMinute := readPart_padded "offset minute" 2 (offset.natAbs % 60) (by decide) (by omega)
    []
  rw [List.append_nil] at hreadMinute
  rw [renderOffset]
  split_ifs with hzero hneg
  · rw [hzero]
    rfl
  · have hoffset : -(offset.natAbs : Int) = offset := by omega
    have hread := readOffset_of_readSign ('-' :: _) rfl hreadHour hhour hreadMinute hminute
    rwa [if_pos rfl, hsum, hoffset] at hread
  · have hoffset : (offset.natAbs : Int) = offset := by omega
    have hread := readOffset_of_readSign ('+' :: _) rfl hreadHour hhour hreadMinute hminute
    rwa [if_neg Bool.false_ne_true, hsum, hoffset] at hread

/-! ### Whole timestamps -/

lemma daysIn_le (year month : Nat) : daysIn year month ≤ 31 := by
  unfold daysIn
  split
  · split <;> decide
  · decide
  · decide
  · decide
  · decide
  · decide

variable {t : Timestamp}

lemma isDate_iff {year month day : Nat} : isDate year month day = true ↔
    1 ≤ month ∧ month ≤ 12 ∧ 1 ≤ day ∧ day ≤ daysIn year month := by
  simp [isDate, and_assoc]

lemma Representable.check_eq (h : t.Representable) : t.check = .ok t := by
  have hhour := h.hour
  have hminute := h.minute
  rw [check, if_neg (by simp [h.date]), if_neg (by omega), if_neg (by omega), if_pos h.second]

lemma Representable.read_render (h : t.Representable) : read t.render = .ok t := by
  obtain ⟨hmonth, hmonth', hday, hday'⟩ := isDate_iff.mp h.date
  have hdays := daysIn_le t.year t.month
  obtain ⟨hdate, hyear, hhour, hminute, hsecond, hnanosecond, hoffset⟩ := id h
  have hreadYear := readPart_padded "year" 4 t.year (by decide) (by omega)
  have hreadMonth := readPart_padded "month" 2 t.month (by decide) (by omega)
  have hreadDay := readPart_padded "day" 2 t.day (by decide) (by omega)
  have hreadHour := readPart_padded "hour" 2 t.hour (by decide) (by omega)
  have hreadMinute := readPart_padded "minute" 2 t.minute (by decide) (by omega)
  have hreadSecond := readPart_padded "second" 2 t.second (by decide) (by omega)
  have hreadFraction := readFraction_renderFraction hnanosecond (endsNumber_renderOffset t.offset)
  have hseparator : ∀ cs, skipSeparator ('T' :: cs) = .ok cs := fun _ => rfl
  simp only [read, render, String.toList_ofList, List.append_assoc, List.cons_append, hreadYear,
    skipMark_cons, readMonth, hreadMonth, hmonth, hmonth', and_self, if_true, hreadDay, hseparator,
    hreadHour, hreadMinute, hreadSecond, hreadFraction, readOffset_renderOffset hoffset, bind,
    Except.bind]
  exact h.check_eq

end AssemblyPolicy.Timestamp
