import AssemblyPolicy.Json.Printer
import AssemblyPolicy.Json.Token
import Mathlib

/-!
# Tokens of printed values

Each token takes at least one character, so the tokens of a text can be taken one by one
(`tokens_cons`). The tokens that a printed quoted text and a printed integer start with are the text
and the integer.
-/

namespace AssemblyPolicy.Json

variable {cs rest done s : List Char} {c : Char}

/-! ### Lengths -/

lemma skipString_length (h : skipString cs = .done rest) : rest.length < cs.length := by
  fun_induction skipString cs <;> grind

lemma readString_length (h : readString cs done = .ok (s, rest)) : rest.length < cs.length := by
  fun_induction readString cs done <;> grind

lemma readKeyword_length (token : Token) (word cs : List Char) :
    (readKeyword token word cs).2.length ≤ cs.length := by
  fun_induction readKeyword token word cs <;> grind

lemma quotedToken_length (cs : List Char) : (quotedToken cs).2.length ≤ cs.length := by
  rw [quotedToken]
  split
  · next h => exact (readString_length h).le
  · next h => exact (skipString_length h).le
  · simp

lemma length_dropWhile_le (p : Char → Bool) (cs : List Char) : (cs.dropWhile p).length ≤ cs.length :=
  (List.dropWhile_sublist p).length_le

lemma readExponent_length {e : Int} (h : readExponent cs = .value e rest) :
    rest.length ≤ cs.length := by
  have hdigits : ∀ negative cs,
      readExponentDigits negative cs = .value e rest → rest.length ≤ cs.length := by
    intro negative cs h
    simp only [readExponentDigits] at h
    split at h
    · cases h
    · cases h
      exact length_dropWhile_le _ cs
  unfold readExponent at h
  split at h
  · split at h <;> grind
  · split at h <;> grind
  · cases h

lemma finishNumber_length (negative : Bool) (whole fraction cs : List Char) :
    (finishNumber negative whole fraction cs).2.length ≤ cs.length := by
  rw [finishNumber]
  split
  · exact le_rfl
  · next h => exact readExponent_length h
  · simp

lemma readNumber_length (negative : Bool) (cs : List Char) :
    (readNumber negative cs).2.length ≤ (cs.dropWhile Char.isDigit).length := by
  simp only [readNumber]
  split
  · simp
  · simp
  · split
    · split
      · simp
      · next rest' hrest hfraction =>
        rw [hrest]
        refine (finishNumber_length _ _ _ _).trans ?_
        exact (length_dropWhile_le _ _).trans (by simp)
    · exact finishNumber_length _ _ _ _

lemma tokenAt_length (c : Char) (rest : List Char) : (tokenAt c rest).2.length ≤ rest.length := by
  rw [tokenAt.eq_def]
  split
  iterate 6 exact le_rfl
  · exact quotedToken_length rest
  iterate 3 exact readKeyword_length _ _ rest
  · exact (readNumber_length true rest).trans (length_dropWhile_le _ rest)
  · split
    · next hdigit =>
      refine (readNumber_length false _).trans ?_
      rw [List.dropWhile_cons_of_pos hdigit]
      exact length_dropWhile_le _ rest
    · simp

/-! ### One token after the other -/

lemma tokensUpTo_nil (n : Nat) : tokensUpTo n [] = [] := by
  cases n <;> rfl

/-- A number of tokens that is large enough for a text gives all its tokens. -/
lemma tokensUpTo_eq {n : Nat} (h : cs.length ≤ n) : tokensUpTo n cs = tokens cs := by
  have hall : ∀ n m (cs : List Char), cs.length ≤ n → cs.length ≤ m →
      tokensUpTo n cs = tokensUpTo m cs := by
    intro n
    induction n with
    | zero =>
      intro m cs hn _
      obtain rfl := List.length_eq_zero_iff.mp (Nat.le_zero.mp hn)
      exact (tokensUpTo_nil m).symm
    | succ n ih =>
      intro m cs hn hm
      cases m with
      | zero =>
        obtain rfl := List.length_eq_zero_iff.mp (Nat.le_zero.mp hm)
        exact tokensUpTo_nil _
      | succ m =>
        simp only [tokensUpTo]
        have hle := length_dropWhile_le isSpace cs
        split
        · rfl
        · next c rest hdrop =>
          have hrest := tokenAt_length c rest
          rw [hdrop, List.length_cons] at hle
          rw [ih m _ (by omega) (by omega)]
  exact hall n cs.length cs h le_rfl

lemma tokens_space (h : isSpace c = true) (cs : List Char) :
    tokens (c :: cs) = tokens cs := by
  have hcs : tokensUpTo (cs.length + 1) cs = tokens cs := tokensUpTo_eq (Nat.le_succ _)
  rw [← hcs, tokens, List.length_cons, tokensUpTo, tokensUpTo, List.dropWhile_cons_of_pos h]

lemma tokens_cons (h : isSpace c = false) (cs : List Char) :
    tokens (c :: cs) =
      ((tokenAt c cs).1, ⟨c :: cs, (tokenAt c cs).2⟩) :: tokens (tokenAt c cs).2 := by
  rw [tokens, List.length_cons, tokensUpTo, List.dropWhile_cons_of_neg (by simp [h])]
  exact congrArg _ (tokensUpTo_eq (tokenAt_length c cs))

lemma tokens_append_of_spaces {spaces : List Char} (h : ∀ c ∈ spaces, isSpace c = true)
    (cs : List Char) : tokens (spaces ++ cs) = tokens cs := by
  induction spaces with
  | nil => rfl
  | cons c spaces ih =>
    rw [List.cons_append, tokens_space (h c List.mem_cons_self),
      ih fun c hc => h c (List.mem_cons_of_mem _ hc)]

/-- A text starts with a token and goes on with `rest`. -/
def Leads (text : List Char) (t : Token) (rest : List Char) : Prop :=
  ∃ c cs, text = c :: cs ∧ isSpace c = false ∧ tokenAt c cs = (t, rest)

lemma Leads.tokens_eq {text : List Char} {t : Token} (h : Leads text t rest) :
    tokens text = (t, ⟨text, rest⟩) :: tokens rest := by
  obtain ⟨c, cs, rfl, hspace, htoken⟩ := h
  rw [tokens_cons hspace, htoken]

lemma leads_openArray (rest : List Char) : Leads ('[' :: rest) .openArray rest :=
  ⟨_, _, rfl, rfl, rfl⟩

lemma leads_closeArray (rest : List Char) : Leads (']' :: rest) .closeArray rest :=
  ⟨_, _, rfl, rfl, rfl⟩

lemma leads_openObject (rest : List Char) : Leads ('\x7b' :: rest) .openObject rest :=
  ⟨_, _, rfl, rfl, rfl⟩

lemma leads_closeObject (rest : List Char) : Leads ('\x7d' :: rest) .closeObject rest :=
  ⟨_, _, rfl, rfl, rfl⟩

lemma leads_comma (rest : List Char) : Leads (',' :: rest) .comma rest := ⟨_, _, rfl, rfl, rfl⟩

lemma leads_colon (rest : List Char) : Leads (':' :: rest) .colon rest := ⟨_, _, rfl, rfl, rfl⟩

/-! ### Quoted texts -/

lemma hexDigit?_hexChar {n : Nat} (h : n < 16) : hexDigit? (hexChar n) = some n := by
  revert n
  decide

lemma utf8Size_hexChar {n : Nat} (h : n < 16) : (hexChar n).utf8Size = 1 := by
  revert n
  decide

lemma readHex_hexChar {high low : Nat} (hhigh : high < 16) (hlow : low < 16) (cs : List Char) :
    readHex ('0' :: '0' :: hexChar high :: hexChar low :: cs) = .unit (high * 16 + low) cs := by
  have hcount : byteCount ['0', '0', hexChar high, hexChar low] = 4 := by
    simp only [byteCount, List.foldr, utf8Size_hexChar hhigh, utf8Size_hexChar hlow]
    rfl
  have hzero : hexDigit? '0' = some 0 := rfl
  simp [readHex, hcount, hzero, hexDigit?_hexChar hhigh, hexDigit?_hexChar hlow]

lemma readString_shortEscape {e : Char} (h : shortEscape? c = some e) (cs done : List Char) :
    readString ('\\' :: c :: cs) done = readString cs (e :: done) := by
  have hc : c ≠ 'u' := by
    rintro rfl
    cases h
  rw [readString]
  · simp only [h]
  · exact hc

lemma readString_hexEscape (h : c.toNat < 0x20) (cs done : List Char) :
    readString ('\\' :: 'u' :: '0' :: '0' :: hexChar (c.toNat / 16) :: hexChar (c.toNat % 16) :: cs)
      done = readString cs (c :: done) := by
  have hhex : readHex ('0' :: '0' :: hexChar (c.toNat / 16) :: hexChar (c.toNat % 16) :: cs) =
      .unit c.toNat cs := by
    rw [readHex_hexChar (by omega) (by omega), Nat.div_add_mod']
  rw [readString]
  dsimp only
  split
  · next hread =>
    rw [hhex] at hread
    cases hread
  · next hread =>
    rw [hhex] at hread
    cases hread
    rw [if_neg (by omega), if_pos (by omega), Char.ofNat_toNat]

lemma readString_plain (hquote : c ≠ '"') (hslash : c ≠ '\\') (h : ¬ c.toNat < 0x20)
    (cs done : List Char) : readString (c :: cs) done = readString cs (c :: done) := by
  rw [readString]
  · rw [if_neg h]
  · exact hquote
  · exact hslash

lemma readString_escapeChar (c : Char) (cs done : List Char) :
    readString (escapeChar c ++ cs) done = readString cs (c :: done) := by
  rw [escapeChar.eq_def]
  split
  iterate 7 exact readString_shortEscape rfl cs done
  · next hquote hslash _ _ _ _ _ =>
    split
    · next h => exact readString_hexEscape h cs done
    · next h => exact readString_plain hquote hslash h cs done

lemma readString_escaped (text rest done : List Char) :
    readString (text.flatMap escapeChar ++ '"' :: rest) done = .ok (done.reverse ++ text, rest) := by
  induction text generalizing done with
  | nil =>
    rw [List.flatMap_nil, List.nil_append, readString, List.append_nil]
  | cons c text ih =>
    rw [List.flatMap_cons, List.append_assoc, readString_escapeChar, ih, List.reverse_cons,
      List.append_assoc]
    rfl

lemma quotedToken_quote (s : String) (rest : List Char) :
    quotedToken (s.toList.flatMap escapeChar ++ '"' :: rest) = (.string (.ok s), rest) := by
  rw [quotedToken, readString_escaped]
  simp only [List.reverse_nil, List.nil_append, String.ofList_toList]

lemma leads_quote (s : String) (rest : List Char) :
    Leads (quote s ++ rest) (.string (.ok s)) rest := by
  refine ⟨'"', s.toList.flatMap escapeChar ++ '"' :: rest, ?_, rfl, quotedToken_quote s rest⟩
  rw [quote, List.append_assoc]
  rfl

/-! ### Numbers -/

lemma le_ofDigitChars (digits : List Char) (n : Nat) : n ≤ Nat.ofDigitChars 10 digits n := by
  induction digits generalizing n with
  | nil => exact le_rfl
  | cons c digits ih =>
    rw [Nat.ofDigitChars_cons]
    exact le_trans (by omega) (ih _)

/-- Digits of a number that fits are all taken. -/
lemma takeFitting_eq {digits : List Char} {n : Nat}
    (h : Nat.ofDigitChars 10 digits n < UInt64.size) :
    takeFitting n digits = (Nat.ofDigitChars 10 digits n, []) := by
  induction digits generalizing n with
  | nil => rfl
  | cons c digits ih =>
    rw [Nat.ofDigitChars_cons, mul_comm] at h ⊢
    rw [takeFitting]
    exact (if_pos ((le_ofDigitChars digits _).trans_lt h)).trans (ih h)

lemma takeFitting_toDigits {n : Nat} (h : n < UInt64.size) :
    takeFitting 0 (Nat.toDigits 10 n) = (n, []) := by
  have hvalue : Nat.ofDigitChars 10 (Nat.toDigits 10 n) 0 = n := Nat.ofDigitChars_ten_toDigits
  rw [takeFitting_eq (hvalue.symm ▸ h), hvalue]

/-- A number above zero is written without a leading zero. -/
lemma head?_toDigits {n : Nat} (h : 0 < n) : (Nat.toDigits 10 n).head? ≠ some '0' := by
  induction n using Nat.strong_induction_on with
  | _ n ih =>
    by_cases hbase : n < 10
    · rw [Nat.toDigits_of_lt_base hbase]
      interval_cases n <;> decide
    · rw [Nat.toDigits_of_base_le (by decide) (by omega),
        List.head?_append_of_ne_nil _ Nat.toDigits_ne_nil]
      exact ih (n / 10) (by omega) (by omega)

lemma toDigits_ne_zero_cons (n : Nat) (c : Char) (cs : List Char) :
    Nat.toDigits 10 n ≠ '0' :: c :: cs := by
  intro h
  rcases Nat.eq_zero_or_pos n with rfl | hn
  · cases h
  · exact head?_toDigits hn (by rw [h]; rfl)

/-- What may follow a value in a printed text: nothing, or a character that ends a number. -/
def Separated : List Char → Prop
  | [] => True
  | c :: _ => c = ',' ∨ c = ']' ∨ c = '\x7d' ∨ c = '\n'

lemma Separated.takeWhile_isDigit (h : Separated rest) : rest.takeWhile Char.isDigit = [] := by
  cases rest with
  | nil => rfl
  | cons c rest => rcases h with rfl | rfl | rfl | rfl <;> rfl

lemma Separated.dropWhile_isDigit (h : Separated rest) : rest.dropWhile Char.isDigit = rest := by
  cases rest with
  | nil => rfl
  | cons c rest => rcases h with rfl | rfl | rfl | rfl <;> rfl

lemma Separated.readExponent (h : Separated rest) : readExponent rest = .absent := by
  cases rest with
  | nil => rfl
  | cons c rest => rcases h with rfl | rfl | rfl | rfl <;> rfl

lemma ofNumeral?_toDigits {negative : Bool} {n : Nat} (hn : n < UInt64.size)
    (hnegative : negative = true → 0 < n ∧ 2 * n ≤ UInt64.size) :
    Number.ofNumeral? negative (Nat.toDigits 10 n) [] none =
      some (.int (if negative then -(n : Int) else n)) := by
  rw [Number.ofNumeral?, takeFitting_toDigits hn]
  simpa using hnegative

lemma readNumber_toDigits (negative : Bool) {n : Nat} (hn : n < UInt64.size)
    (hnegative : negative = true → 0 < n ∧ 2 * n ≤ UInt64.size) (hrest : Separated rest) :
    readNumber negative (Nat.toDigits 10 n ++ rest) =
      (.number (.ok (.int (if negative then -(n : Int) else n))), rest) := by
  have hdigit : ∀ c ∈ Nat.toDigits 10 n, c.isDigit = true :=
    fun c hc => Nat.isDigit_of_mem_toDigits (by decide) le_rfl hc
  have hwhole : (Nat.toDigits 10 n ++ rest).takeWhile Char.isDigit = Nat.toDigits 10 n := by
    rw [List.takeWhile_append_of_pos hdigit, hrest.takeWhile_isDigit, List.append_nil]
  have hdrop : (Nat.toDigits 10 n ++ rest).dropWhile Char.isDigit = rest := by
    rw [List.dropWhile_append_of_pos hdigit, hrest.dropWhile_isDigit]
  have hfinish : finishNumber negative (Nat.toDigits 10 n) [] rest =
      (.number (.ok (.int (if negative then -(n : Int) else n))), rest) := by
    rw [finishNumber, hrest.readExponent]
    simp only [numberToken, ofNumeral?_toDigits hn hnegative]
    rfl
  simp only [readNumber, hwhole, hdrop]
  split
  · next hnil => exact absurd hnil Nat.toDigits_ne_nil
  · next hzero => exact absurd hzero (toDigits_ne_zero_cons n _ _)
  · split
    · next rest' =>
      rcases hrest with h | h | h | h <;> cases h
    · exact hfinish

/-- The integers that are kept as they are. -/
def Number.Exact : Number → Prop
  | .int n => -(2 : Int) ^ 63 ≤ n ∧ n < 2 ^ 64
  | .double _ => False

lemma tokenAt_digit (h : c.isDigit = true) (cs : List Char) :
    tokenAt c cs = readNumber false (c :: cs) := by
  rw [tokenAt.eq_def]
  split
  iterate 11 cases h
  exact if_pos h

lemma isSpace_of_isDigit (h : c.isDigit = true) : isSpace c = false := by
  simp only [isSpace, Bool.or_eq_false_iff, decide_eq_false_iff_not]
  refine ⟨⟨⟨?_, ?_⟩, ?_⟩, ?_⟩ <;> rintro rfl <;> cases h

/-- A printed integer is read as it is, unless digits follow. -/
lemma leads_render {n : Number} (h : n.Exact) (hrest : Separated rest) :
    Leads (n.render ++ rest) (.number (.ok n)) rest := by
  cases n with
  | double d => exact h.elim
  | int n =>
    obtain ⟨hlower, hupper⟩ := h
    have hsize : UInt64.size = 2 ^ 64 := rfl
    have hrender : (Number.int n).render = n.repr.toList := rfl
    rw [hrender, Int.repr_eq_if]
    split
    · next hn =>
      have hread : readNumber false (Nat.toDigits 10 n.toNat ++ rest) =
          (.number (.ok (.int n.toNat)), rest) :=
        readNumber_toDigits false (by omega) (by simp) hrest
      obtain ⟨c, digits, hdigits⟩ := List.exists_cons_of_ne_nil
        (Nat.toDigits_ne_nil (n := n.toNat) (b := 10))
      have hc : c.isDigit = true :=
        Nat.isDigit_of_mem_toDigits (by decide) le_rfl (hdigits ▸ List.mem_cons_self)
      rw [hdigits, Int.toNat_of_nonneg hn] at hread
      rw [Nat.toList_repr, hdigits]
      exact ⟨c, digits ++ rest, rfl, isSpace_of_isDigit hc, (tokenAt_digit hc _).trans hread⟩
    · next hn =>
      have hread : readNumber true (Nat.toDigits 10 (-n).toNat ++ rest) =
          (.number (.ok (.int (-((-n).toNat : Int)))), rest) :=
        readNumber_toDigits true (by omega) (by omega) hrest
      rw [Int.toNat_of_nonneg (by omega), neg_neg] at hread
      rw [String.toList_append, Nat.toList_repr]
      exact ⟨'-', _, rfl, rfl, hread⟩

end AssemblyPolicy.Json
