import Segmentation.Json.Printer
import Segmentation.Proofs.Double.Interval

/-!
# What the text of a number says

The text of a decimal is that of a `Numeral`: digits, perhaps a point with more digits, and perhaps a power of ten.
A numeral can be read off its text (`Numeral.text_injective`) and has the value of the decimal (`value_numeral`).  So
the text of a binary64 number shows which number it is (`Json.floatText_injective`), and the text of an integer which
integer (`Json.intText_injective`).
-/

namespace Segmentation

/-- Where two texts begin with as many characters of one kind as they can, these and what follows are the same. -/
theorem append_inj_of_stop {p : Char → Bool} {a b s t : List Char} (own : ∀ c ∈ a, p c) (own' : ∀ c ∈ b, p c)
    (stop : ∀ c ∈ s.head?, p c = false) (stop' : ∀ c ∈ t.head?, p c = false) (eq : a ++ s = b ++ t) :
    a = b ∧ s = t := by
  have taken {a s : List Char} (own : ∀ c ∈ a, p c) (stop : ∀ c ∈ s.head?, p c = false) :
      (a ++ s).takeWhile p = a := by
    rw [List.takeWhile_append_of_pos own]
    cases s with
    | nil => exact List.append_nil a
    | cons c s => rw [List.takeWhile_cons_of_neg (by simp [stop c rfl]), List.append_nil]
  have same : a = b := by rw [← taken own stop, eq, taken own' stop']
  subst same
  exact ⟨rfl, List.append_cancel_left eq⟩

theorem toDigits_injective {m n : ℕ} (eq : Nat.toDigits 10 m = Nat.toDigits 10 n) : m = n := by
  rw [← @Nat.ofDigitChars_ten_toDigits m, eq, Nat.ofDigitChars_ten_toDigits]

/-! ### Numerals -/

/-- Digits before and behind a point, and a power of ten. -/
structure Numeral where
  whole : List Char
  fraction : List Char
  power : Option ℤ

namespace Numeral

/-- A power of ten with its sign. -/
def powerText : Option ℤ → List Char
  | none => []
  | some power => 'e' :: (if power < 0 then '-' else '+') :: Nat.toDigits 10 power.natAbs

/-- A point and what stands behind it, if anything does. -/
def fractionText : List Char → List Char
  | [] => []
  | fraction => '.' :: fraction

variable (n : Numeral)

def text : List Char := n.whole ++ (fractionText n.fraction ++ powerText n.power)

def value : ℚ := Nat.ofDigitChars 10 (n.whole ++ n.fraction) 0 * 10 ^ (n.power.getD 0 - n.fraction.length)

/-- Only digits stand before and behind the point, and some before it. -/
structure Sound : Prop where
  whole : ∀ c ∈ n.whole, c.isDigit = true
  fraction : ∀ c ∈ n.fraction, c.isDigit = true
  begins : n.whole ≠ []

variable {n} {m : Numeral}

theorem powerText_injective {p q : Option ℤ} (eq : powerText p = powerText q) : p = q := by
  cases p with
  | none =>
    cases q with
    | none => rfl
    | some q => cases eq
  | some p =>
    cases q with
    | none => cases eq
    | some q =>
      obtain ⟨-, eq⟩ := List.cons.inj eq
      obtain ⟨signs, digits⟩ := List.cons.inj eq
      have size := toDigits_injective digits
      have sign : p < 0 ↔ q < 0 := by
        by_cases negative : p < 0 <;> by_cases negative' : q < 0 <;> simp [negative, negative'] at signs ⊢
      congr 1
      omega

/-- What follows digits is no digit. -/
private theorem stop_powerText (p : Option ℤ) : ∀ c ∈ (powerText p).head?, c.isDigit = false := by
  cases p with
  | none => nofun
  | some p =>
    intro c first
    obtain rfl := Option.some.inj first
    rfl

private theorem stop_fractionText (fraction : List Char) (p : Option ℤ) :
    ∀ c ∈ (fractionText fraction ++ powerText p).head?, c.isDigit = false := by
  cases fraction with
  | nil => exact stop_powerText p
  | cons d fraction =>
    intro c first
    obtain rfl := Option.some.inj first
    rfl

/-- A numeral can be read off its text. -/
theorem text_injective (sound : n.Sound) (sound' : m.Sound) (eq : n.text = m.text) : n = m := by
  obtain ⟨whole, fraction, power⟩ := n
  obtain ⟨whole', fraction', power'⟩ := m
  obtain ⟨wholes, rest⟩ :
      whole = whole' ∧ fractionText fraction ++ powerText power = fractionText fraction' ++ powerText power' :=
    append_inj_of_stop sound.whole sound'.whole (stop_fractionText fraction power)
      (stop_fractionText fraction' power') eq
  -- a point stands in both texts or in none
  have same : fraction = fraction' ∧ powerText power = powerText power' := by
    cases fraction with
    | nil =>
      cases fraction' with
      | nil => exact ⟨rfl, rest⟩
      | cons d fraction' =>
        cases power with
        | none => cases rest
        | some power => exact absurd (List.cons.inj rest).1 (by decide)
    | cons d fraction =>
      cases fraction' with
      | nil =>
        cases power' with
        | none => cases rest
        | some power' => exact absurd (List.cons.inj rest).1 (by decide)
      | cons d' fraction' =>
        exact append_inj_of_stop sound.fraction sound'.fraction (stop_powerText power) (stop_powerText power')
          (List.cons.inj rest).2
  obtain ⟨fractions, powers⟩ := same
  rw [wholes, fractions, powerText_injective powers]

end Numeral

/-! ### The numeral of a decimal -/

namespace NumberStyle

def plainNumeral (style : NumberStyle) (digits : List Char) (point : ℤ) : Numeral :=
  if point ≤ 0 then ⟨['0'], List.replicate (-point).toNat '0' ++ digits, none⟩
  else if (digits.length : ℤ) ≤ point then
    ⟨digits ++ List.replicate (point - digits.length).toNat '0', if style.marked then ['0'] else [], none⟩
  else ⟨digits.take point.toNat, digits.drop point.toNat, none⟩

def scientificNumeral (digits : List Char) (point : ℤ) : Numeral := ⟨digits.take 1, digits.drop 1, some (point - 1)⟩

/-- The numeral of a decimal. -/
def numeral (style : NumberStyle) (x : Decimal) : Numeral :=
  let digits := Nat.toDigits 10 x.digits
  let point := (digits.length : ℤ) + x.exponent
  match style.bounds with
  | none => style.plainNumeral digits point
  | some (lowest, highest) =>
    if lowest < point ∧ point ≤ highest then style.plainNumeral digits point else scientificNumeral digits point

section

variable (style : NumberStyle) {digits : List Char} (point : ℤ)

theorem text_plainNumeral (some_digits : digits ≠ []) :
    (style.plainNumeral digits point).text = style.plain digits point := by
  have appended (fraction : List Char) (some_digits : fraction ≠ []) :
      Numeral.fractionText fraction = '.' :: fraction := by
    obtain ⟨d, rest, rfl⟩ := List.exists_cons_of_ne_nil some_digits
    rfl
  unfold plainNumeral plain
  split
  · have fraction := appended (List.replicate (-point).toNat '0' ++ digits)
      (List.append_ne_nil_of_right_ne_nil _ some_digits)
    simp only [Numeral.text, Numeral.powerText, fraction, List.append_nil]
    rfl
  · split
    · cases style.marked <;> simp only [Numeral.text, Numeral.powerText, Numeral.fractionText] <;> rfl
    · have fraction := appended (digits.drop point.toNat) (by simp; omega)
      simp only [Numeral.text, Numeral.powerText, fraction, List.append_nil]

theorem text_scientificNumeral : (scientificNumeral digits point).text = scientific digits point := by
  simp only [scientificNumeral, Numeral.text, scientific, List.append_assoc]
  cases digits.drop 1 <;> rfl

variable {point}

theorem sound_plainNumeral (all : ∀ c ∈ digits, c.isDigit = true) (some_digits : digits ≠ []) :
    (style.plainNumeral digits point).Sound := by
  have zeros (n : ℕ) : ∀ c ∈ List.replicate n '0', c.isDigit = true := fun c mem => by
    rw [List.eq_of_mem_replicate mem]
    rfl
  unfold plainNumeral
  split
  · refine ⟨zeros 1, fun c mem => ?_, List.cons_ne_nil _ _⟩
    exact (List.mem_append.1 mem).elim (zeros _ c) (all c)
  · split
    · refine ⟨fun c mem => (List.mem_append.1 mem).elim (all c) (zeros _ c), ?_,
        List.append_ne_nil_of_left_ne_nil some_digits _⟩
      cases style.marked with
      | false => nofun
      | true => exact zeros 1
    · refine ⟨fun c mem => all c (List.mem_of_mem_take mem), fun c mem => all c (List.mem_of_mem_drop mem), ?_⟩
      simp only [ne_eq, List.take_eq_nil_iff, some_digits, or_false]
      omega

theorem sound_scientificNumeral (all : ∀ c ∈ digits, c.isDigit = true) (some_digits : digits ≠ []) :
    (scientificNumeral digits point).Sound :=
  ⟨fun c mem => all c (List.mem_of_mem_take mem), fun c mem => all c (List.mem_of_mem_drop mem), by
    simp [scientificNumeral, some_digits]⟩

end

/-- The value of digits before and behind a point is that of all the digits, with another power of ten. -/
private theorem value_of_digits {whole fraction : List Char} {power : Option ℤ} {d : ℕ} {k : ℤ} (zeros : ℕ)
    (digits : Nat.ofDigitChars 10 (whole ++ fraction) 0 = d * 10 ^ zeros)
    (exponent : power.getD 0 - fraction.length + zeros = k) :
    (⟨whole, fraction, power⟩ : Numeral).value = d * 10 ^ k := by
  have ten : (10 : ℚ) ≠ 0 := by norm_num
  rw [Numeral.value, digits, ← exponent, zpow_add₀ ten]
  push_cast
  rw [zpow_natCast]
  ring

variable (style : NumberStyle) (x : Decimal)

private theorem value_plainNumeral {point : ℤ} (placed : point = (Nat.toDigits 10 x.digits).length + x.exponent) :
    (style.plainNumeral (Nat.toDigits 10 x.digits) point).value = x.value := by
  have digits : Nat.ofDigitChars 10 (Nat.toDigits 10 x.digits) 0 = x.digits := Nat.ofDigitChars_ten_toDigits
  unfold plainNumeral
  split
  · refine value_of_digits 0 ?_ ?_
    · rw [List.cons_append, List.nil_append, Nat.ofDigitChars_cons, Nat.ofDigitChars_append,
        Nat.ofDigitChars_replicate_zero]
      simp
    · simp only [Option.getD_none, List.length_append, List.length_replicate]
      omega
  · split
    · have padded : Nat.ofDigitChars 10 (Nat.toDigits 10 x.digits ++
          List.replicate (point - (Nat.toDigits 10 x.digits).length).toNat '0') 0 =
            x.digits * 10 ^ (point - (Nat.toDigits 10 x.digits).length).toNat := by
        rw [Nat.ofDigitChars_append, digits, Nat.ofDigitChars_replicate_zero, Nat.mul_comm]
      cases style.marked with
      | false =>
        refine value_of_digits (point - (Nat.toDigits 10 x.digits).length).toNat ?_ ?_
        · simpa using padded
        · simp
          omega
      | true =>
        refine value_of_digits ((point - (Nat.toDigits 10 x.digits).length).toNat + 1) ?_ ?_
        · rw [Nat.ofDigitChars_append, padded, pow_succ]
          simp [Nat.ofDigitChars_cons]
          ring
        · simp
          omega
    · refine value_of_digits 0 ?_ ?_
      · rw [List.take_append_drop, digits, pow_zero, Nat.mul_one]
      · simp only [Option.getD_none, List.length_drop]
        omega

private theorem value_scientificNumeral {point : ℤ}
    (placed : point = (Nat.toDigits 10 x.digits).length + x.exponent) :
    (scientificNumeral (Nat.toDigits 10 x.digits) point).value = x.value := by
  have digits : Nat.ofDigitChars 10 (Nat.toDigits 10 x.digits) 0 = x.digits := Nat.ofDigitChars_ten_toDigits
  have begins : 0 < (Nat.toDigits 10 x.digits).length := Nat.length_toDigits_pos
  refine value_of_digits 0 ?_ ?_
  · rw [List.take_append_drop, digits, pow_zero, Nat.mul_one]
  · simp only [Option.getD_some, List.length_drop]
    omega

/-- A numeral has the value of the decimal. -/
theorem value_numeral : (style.numeral x).value = x.value := by
  unfold numeral
  dsimp only
  split
  · exact value_plainNumeral style x rfl
  · split
    · exact value_plainNumeral style x rfl
    · exact value_scientificNumeral x rfl

theorem sound_numeral : (style.numeral x).Sound := by
  have all : ∀ c ∈ Nat.toDigits 10 x.digits, c.isDigit = true := fun c mem =>
    Nat.isDigit_of_mem_toDigits (by decide) (by decide) mem
  have begins : Nat.toDigits 10 x.digits ≠ [] := Nat.toDigits_ne_nil
  unfold numeral
  dsimp only
  split
  · exact sound_plainNumeral style all begins
  · split
    · exact sound_plainNumeral style all begins
    · exact sound_scientificNumeral all begins

theorem text_numeral : (style.numeral x).text = style.decimal x := by
  have begins : Nat.toDigits 10 x.digits ≠ [] := Nat.toDigits_ne_nil
  unfold numeral decimal
  cases style.bounds with
  | none => exact style.text_plainNumeral _ begins
  | some bounds =>
    dsimp only
    split
    · exact style.text_plainNumeral _ begins
    · exact text_scientificNumeral _

/-- The text of a decimal shows its value. -/
theorem value_eq_of_decimal {x y : Decimal} (eq : style.decimal x = style.decimal y) : x.value = y.value := by
  rw [← text_numeral, ← text_numeral] at eq
  rw [← style.value_numeral, Numeral.text_injective (style.sound_numeral x) (style.sound_numeral y) eq, value_numeral]

/-- Unless whole numbers stand without a mark, a point or a power of ten shows that the text is no integer's. -/
theorem marked_numeral (marked : style.marked = true) :
    (style.numeral x).fraction ≠ [] ∨ (style.numeral x).power ≠ none := by
  have begins : Nat.toDigits 10 x.digits ≠ [] := Nat.toDigits_ne_nil
  have plain (point : ℤ) : (style.plainNumeral (Nat.toDigits 10 x.digits) point).fraction ≠ [] := by
    unfold plainNumeral
    split
    · exact List.append_ne_nil_of_right_ne_nil _ begins
    · split
      · exact List.cons_ne_nil _ _
      · simp only [ne_eq, List.drop_eq_nil_iff]
        omega
  unfold numeral
  dsimp only
  split
  · exact .inl (plain _)
  · split
    · exact .inl (plain _)
    · exact .inr nofun

end NumberStyle

/-! ### Numbers in JSON texts -/

namespace Json

/-- The characters of numbers. -/
def inNumber (c : Char) : Bool := c.isDigit || c = '-' || c = '+' || c = '.' || c = 'e'

theorem intText_ne_nil (n : ℤ) : intText n ≠ [] := by
  unfold intText
  split
  · exact List.cons_ne_nil _ _
  · exact Nat.toDigits_ne_nil

private theorem digit_or_sign {n : ℤ} {c : Char} (mem : c ∈ intText n) : c.isDigit = true ∨ c = '-' := by
  have digit (mem : c ∈ Nat.toDigits 10 n.natAbs) : c.isDigit = true :=
    Nat.isDigit_of_mem_toDigits (by decide) (by decide) mem
  unfold intText at mem
  split at mem
  · exact (List.mem_cons.1 mem).symm.imp_left digit
  · exact .inl (digit mem)

theorem inNumber_of_mem_intText {n : ℤ} {c : Char} (mem : c ∈ intText n) : inNumber c = true := by
  rcases digit_or_sign mem with digit | sign
  · simp [inNumber, digit]
  · rw [sign]
    rfl

/-- A decimal begins with a digit. -/
private theorem decimal_begins (style : NumberStyle) (x : Decimal) :
    ∃ c rest, style.decimal x = c :: rest ∧ c.isDigit = true := by
  have sound := style.sound_numeral x
  obtain ⟨c, whole, eq⟩ := List.exists_cons_of_ne_nil sound.begins
  have digit : c.isDigit = true := sound.whole c (eq ▸ List.mem_cons_self)
  have text : style.decimal x = (style.numeral x).whole ++ _ := (style.text_numeral x).symm
  rw [eq] at text
  exact ⟨c, _, text, digit⟩

private theorem inNumber_of_mem_decimal {style : NumberStyle} {x : Decimal} {c : Char} (mem : c ∈ style.decimal x) :
    inNumber c = true := by
  have digit (digit : c.isDigit = true) : inNumber c = true := by simp [inNumber, digit]
  have sound := style.sound_numeral x
  rw [← style.text_numeral, Numeral.text, List.mem_append, List.mem_append] at mem
  rcases mem with mem | mem | mem
  · exact digit (sound.whole c mem)
  · cases fraction : (style.numeral x).fraction with
    | nil => simp [fraction, Numeral.fractionText] at mem
    | cons d rest =>
      rw [fraction] at mem
      rcases List.mem_cons.1 mem with rfl | mem
      · rfl
      · exact digit (sound.fraction c (fraction ▸ mem))
  · cases power : (style.numeral x).power with
    | none => simp [power, Numeral.powerText] at mem
    | some p =>
      rw [power] at mem
      simp only [Numeral.powerText, List.mem_cons] at mem
      rcases mem with rfl | rfl | mem
      · rfl
      · split <;> rfl
      · exact digit (Nat.isDigit_of_mem_toDigits (by decide) (by decide) mem)

theorem floatText_ne_nil (x : Double) : floatText x ≠ [] := by
  obtain ⟨c, rest, begins, -⟩ := decimal_begins floatStyle (x.shortest .toEven)
  exact List.append_ne_nil_of_right_ne_nil _ (begins ▸ List.cons_ne_nil c rest)

/-- Numbers are written in the characters of numbers. -/
theorem inNumber_of_mem_floatText {x : Double} {c : Char} (mem : c ∈ floatText x) : inNumber c = true := by
  rcases List.mem_append.1 mem with mem | mem
  · split at mem
    · rw [List.mem_singleton.1 mem]
      rfl
    · cases mem
  · exact inNumber_of_mem_decimal mem

/-- The text of a number shows which number it is. -/
theorem floatText_injective {x y : Double} (eq : floatText x = floatText y) : x = y := by
  obtain ⟨c, rest, begins, digit⟩ := decimal_begins floatStyle (x.shortest .toEven)
  obtain ⟨c', rest', begins', digit'⟩ := decimal_begins floatStyle (y.shortest .toEven)
  have no_sign {c : Char} (digit : c.isDigit = true) : '-' ≠ c := by
    rintro rfl
    cases digit
  have parts : x.negative = y.negative ∧
      floatStyle.decimal (x.shortest .toEven) = floatStyle.decimal (y.shortest .toEven) := by
    have eq : (if x.negative then ['-'] else []) ++ floatStyle.decimal (x.shortest .toEven) =
        (if y.negative then ['-'] else []) ++ floatStyle.decimal (y.shortest .toEven) := eq
    cases negative : x.negative <;> cases negative' : y.negative <;> rw [negative, negative'] at eq
    · exact ⟨rfl, eq⟩
    · rw [begins] at eq
      exact absurd (List.cons.inj eq).1.symm (no_sign digit)
    · rw [begins'] at eq
      exact absurd (List.cons.inj eq).1 (no_sign digit')
    · exact ⟨rfl, (List.cons.inj eq).2⟩
  -- both numbers are what one decimal rounds to
  have rounds := x.rounds_shortest .toEven
  rw [floatStyle.value_eq_of_decimal parts.2] at rounds
  obtain ⟨mantissas, exponents⟩ := rounds.unique (y.rounds_shortest .toEven)
  obtain ⟨sign, mantissa, exponent, canonical⟩ := x
  obtain ⟨sign', mantissa', exponent', canonical'⟩ := y
  obtain rfl : sign = sign' := parts.1
  obtain rfl : mantissa = mantissa' := mantissas
  obtain rfl : exponent = exponent' := exponents
  rfl

theorem intText_injective {m n : ℤ} (eq : intText m = intText n) : m = n := by
  have no_sign {a b : ℕ} (eq : '-' :: Nat.toDigits 10 a = Nat.toDigits 10 b) : False := by
    have digit := Nat.isDigit_of_mem_toDigits (b := 10) (n := b) (by decide) (by decide) (eq ▸ List.mem_cons_self)
    cases digit
  unfold intText at eq
  split at eq <;> split at eq
  · have size := toDigits_injective (List.cons.inj eq).2
    omega
  · exact (no_sign eq).elim
  · exact (no_sign eq.symm).elim
  · have size := toDigits_injective eq
    omega

/-- The text of a number that is not an integer shows a point or a power of ten. -/
theorem intText_ne_floatText (n : ℤ) (x : Double) : intText n ≠ floatText x := by
  intro eq
  have mark : ∃ c ∈ floatText x, c = '.' ∨ c = 'e' := by
    have text : floatText x = _ ++ (floatStyle.numeral (x.shortest .toEven)).text :=
      congrArg ((if x.negative then ['-'] else []) ++ ·) (floatStyle.text_numeral (x.shortest .toEven)).symm
    rw [text, Numeral.text]
    rcases floatStyle.marked_numeral (x.shortest .toEven) rfl with fraction | power
    · obtain ⟨d, rest, eq⟩ := List.exists_cons_of_ne_nil fraction
      exact ⟨'.', by simp [eq, Numeral.fractionText], .inl rfl⟩
    · obtain ⟨p, eq⟩ := Option.ne_none_iff_exists'.1 power
      exact ⟨'e', by simp [eq, Numeral.powerText], .inr rfl⟩
  obtain ⟨c, mem, rfl | rfl⟩ := mark <;> rcases digit_or_sign (eq ▸ mem) with digit | sign <;> contradiction

end Json

end Segmentation
