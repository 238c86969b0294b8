/-
The text of a float is a normal form: scanning it gives a float with the same text.

The scanned value need not be the printed one, for six places may be too few to tell it from its neighbours. Let `s` be
the printed magnitude in least steps, `u` its text in millionths and `s'` the scanned magnitude. The printer keeps `u`
within half a millionth of `s`, and the scan takes a magnitude that is at least as near to `u` as `s` is. So `s'` is less
than half a millionth from `u`, and printed as `u` again, unless both are exactly half a millionth away. Then they are
the same, or a whole millionth apart, which no two floats are: their distance is a multiple of a power of two.

`float_text_stable` covers every bit pattern of both kinds. `textCode_lt_infinityCode` is the one place where the range
of a kind matters: the text of a finite float is scanned as a finite float.
-/
import CallSurface.Proofs.BitPattern
import CallSurface.Proofs.CleanInput
import CallSurface.Proofs.DecimalNotation
import CallSurface.Text.Scalar

namespace CallSurface

/-! ## Magnitudes -/

/-- Let `u` units stand for `s` steps, at `S` steps to `T` units. A magnitude at least as near to them is written with
the same number of units, if no two magnitudes are exactly one unit apart. -/
theorem roundDiv_stable {s s' T S : ℕ} (hS : 0 < S)
    (hnear : Nat.dist (s' * T) (roundDiv (s * T) S * S) ≤ Nat.dist (s * T) (roundDiv (s * T) S * S))
    (hunit : s' * T ≠ s * T + S ∧ s * T ≠ s' * T + S) : roundDiv (s' * T) S = roundDiv (s * T) S := by
  have hround := two_mul_dist_roundDiv_le (s * T) hS
  by_cases hlt : 2 * Nat.dist (roundDiv (s * T) S * S) (s' * T) < S
  · exact roundDiv_eq_of_dist_lt hlt
  · -- a tie on both sides: the magnitudes are equal, as they are not a unit apart
    have heq : s' * T = s * T := by
      unfold Nat.dist at hnear hround hlt
      omega
    rw [heq]

namespace FloatKind

variable (k : FloatKind)

/-- one is a power of two steps, which no number of millionths makes up -/
theorem not_millionth_apart (s s' : ℕ) : s' * tenPow textPlaces ≠ s * tenPow textPlaces + k.stepsPerOne := by
  intro h
  have hfive : 5 ∣ tenPow textPlaces := by decide
  have hsteps : 5 ∣ k.stepsPerOne :=
    (Nat.dvd_add_right (hfive.mul_left s)).1 (h ▸ hfive.mul_left s')
  have htwo : 5 ∣ 2 := Nat.Prime.dvd_of_dvd_pow (by decide) hsteps
  exact absurd htwo (by decide)

/-- beside infinity the steps between floats are far wider than one -/
theorem gap_below_infinity :
    k.codeSteps (k.infinityCode - 1) * tenPow textPlaces + k.stepsPerOne <
      k.codeSteps k.infinityCode * tenPow textPlaces := by
  cases k <;> decide +kernel

/-- the code that a text of `u` millionths is scanned as -/
def textCode (u : ℕ) : ℕ :=
  k.roundCode (u * k.stepsPerOne) (tenPow textPlaces)

/-- the code of a text is at least as near to it as the code that was printed -/
theorem dist_textCode_le (u c : ℕ) :
    Nat.dist (k.codeSteps (k.textCode u) * tenPow textPlaces) (u * k.stepsPerOne) ≤
      Nat.dist (k.codeSteps c * tenPow textPlaces) (u * k.stepsPerOne) :=
  k.dist_roundCode_le _ (tenPow_pos _) c

variable {k} {x : BitVec k.bits}

theorem dist_lastPlaceUnits (x : BitVec k.bits) :
    2 * Nat.dist (k.lastPlaceUnits x * k.stepsPerOne) (k.steps x * tenPow textPlaces) ≤ k.stepsPerOne :=
  two_mul_dist_roundDiv_le _ k.stepsPerOne_pos

/-- the text of a finite float is scanned as a finite float -/
theorem textCode_lt_infinityCode (hx : k.code x < k.infinityCode) : k.textCode (k.lastPlaceUnits x) < k.infinityCode := by
  by_contra hinf
  have hle : k.codeSteps k.infinityCode ≤ k.codeSteps (k.textCode (k.lastPlaceUnits x)) :=
    k.codeSteps_strictMono.monotone (Nat.le_of_not_lt hinf)
  have hmax : k.steps x ≤ k.codeSteps (k.infinityCode - 1) := k.codeSteps_strictMono.monotone (by omega)
  have hgap := k.gap_below_infinity
  have hnear := k.dist_textCode_le (k.lastPlaceUnits x) (k.code x)
  have hround := dist_lastPlaceUnits x
  have hle' := Nat.mul_le_mul_right (tenPow textPlaces) hle
  have hmax' := Nat.mul_le_mul_right (tenPow textPlaces) hmax
  rw [show k.codeSteps (k.code x) = k.steps x from rfl] at hnear
  unfold Nat.dist at hnear hround
  omega

/-- and it is written with the same number of millionths -/
theorem roundDiv_textCode (x : BitVec k.bits) :
    roundDiv (k.codeSteps (k.textCode (k.lastPlaceUnits x)) * tenPow textPlaces) k.stepsPerOne = k.lastPlaceUnits x :=
  roundDiv_stable k.stepsPerOne_pos (k.dist_textCode_le _ (k.code x))
    ⟨k.not_millionth_apart _ _, k.not_millionth_apart _ _⟩

end FloatKind

/-! ## Scanning a float -/

namespace Scanner

theorem reads_fraction {digits rest : Bytes} (hdigits : digits.all isDigit = true) (hrest : Stops isDigit rest) :
    Reads fraction (46 :: (digits ++ rest)) (some digits) rest [] :=
  (reads_nextIf_some rfl _).bind ((reads_takeWhile hdigits hrest).bind (reads_pure _ rest))

theorem reads_exponent_none {rest : Bytes} (hrest : Stops isExponentMark rest) : Reads exponent rest none rest [] :=
  (reads_nextIf_none hrest).bind (reads_pure none rest)

/-- what a scan does behind the sign of a float -/
def unsignedFloat (sign : Option UInt8) : Scanner FloatToken := do
  let next ← peek
  if next.any startsWord then
    return .word sign (← takeWhile isLetter)
  else
    let whole ← takeWhile isDigit
    let places ← fraction
    return .decimal sign whole places (← exponent)

theorem floatToken_eq : floatToken = skipBlanks >>= fun _ => nextIf isSign >>= unsignedFloat :=
  rfl

/-- digits, a point and digits, with nothing behind them that could belong to the number -/
theorem reads_pointed {blanks whole places rest : Bytes} {sign : Option UInt8} (hblanks : blanks.all isBlank = true)
    (hsign : sign.all isSign = true) (hwhole : whole.all isDigit = true) (hne : whole ≠ [])
    (hplaces : places.all isDigit = true) (hdigit : Stops isDigit rest) (hmark : Stops isExponentMark rest) :
    Reads floatToken (blanks ++ (sign.toList ++ (whole ++ 46 :: (places ++ rest))))
      (.decimal sign whole (some places) none) rest [] := by
  obtain ⟨d, ds, rfl⟩ := List.exists_cons_of_ne_nil hne
  have hd := isDigit_excludes (List.all_eq_true.1 hwhole d List.mem_cons_self)
  rw [floatToken_eq]
  refine reads_signed hblanks (stops_blank_signed hsign (stops_cons _ hd.1)) hsign (fun _ => stops_cons _ hd.2.1) ?_
  refine (reads_peek _).bind ?_
  have hnumber : (some d).any startsWord = false := hd.2.2.2.1
  simp only [List.cons_append, List.head?_cons, hnumber, Bool.false_eq_true, ↓reduceIte]
  exact (reads_takeWhile hwhole (stops_cons _ rfl)).bind ((reads_fraction hplaces hdigit).bind
    ((reads_exponent_none hmark).bind (reads_pure _ rest)))

/-- a word that begins as words do, with nothing behind it that could belong to it -/
theorem reads_word {blanks letters rest : Bytes} {sign : Option UInt8} {b : UInt8} (hblanks : blanks.all isBlank = true)
    (hsign : sign.all isSign = true) (hfirst : isBlank b = false ∧ isSign b = false ∧ startsWord b = true)
    (hletters : (b :: letters).all isLetter = true) (hrest : Stops isLetter rest) :
    Reads floatToken (blanks ++ (sign.toList ++ (b :: letters ++ rest))) (.word sign (b :: letters)) rest [] := by
  rw [floatToken_eq]
  refine reads_signed hblanks (stops_blank_signed hsign (stops_cons _ hfirst.1)) hsign
    (fun _ => stops_cons _ hfirst.2.1) ?_
  refine (reads_peek _).bind ?_
  have hword : (some b).any startsWord = true := hfirst.2.2
  simp only [List.cons_append, List.head?_cons, hword, ↓reduceIte]
  exact (reads_takeWhile hletters hrest).bind (reads_pure _ rest)

/-- digits around a point, without an exponent, are a whole number of units of the last place -/
theorem value?_pointed (k : FloatKind) (sign : Option UInt8) {whole : Bytes} (hne : whole ≠ []) (places : Bytes) :
    (FloatToken.decimal sign whole (some places) none).value? k =
      some (k.nearest (sign.any isMinus) (Decimal.ofDigits (whole ++ places) * k.stepsPerOne) (tenPow places.length)) := by
  have hdigits : (whole ++ places).isEmpty = false := by simp [hne]
  have hone : tenPow 0 = 1 := rfl
  simp only [FloatToken.value?, Option.getD_some, hdigits, Bool.false_eq_true, ↓reduceIte, Option.map_none,
    Option.getD_none, FloatToken.decimalValue]
  simp [hone]

/-- a token that denotes a float is scanned as that float -/
theorem Reads.float {k : FloatKind} {t : FloatToken} {x : BitVec k.bits} {bs rest : Bytes}
    (ht : Reads floatToken bs t rest []) (hx : t.value? k = some x) : Reads (float k) bs (some x) rest [] := by
  refine ht.bind ?_
  rw [hx]
  exact reads_pure _ rest

end Scanner

/-! ## There and back -/

namespace FloatKind

variable {k : FloatKind}

/-- how a sign bit is written -/
def signByte (neg : Bool) : Option UInt8 :=
  if neg then some 45 else none

theorem all_isSign_signByte (neg : Bool) : (signByte neg).all isSign = true := by
  cases neg <;> rfl

theorem any_isMinus_signByte (neg : Bool) : (signByte neg).any isMinus = neg := by
  cases neg <;> rfl

theorem text_eq (x : BitVec k.bits) : k.text x = (signByte (k.negative x)).toList ++ k.magnitudeText x := by
  unfold text
  cases k.negative x <;> rfl

theorem magnitudeText_of_finite {x : BitVec k.bits} (hx : k.code x < k.infinityCode) :
    k.magnitudeText x = Decimal.fixed textPlaces (k.lastPlaceUnits x) := by
  have hnan : k.isNaN x = false := by simpa [isNaN] using hx.le
  have hinf : k.isInfinite x = false := by simpa [isInfinite] using hx.ne
  simp [magnitudeText, hnan, hinf]

/-- the text of a pattern that is made of a sign and a code -/
theorem text_ofCode (neg : Bool) {c : ℕ} (hc : c < k.signBit) :
    k.text (k.ofCode neg c) = (signByte neg).toList ++
      if k.infinityCode < c then asciiBytes "nan"
      else if c == k.infinityCode then asciiBytes "inf"
      else Decimal.fixed textPlaces (roundDiv (k.codeSteps c * tenPow textPlaces) k.stepsPerOne) := by
  rw [text_eq, negative_ofCode neg hc]
  simp only [magnitudeText, isNaN, isInfinite, lastPlaceUnits, steps, code_ofCode neg hc, decide_eq_true_eq]

/-- the word that a special value is written with is scanned as the value that the word denotes -/
theorem reads_special {x y : BitVec k.bits} {b : UInt8} {letters rest : Bytes} (hmag : k.magnitudeText x = b :: letters)
    (hfirst : isBlank b = false ∧ isSign b = false ∧ startsWord b = true) (hletters : (b :: letters).all isLetter = true)
    (hvalue : FloatToken.wordValue? k (k.negative x) (b :: letters) = some y) (hrest : Scanner.Stops isLetter rest) :
    Scanner.Reads (Scanner.float k) (k.text x ++ rest) (some y) rest [] := by
  have hword := Scanner.reads_word (show ([] : Bytes).all isBlank = true from rfl)
    (all_isSign_signByte (k.negative x)) hfirst hletters hrest
  rw [List.nil_append] at hword
  rw [text_eq, hmag, List.append_assoc]
  refine hword.float ?_
  rw [FloatToken.value?, any_isMinus_signByte, hvalue]

/-- the text of a finite float is scanned as the float nearest to it, of the same sign -/
theorem reads_finite {x : BitVec k.bits} {rest : Bytes} (hx : k.code x < k.infinityCode)
    (hdigit : Scanner.Stops isDigit rest) (hmark : Scanner.Stops isExponentMark rest) :
    Scanner.Reads (Scanner.float k) (k.text x ++ rest)
      (some (k.ofCode (k.negative x) (k.textCode (k.lastPlaceUnits x)))) rest [] := by
  have htoken := Scanner.reads_pointed (show ([] : Bytes).all isBlank = true from rfl)
    (all_isSign_signByte (k.negative x)) (Decimal.all_isDigit_digits (k.lastPlaceUnits x / tenPow textPlaces))
    (Decimal.digits_ne_nil _) (Decimal.all_isDigit_lastDigits textPlaces (k.lastPlaceUnits x)) hdigit hmark
  rw [List.nil_append] at htoken
  have htext : k.text x ++ rest = (signByte (k.negative x)).toList ++
      (Decimal.digits (k.lastPlaceUnits x / tenPow textPlaces) ++
        46 :: (Decimal.lastDigits textPlaces (k.lastPlaceUnits x) ++ rest)) := by
    have hpoint : asciiBytes "." = [46] := rfl
    rw [text_eq, magnitudeText_of_finite hx, Decimal.fixed, hpoint, List.append_assoc, List.append_assoc,
      List.append_assoc, List.singleton_append]
  have hcode : k.nearestCode (k.lastPlaceUnits x * k.stepsPerOne) (tenPow textPlaces) =
      k.textCode (k.lastPlaceUnits x) := by
    rw [nearestCode_eq]
    exact Nat.min_eq_right (textCode_lt_infinityCode hx).le
  rw [htext]
  refine htoken.float ?_
  rw [Scanner.value?_pointed k _ (Decimal.digits_ne_nil _), any_isMinus_signByte, Decimal.ofDigits_fixed,
    Decimal.length_lastDigits, nearest, hcode]

/-- every text of a float can be scanned, and what is scanned has the same text -/
theorem reads_text (x : BitVec k.bits) {rest : Bytes} (hrest : ∀ b ∈ rest.head?, isBlank b = true) :
    ∃ y : BitVec k.bits, Scanner.Reads (Scanner.float k) (k.text x ++ rest) (some y) rest [] ∧ k.text y = k.text x := by
  have hletter : Scanner.Stops isLetter rest := fun b hb => (isBlank_excludes (hrest b hb)).2.2.2.1
  have hdigit : Scanner.Stops isDigit rest := fun b hb => (isBlank_excludes (hrest b hb)).2.1
  have hmark : Scanner.Stops isExponentMark rest := fun b hb => (isBlank_excludes (hrest b hb)).2.2.2.2
  rcases Nat.lt_trichotomy (k.code x) k.infinityCode with hfinite | hinf | hnan
  · have hcode := textCode_lt_infinityCode hfinite
    refine ⟨_, reads_finite hfinite hdigit hmark, ?_⟩
    rw [text_ofCode _ (hcode.trans k.infinityCode_lt_signBit), if_neg (by omega), if_neg (by simpa using hcode.ne),
      roundDiv_textCode, text_eq, magnitudeText_of_finite hfinite]
  · have hmag : k.magnitudeText x = asciiBytes "inf" := by simp [magnitudeText, isNaN, isInfinite, hinf]
    refine ⟨k.infinity (k.negative x), reads_special hmag (by decide) (by decide) rfl hletter, ?_⟩
    rw [infinity, text_ofCode _ k.infinityCode_lt_signBit, text_eq, hmag]
    simp
  · have hmag : k.magnitudeText x = asciiBytes "nan" := by simp [magnitudeText, isNaN, hnan]
    refine ⟨k.nanWithSign (k.negative x), reads_special hmag (by decide) (by decide) rfl hletter, ?_⟩
    rw [nanWithSign, text_ofCode _ k.nanCode_lt_signBit, text_eq, hmag]
    simp [twoPow_pos]

end FloatKind

/-- **The text of a float is a normal form.** The text of any bit pattern of either kind, followed by nothing or by a
blank and anything, is scanned in this kind; the scan leaves exactly what stands behind the text, and what it gives has
the same text. -/
theorem float_text_stable (k : FloatKind) (x : BitVec k.bits) (rest : Bytes) (hrest : ∀ b ∈ rest.head?, isBlank b = true)
    (r : Reader) (hr : r.Delivers ((Scalar.float k x).text ++ rest)) :
    ∃ y : BitVec k.bits, (Scanner.scalar (.float k) ⟨r, []⟩).1 = some (.float k y) ∧
      (Scanner.scalar (.float k) ⟨r, []⟩).2.reader.unread = rest ∧
      (Scalar.float k y).text = (Scalar.float k x).text := by
  obtain ⟨y, hread, htext⟩ := FloatKind.reads_text x hrest
  have hscalar : Scanner.Reads (Scanner.scalar (.float k)) (k.text x ++ rest) (some (.float k y)) rest [] :=
    hread.bind (Scanner.reads_pure _ rest)
  obtain ⟨hvalue, hafter, -⟩ := hscalar.deliver hr
  exact ⟨y, hvalue, hafter.unread, htext⟩

/-- the least negative subnormal, which is written as a negative zero -/
theorem float_text_stable_subnormal :
    let x : BitVec FloatKind.f64.bits := FloatKind.f64.ofCode true 1
    let r : Reader := ⟨[.data ((Scalar.float .f64 x).text ++ [10, 49])], none⟩
    (Scalar.float .f64 x).text = asciiBytes "-0.000000" ∧ ∃ y : BitVec FloatKind.f64.bits,
      (Scanner.scalar (.float .f64) ⟨r, []⟩).1 = some (.float .f64 y) ∧
      (Scanner.scalar (.float .f64) ⟨r, []⟩).2.reader.unread = [10, 49] ∧
      (Scalar.float .f64 y).text = (Scalar.float .f64 x).text :=
  ⟨by decide +kernel, float_text_stable .f64 _ [10, 49] (by simp [isBlank]) _ (Reader.delivers_data _)⟩

end CallSurface
