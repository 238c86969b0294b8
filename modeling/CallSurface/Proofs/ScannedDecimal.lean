/-
Decimals that are scanned are rounded correctly.

`Numeral.toRat` is the exact value of a numeral, whatever the number of its digits. The scan makes one quotient of
naturals of it (`toRat_eq_signed`) and rounds this quotient once, into the kind that is asked for. An exponent is kept in
full as long as it is below the size at which no further digits are taken (`Exponent.value_eq_written`).

The literal that counts is the longest one at the front of the input. The text of a numeral determines its parts
(`Numeral.token_eq_of_text_eq`), so a scan takes this very numeral (`reads_of_longest_numeral`).

Main result: `scanned_decimal_is_nearest`.
-/
import CallSurface.Proofs.CorrectRounding
import CallSurface.Proofs.FloatLiteral

namespace CallSurface

open Scanner (Stops)

/-! ## Exact values -/

theorem tenPow_eq (n : ℕ) : tenPow n = 10 ^ n :=
  rfl

theorem ten_zpow_eq (e : ℤ) : (10 : ℚ) ^ e = tenPow e.toNat / tenPow (-e).toNat := by
  rcases le_total 0 e with he | he
  · obtain ⟨n, rfl⟩ := Int.eq_ofNat_of_zero_le he
    simp [tenPow_eq]
  · obtain ⟨n, hn⟩ := Int.eq_ofNat_of_zero_le (Int.neg_nonneg_of_nonpos he)
    obtain rfl : e = -n := by omega
    simp [tenPow_eq]

theorem Decimal.ofDigits_append (ds es : Bytes) : ofDigits (ds ++ es) = ofDigits ds * tenPow es.length + ofDigits es := by
  induction es using List.reverseRecOn with
  | nil => simp [tenPow]
  | append_singleton es b ih =>
    rw [← List.append_assoc, ofDigits_append_singleton, ofDigits_append_singleton, ih, List.length_append,
      List.length_singleton, tenPow_succ]
    ring

namespace Exponent

/-- the exponent that is written, of any size -/
def written (e : Exponent) : ℤ :=
  if e.sign.any isMinus then -(Decimal.ofDigits e.digits : ℤ) else Decimal.ofDigits e.digits

/-- below the size at which digits are no longer taken, all of them are -/
theorem magnitude_eq_ofDigits {e : Exponent} (h : Decimal.ofDigits e.digits < saturation) :
    e.magnitude = Decimal.ofDigits e.digits := by
  unfold magnitude
  generalize e.digits = ds at h ⊢
  induction ds using List.reverseRecOn with
  | nil => rfl
  | append_singleton ds b ih =>
    rw [Decimal.ofDigits_append_singleton] at h ⊢
    have hfront : Decimal.ofDigits ds < saturation := by omega
    rw [List.foldl_append, ih hfront]
    simp [hfront]

theorem value_eq_written {e : Exponent} (h : Decimal.ofDigits e.digits < saturation) : e.value = e.written := by
  rw [value, written, magnitude_eq_ofDigits h]

end Exponent

namespace Numeral

/-- the number that a numeral denotes, exactly -/
def toRat (n : Numeral) : ℚ :=
  (if n.sign.any isMinus then -1 else 1) *
    (Decimal.ofDigits n.whole + Decimal.ofDigits (n.places.getD []) / 10 ^ (n.places.getD []).length) *
    10 ^ (n.exponent.map Exponent.written).getD 0

/-- as a quotient of naturals, in parts of `1 / u` -/
theorem toRat_eq_signed (n : Numeral) {u : ℕ} (hu : 0 < u) {e : ℤ}
    (he : e = (n.exponent.map Exponent.written).getD 0 - (n.places.getD []).length) :
    n.toRat =
      signed (n.sign.any isMinus) (Decimal.ofDigits n.mantissa * tenPow e.toNat * u) / (tenPow (-e).toNat * u) := by
  have hu' : (u : ℚ) ≠ 0 := Nat.cast_ne_zero.2 hu.ne'
  have hten : (10 : ℚ) ^ (n.exponent.map Exponent.written).getD 0 = 10 ^ e * 10 ^ (n.places.getD []).length := by
    rw [he, ← zpow_natCast, ← zpow_add₀ (by norm_num), sub_add_cancel]
  have hplaces : (10 : ℚ) ^ (n.places.getD []).length ≠ 0 := by positivity
  have hdigits : (Decimal.ofDigits n.mantissa : ℚ) =
      Decimal.ofDigits n.whole * 10 ^ (n.places.getD []).length + Decimal.ofDigits (n.places.getD []) := by
    rw [mantissa, Decimal.ofDigits_append, tenPow_eq]
    push_cast
    ring
  have hsign : (signed (n.sign.any isMinus) (Decimal.ofDigits n.mantissa) : ℚ) =
      (if n.sign.any isMinus then -1 else 1) * Decimal.ofDigits n.mantissa := by
    unfold signed
    split_ifs <;> simp
  rw [Nat.mul_assoc, ← signed_mul, Int.cast_mul, hsign, toRat, hten, ten_zpow_eq, hdigits]
  push_cast
  field_simp

/-! ## The numeral that is scanned -/

theorem kept_token {n : Numeral} (h : ∀ e ∈ n.exponent, e.digits ≠ []) : n.kept.token = n.token := by
  have hkept : n.kept.exponent = n.exponent := by
    cases he : n.exponent with
    | none => simp [kept, he]
    | some e => simp [kept, he, h e he]
  simp only [token, hkept]
  rfl

/-- the text of a numeral determines its parts -/
theorem token_eq_of_text_eq {m n : Numeral} (h : m.text = n.text) : m.kept.token = n.kept.token := by
  have hread : ∀ l : Numeral, (Scanner.floatToken ⟨⟨[.data l.text], none⟩, []⟩).1 = l.kept.token := by
    intro l
    have hstops : Scanner.Stops startsWord (l.unsigned ++ []) := by
      rw [List.append_nil]
      exact l.stops_startsWord_unsigned
    have htoken := l.ends_nil.reads (show ([] : Bytes).all isBlank = true from rfl) hstops
    rw [List.nil_append, List.append_nil] at htoken
    exact (htoken.deliver (Reader.delivers_data l.text)).1
  rw [← hread m, ← hread n, h]

end Numeral

/-- **The longest literal is what a scan takes**, if it is a numeral. -/
theorem reads_of_longest_numeral {n : Numeral} (hmantissa : n.mantissa ≠ []) (hexponent : ∀ e ∈ n.exponent, e.digits ≠ [])
    {blanks rest : Bytes} (hblanks : blanks.all isBlank = true) (hlongest : Longest IsLiteral n.text rest) :
    ∃ left, Scanner.Reads Scanner.floatToken (blanks ++ (n.text ++ rest)) n.token left [] := by
  have hstop : Stops isBlank (n.text ++ rest) := by
    obtain ⟨b, bs, hb⟩ : ∃ b bs, n.text = b :: bs := by
      obtain ⟨b, bs, hb⟩ := Numeral.exists_cons_unsigned hmantissa
      exact List.exists_cons_of_ne_nil (by simp [Numeral.text, hb])
    rw [hb]
    exact Scanner.stops_cons _ (isBlank_eq_false_of_decimalShape b bs (hb ▸ n.decimalShape))
  have hdrop : (blanks ++ (n.text ++ rest)).dropWhile isBlank = n.text ++ rest := by
    rw [List.dropWhile_append_of_pos (List.all_eq_true.1 hblanks)]
    exact dropWhile_eq_self_of_stops hstop
  have hfront : (FloatLiteral.decimal n hmantissa hexponent).text <+: (blanks ++ (n.text ++ rest)).dropWhile isBlank := by
    rw [hdrop]
    exact List.prefix_append _ _
  obtain ⟨l, after, t, hsplit, hlongest', ⟨left, hreads⟩, hfound, -⟩ := exists_longest_literal hfront
  rw [hdrop] at hsplit
  have htext : n.text = l.text := hlongest.eq_of_append_eq hlongest' hsplit
  -- a literal with the text of a numeral is a numeral, and the same one
  have hdecimal : l.isWord = false :=
    n.ends_nil.isWord_eq_false (by rw [List.append_nil]; exact n.stops_startsWord_unsigned) (by simp [htext])
  cases l with
  | word sign letters hsign hknown => cases hdecimal
  | decimal m hm he =>
    have htoken : m.token = n.token := by
      rw [← Numeral.kept_token he, ← Numeral.kept_token hexponent, Numeral.token_eq_of_text_eq htext.symm]
    rw [hfound (fun h => absurd h Bool.false_ne_true), FloatLiteral.token, htoken] at hreads
    exact ⟨left, hreads⟩

/-- a numeral whose exponent is kept in full denotes the bit pattern nearest to its exact value -/
theorem Numeral.isNearest_value (k : FloatKind) {n : Numeral} (hmantissa : n.mantissa ≠ [])
    (hexponent : ∀ e ∈ n.exponent, e.digits ≠ [])
    (hsize : ∀ e ∈ n.exponent, Decimal.ofDigits e.digits < Exponent.saturation) :
    k.IsNearest (n.sign.any isMinus) n.toRat ((FloatLiteral.decimal n hmantissa hexponent).value k) := by
  have hwritten : (n.exponent.map Exponent.value).getD 0 = (n.exponent.map Exponent.written).getD 0 := by
    cases he : n.exponent with
    | none => rfl
    | some e => exact Exponent.value_eq_written (hsize e he)
  rw [FloatLiteral.value, FloatToken.decimalValue, hwritten, n.toRat_eq_signed k.stepsPerOne_pos rfl]
  exact k.isNearest_nearest _ _ (tenPow_pos _)

/-! ## Scans of a kind -/

/-- **Scanned decimals are rounded correctly, and once.** Let the longest literal at the front of input without failures,
behind blanks, be a numeral with any number of digits and an exponent below 65536. Then a scan of either float kind gives
the one bit pattern of this kind that is nearest to the exact value of the numeral, of its sign, as `IsNearest` says. In
particular the narrow kind is not reached through the wide one: rounding a second time may give another value. -/
theorem scanned_decimal_is_nearest :
    (∀ (k : FloatKind) (n : Numeral) (blanks rest : Bytes) (r : Reader), n.mantissa ≠ [] →
      (∀ e ∈ n.exponent, e.digits ≠ [] ∧ Decimal.ofDigits e.digits < 65536) → blanks.all isBlank = true →
      Longest IsLiteral n.text rest → r.Delivers (blanks ++ (n.text ++ rest)) →
      ∃ x : BitVec k.bits, (Scanner.scalar (.float k) ⟨r, []⟩).1 = some (.float k x) ∧
        ∀ y, k.IsNearest (n.sign.any isMinus) n.toRat y ↔ y = x) ∧
    ∃ (r : Reader) (input : Bytes) (x : BitVec FloatKind.f64.bits) (y : BitVec FloatKind.f32.bits), r.Delivers input ∧
      (Scanner.scalar (.float .f64) ⟨r, []⟩).1 = some (.float .f64 x) ∧
      (Scanner.scalar (.float .f32) ⟨r, []⟩).1 = some (.float .f32 y) ∧ FloatKind.f64.toFloat .f32 x ≠ y := by
  constructor
  · intro k n blanks rest r hmantissa hexponent hblanks hlongest hr
    have hdigits : ∀ e ∈ n.exponent, e.digits ≠ [] := fun e he => (hexponent e he).1
    obtain ⟨left, hreads⟩ := reads_of_longest_numeral hmantissa hdigits hblanks hlongest
    obtain ⟨hvalue, -⟩ := (Scanner.reads_scalar_float k hreads).deliver hr
    have hnearest := Numeral.isNearest_value k hmantissa hdigits fun e he => (hexponent e he).2
    refine ⟨(FloatLiteral.decimal n hmantissa hdigits).value k, ?_, ?_⟩
    · have htoken := FloatLiteral.value?_token k (.decimal n hmantissa hdigits)
      rw [FloatLiteral.token] at htoken
      rw [hvalue, htoken]
      rfl
    · intro y
      constructor
      · intro hy
        exact hy.eq hnearest
      · rintro rfl
        exact hnearest
  · -- just above the midpoint of two narrow values, by less than the wide kind can tell
    exact ⟨⟨[.data (asciiBytes "1.0000000596046447753906250001")], none⟩, _, 0x3FF0000010000000, 0x3F800001,
      Reader.delivers_data _, by decide +kernel, by decide +kernel, by decide +kernel⟩

/-- the same number with an exponent, at the front of the input behind a line feed, scanned as the narrow kind -/
theorem scanned_decimal_is_nearest_above_midpoint :
    let n : Numeral := ⟨none, asciiBytes "10000000596046447753906250001", none, some ⟨101, some 45, asciiBytes "28"⟩,
      rfl, by decide, by simp, fun e he => Option.mem_some_iff.1 he ▸ ⟨rfl, rfl, rfl⟩⟩
    let r : Reader := ⟨[.data (10 :: n.text)], none⟩
    (n.mantissa ≠ [] ∧ (∀ e ∈ n.exponent, e.digits ≠ [] ∧ Decimal.ofDigits e.digits < 65536) ∧
      Longest IsLiteral n.text [] ∧ r.Delivers ([10] ++ (n.text ++ []))) ∧
    ∃ x : BitVec FloatKind.f32.bits, (Scanner.scalar (.float .f32) ⟨r, []⟩).1 = some (.float .f32 x) ∧
      ∀ y, FloatKind.f32.IsNearest false n.toRat y ↔ y = x := by
  intro n r
  have hmantissa : n.mantissa ≠ [] := by decide
  have hexponent : ∀ e ∈ n.exponent, e.digits ≠ [] ∧ Decimal.ofDigits e.digits < 65536 := by
    rintro _ ⟨⟩
    decide
  have hliteral : IsLiteral n.text := ⟨.decimal n hmantissa fun e he => (hexponent e he).1, rfl⟩
  have hlongest : Longest IsLiteral n.text [] :=
    ⟨hliteral, fun u hu _ => by rw [List.append_nil] at hu; exact hu.length_le⟩
  have hr : r.Delivers ([10] ++ (n.text ++ [])) := by
    rw [List.append_nil]
    exact Reader.delivers_data _
  exact ⟨⟨hmantissa, hexponent, hlongest, hr⟩,
    scanned_decimal_is_nearest.1 .f32 n [10] [] r hmantissa hexponent rfl hlongest hr⟩

end CallSurface
