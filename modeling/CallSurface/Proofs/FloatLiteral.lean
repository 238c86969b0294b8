/-
Floating-point literals, and which of them a scan finds.

A literal is a signed word (`inf`, `infinity` or `nan` in any letter case) or a numeral that has a digit before or behind
the point and no exponent without digits. `FloatLiteral` holds the literals and their values.

The two branches of a scan decide in different ways where a literal ends. A numeral may have the beginning of an exponent
behind it; the scan drops that again, and what it keeps is the longest literal (`Numeral.Ends.longest_literal`). A word is
read to the last letter, whatever it spells. So a word with another letter behind it is lost together with that letter,
although a literal stands at the front of the input: `float_scan_finds_longest_literal` says exactly when the longest
literal is found, and `longest_literal_lost_before_letter` is an input where it is not.
-/
import CallSurface.Proofs.DecimalGrammar

namespace CallSurface

open Scanner (Stops)

/-! ## Literals -/

/-- the words that denote a float, in small letters -/
def floatWords : List Bytes :=
  [asciiBytes "inf", asciiBytes "infinity", asciiBytes "nan"]

inductive FloatLiteral where
  | word (sign : Option UInt8) (letters : Bytes) (sign_formed : sign.all isSign = true)
      (known : letters.map lowerCase ∈ floatWords)
  | decimal (n : Numeral) (mantissa : n.mantissa ≠ []) (exponent : ∀ e ∈ n.exponent, e.digits ≠ [])

namespace FloatLiteral

def text : FloatLiteral → Bytes
  | word sign letters .. => sign.toList ++ letters
  | decimal n .. => n.text

def isWord : FloatLiteral → Bool
  | word .. => true
  | decimal .. => false

/-- the float that a literal denotes -/
def value (k : FloatKind) : FloatLiteral → BitVec k.bits
  | word sign letters .. =>
    if letters.map lowerCase = asciiBytes "nan" then k.nanWithSign (sign.any isMinus) else k.infinity (sign.any isMinus)
  | decimal n .. =>
    FloatToken.decimalValue k (n.sign.any isMinus) (Decimal.ofDigits n.mantissa)
      ((n.exponent.map Exponent.value).getD 0 - (n.places.getD []).length)

end FloatLiteral

/-- the text of some literal -/
def IsLiteral (t : Bytes) : Prop :=
  ∃ l : FloatLiteral, l.text = t

/-! ## Words -/

theorem isLetter_of_floatWords {letters : Bytes} (h : letters.map lowerCase ∈ floatWords) :
    letters.all isLetter = true := by
  have hwords : ∀ w ∈ floatWords, w.all (fun c => 97 ≤ c && c ≤ 122) = true := by decide
  have hall := hwords _ h
  rw [List.all_map] at hall
  exact hall

/-- a word begins as words do -/
theorem exists_cons_of_floatWords {letters : Bytes} (h : letters.map lowerCase ∈ floatWords) :
    ∃ b bs, letters = b :: bs ∧ startsWord b = true := by
  have hwords : ∀ w ∈ floatWords, w.head?.any (fun c => c == 105 || c == 110) = true := by decide
  have hfirst := hwords _ h
  cases letters with
  | nil => cases hfirst
  | cons b bs => exact ⟨b, bs, rfl, by simpa [startsWord] using hfirst⟩

theorem wordValue?_of_known (k : FloatKind) (neg : Bool) {letters : Bytes} (h : letters.map lowerCase ∈ floatWords) :
    FloatToken.wordValue? k neg letters =
      some (if letters.map lowerCase = asciiBytes "nan" then k.nanWithSign neg else k.infinity neg) := by
  have hinf : asciiBytes "inf" ≠ asciiBytes "nan" ∧ asciiBytes "infinity" ≠ asciiBytes "nan" := by decide
  simp only [floatWords, List.mem_cons, List.not_mem_nil, or_false] at h
  rcases h with h | h | h
  · simp [FloatToken.wordValue?, h, hinf.1]
  · simp [FloatToken.wordValue?, h, hinf.2]
  · simp [FloatToken.wordValue?, h, hinf.1.symm, hinf.2.symm]

theorem wordValue?_of_unknown (k : FloatKind) (neg : Bool) {letters : Bytes} (h : letters.map lowerCase ∉ floatWords) :
    FloatToken.wordValue? k neg letters = none := by
  simp only [floatWords, List.mem_cons, List.not_mem_nil, or_false, not_or] at h
  simp [FloatToken.wordValue?, h.1, h.2.1, h.2.2]

/-! ## What a literal begins and ends with -/

/-- the two signs of a signed prefix and of the input are the same -/
theorem prefix_behind_sign {sign sign' : Option UInt8} {b : UInt8} {v w : Bytes} (hsign : sign.all isSign = true)
    (hsign' : sign'.all isSign = true) (hb : isSign b = false) (hw : sign' = none → Stops isSign w)
    (h : sign.toList ++ b :: v <+: sign'.toList ++ w) : sign = sign' ∧ b :: v <+: w := by
  cases sign with
  | none =>
    cases sign' with
    | none => exact ⟨rfl, h⟩
    | some c =>
      obtain ⟨rfl, -⟩ := List.cons_prefix_cons.1 h
      exact absurd hsign' (by simp [hb])
  | some c =>
    cases sign' with
    | none => exact absurd h (not_prefix_of_stops (by simpa using hsign) (hw rfl))
    | some d =>
      obtain ⟨rfl, htail⟩ := List.cons_prefix_cons.1 h
      exact ⟨rfl, htail⟩

namespace Numeral

variable {n : Numeral} {rest : Bytes}

/-- a numeral with a mantissa begins, behind its sign, with a digit or a point -/
theorem exists_cons_unsigned (h : n.mantissa ≠ []) : ∃ b bs, n.unsigned = b :: bs := by
  apply List.exists_cons_of_ne_nil
  intro hnil
  simp only [unsigned, List.append_eq_nil_iff] at hnil
  obtain ⟨hwhole, hplaces, -⟩ := hnil
  apply h
  cases hp : n.places with
  | none => simp [mantissa, hwhole, hp]
  | some digits => simp [hp] at hplaces

/-- where the input holds a numeral with a mantissa, the numeral that a scan takes has one too -/
theorem Ends.mantissa_ne_nil (h : n.Ends rest) {m : Numeral} (hm : m.mantissa ≠ []) (hfront : m.text <+: n.text ++ rest) :
    n.mantissa ≠ [] := by
  intro hnil
  obtain ⟨hwhole, hplaces⟩ := List.append_eq_nil_iff.1 hnil
  obtain ⟨b, bs, hb⟩ := exists_cons_unsigned hm
  have hbehind : m.unsigned <+: n.unsigned ++ rest := by
    rw [text, text, hb, List.append_assoc] at hfront
    rw [hb]
    exact (prefix_behind_sign m.sign_formed n.sign_formed (unsignedShape_excludes (hb ▸ m.unsignedShape)).2.1 h.sign
      hfront).2
  rw [unsigned, unsigned, hwhole, List.nil_append, List.append_assoc] at hbehind
  -- the first digit of the other mantissa is where this numeral stops because of a digit
  cases hw : m.whole with
  | cons d ds =>
    have hd : isDigit d = true := List.all_eq_true.1 m.whole_formed d (by simp [hw])
    rw [hw] at hbehind
    exact not_prefix_of_stops hd h.whole hbehind
  | nil =>
    obtain ⟨d, ds, hds⟩ : ∃ d ds, m.places = some (d :: ds) := by
      cases hp : m.places with
      | none => exact absurd (by simp [mantissa, hw, hp]) hm
      | some digits =>
        obtain ⟨d, ds, rfl⟩ := List.exists_cons_of_ne_nil (show digits ≠ [] by rintro rfl; simp [mantissa, hw, hp] at hm)
        exact ⟨d, ds, rfl⟩
    have hd : isDigit d = true := List.all_eq_true.1 (m.places_formed _ hds) d (by simp)
    rw [hw, hds] at hbehind
    cases hp : n.places with
    | none =>
      rw [hp] at hbehind
      exact not_prefix_of_stops (show isPoint 46 = true from rfl) (h.point hp) hbehind
    | some digits =>
      rw [hp, Option.getD_some] at hplaces
      rw [hp, hplaces] at hbehind
      exact not_prefix_of_stops hd (h.places (by simp [hp])) (List.cons_prefix_cons.1 hbehind).2

/-- what is dropped from a numeral: an exponent mark and a sign, if no digits follow -/
theorem text_eq_kept (n : Numeral) :
    ∃ tail : Bytes, n.text = n.kept.text ++ tail ∧ ∀ b ∈ tail, (isExponentMark b || isSign b) = true := by
  have hkept : ∀ e, n.kept.exponent = e →
      n.kept.text = n.sign.toList ++ (n.whole ++ (fractionText n.places ++ exponentText e)) := by
    rintro _ rfl
    rfl
  cases he : n.exponent with
  | none =>
    have hnone : n.kept.exponent = none := by simp [kept, he]
    exact ⟨[], by rw [hkept _ hnone]; simp [text, unsigned, he], by simp⟩
  | some e =>
    obtain ⟨hmark, hsign, -⟩ := n.exponent_formed e he
    by_cases hdigits : e.digits = []
    · have hnone : n.kept.exponent = none := by simp [kept, he, hdigits]
      refine ⟨e.mark :: e.sign.toList, by rw [hkept _ hnone]; simp [text, unsigned, he, hdigits], ?_⟩
      intro b hb
      rcases List.mem_cons.1 hb with rfl | hb
      · simp [hmark]
      · rw [Option.mem_toList] at hb
        rw [Option.mem_def.1 hb] at hsign
        simp [show isSign b = true by simpa using hsign]
    · have hsome : n.kept.exponent = some e := by simp [kept, he, hdigits]
      exact ⟨[], by rw [hkept _ hsome]; simp [text, unsigned, he], by simp⟩

theorem kept_digits_ne_nil (n : Numeral) : ∀ e ∈ n.kept.exponent, e.digits ≠ [] := by
  intro e he
  simpa using (Option.filter_eq_some_iff.1 he).2

/-- the last byte of a numeral that keeps all its parts is a digit or a point -/
theorem getLast?_text {n : Numeral} (hm : n.mantissa ≠ []) (he : ∀ e ∈ n.exponent, e.digits ≠ []) :
    ∀ b ∈ n.text.getLast?, isDigit b = true ∨ isPoint b = true := by
  have hdigits : ∀ front digits : Bytes, digits.all isDigit = true → digits ≠ [] →
      ∀ b ∈ (front ++ digits).getLast?, isDigit b = true := by
    intro front digits hall hne b hb
    rw [List.getLast?_append_of_ne_nil _ hne] at hb
    exact List.all_eq_true.1 hall b (List.mem_of_getLast? hb)
  intro b hb
  cases hx : n.exponent with
  | some e =>
    have htext : n.text = (n.sign.toList ++ n.whole ++ fractionText n.places ++ e.mark :: e.sign.toList) ++ e.digits := by
      simp [text, unsigned, hx]
    rw [htext] at hb
    exact Or.inl (hdigits _ _ (n.exponent_formed e hx).2.2 (he e hx) b hb)
  | none =>
    cases hp : n.places with
    | none =>
      have htext : n.text = n.sign.toList ++ n.whole := by simp [text, unsigned, hx, hp]
      rw [htext] at hb
      exact Or.inl (hdigits _ _ n.whole_formed (by simpa [mantissa, hp] using hm) b hb)
    | some digits =>
      have htext : n.text = (n.sign.toList ++ n.whole ++ [46]) ++ digits := by simp [text, unsigned, hx, hp]
      rw [htext] at hb
      by_cases hne : digits = []
      · rw [hne, List.append_nil, List.getLast?_concat, Option.mem_some_iff] at hb
        exact Or.inr (isPoint_iff.2 hb.symm)
      · exact Or.inl (hdigits _ _ (n.places_formed digits hp) hne b hb)

end Numeral

namespace FloatLiteral

/-- the token that a scan makes of the literal -/
def token : FloatLiteral → FloatToken
  | word sign letters .. => .word sign letters
  | decimal n .. => n.token

theorem value?_token (k : FloatKind) (l : FloatLiteral) : l.token.value? k = some (l.value k) := by
  cases l with
  | word sign letters hsign hknown => exact wordValue?_of_known k _ hknown
  | decimal n hmantissa hexponent =>
    have hdigits : n.mantissa.isEmpty = false := by simpa using hmantissa
    unfold Numeral.mantissa at hdigits
    simp only [token, Numeral.token, FloatToken.value?, hdigits, Bool.false_eq_true, ↓reduceIte, value, Numeral.mantissa]

/-- a literal ends neither with an exponent mark nor with a sign -/
theorem getLast?_text (l : FloatLiteral) : ∀ b ∈ l.text.getLast?, (isExponentMark b || isSign b) = false := by
  intro b hb
  cases l with
  | word sign letters hsign hknown =>
    have hwords : ∀ w ∈ floatWords, w.getLast? ≠ some 101 := by decide
    obtain ⟨d, ds, rfl, -⟩ := exists_cons_of_floatWords hknown
    rw [text, List.getLast?_append_of_ne_nil _ (by simp)] at hb
    have hletter : isLetter b = true :=
      List.all_eq_true.1 (isLetter_of_floatWords hknown) b (List.mem_of_getLast? hb)
    have hmark : isExponentMark b = false := by
      have hlast := hwords _ hknown
      rw [List.getLast?_map, Option.mem_def.1 hb, Option.map_some] at hlast
      simpa [isExponentMark] using hlast
    have hsign : isSign b = false := by
      by_contra h
      rcases isSign_iff.1 (by simpa using h) with rfl | rfl
      · exact absurd hletter (by decide)
      · exact absurd hletter (by decide)
    simp [hmark, hsign]
  | decimal n hmantissa hexponent =>
    rcases Numeral.getLast?_text hmantissa hexponent b hb with h | h
    · simp [(isDigit_excludes h).2.1, (isDigit_excludes h).2.2.2.2]
    · simp [(isPoint_excludes h).2.1, (isPoint_excludes h).2.2.2.1]

end FloatLiteral

/-! ## The longest literal -/

/-- what a scan makes of input whose longest literal is `l`, with `rest` behind it: the token of the literal, unless it is
a word and another letter follows; then a longer word, which denotes nothing -/
structure ScansAs (input : Bytes) (l : FloatLiteral) (rest : Bytes) (t : FloatToken) : Prop where
  reads : ∃ left, Scanner.Reads Scanner.floatToken input t left []
  found : (l.isWord = true → Stops isLetter rest) → t = l.token
  lost : ¬ (l.isWord = true → Stops isLetter rest) →
    t.text = l.text ++ rest.takeWhile isLetter ∧ ∀ k : FloatKind, t.value? k = none

namespace Numeral

variable {n : Numeral} {rest : Bytes}

/-- no word stands at the front of input that does not begin as words do -/
theorem Ends.isWord_eq_false (h : n.Ends rest) (hword : Stops startsWord (n.unsigned ++ rest)) {l : FloatLiteral}
    (hl : l.text <+: n.text ++ rest) : l.isWord = false := by
  cases l with
  | decimal m hmantissa hexponent => rfl
  | word sign letters hsign hknown =>
    obtain ⟨b, bs, rfl, hb⟩ := exists_cons_of_floatWords hknown
    rw [FloatLiteral.text, text, List.append_assoc] at hl
    have hbehind := (prefix_behind_sign hsign n.sign_formed (startsWord_excludes hb).2.1 h.sign hl).2
    exact absurd hbehind (not_prefix_of_stops hb hword)

/-- **What a scan keeps of a numeral is the longest literal.** An exponent without digits ends no literal. -/
theorem Ends.longest_literal (h : n.Ends rest) (hword : Stops startsWord (n.unsigned ++ rest)) (hm : n.mantissa ≠ []) :
    ∃ tail, n.text = n.kept.text ++ tail ∧ Longest IsLiteral n.kept.text (tail ++ rest) := by
  obtain ⟨tail, htext, htail⟩ := n.text_eq_kept
  have hlongest : Longest DecimalShape n.text rest := (h.longest (show ([] : Bytes).all isBlank = true from rfl)).1
  rw [htext] at hlongest
  refine ⟨tail, htext, hlongest.trim htail ⟨.decimal n.kept hm n.kept_digits_ne_nil, rfl⟩ ?_ ?_⟩
  · rintro _ hfront ⟨l, rfl⟩
    rw [← List.append_assoc, ← htext] at hfront
    have hdecimal := h.isWord_eq_false hword hfront
    cases l with
    | word sign letters hsign hknown => cases hdecimal
    | decimal m hmantissa hexponent => exact m.decimalShape
  · rintro _ ⟨l, rfl⟩
    exact l.getLast?_text

end Numeral

theorem stops_iff_takeWhile_eq_nil {p : UInt8 → Bool} {bs : Bytes} : Stops p bs ↔ bs.takeWhile p = [] := by
  cases bs with
  | nil => simp [Stops]
  | cons b bs => simp [Stops, List.takeWhile_cons]

/-- where the input begins as words do, a literal at its front is a word -/
theorem exists_word_of_prefix {sign : Option UInt8} {b : UInt8} {behind : Bytes} (hsign : sign.all isSign = true)
    (hb : startsWord b = true) {l : FloatLiteral} (hl : l.text <+: sign.toList ++ b :: behind) :
    ∃ (v : Bytes) (hknown : v.map lowerCase ∈ floatWords), l = .word sign v hsign hknown := by
  have hstop : sign = none → Stops isSign (b :: behind) := fun _ => Scanner.stops_cons _ (startsWord_excludes hb).2.1
  cases l with
  | decimal m hmantissa hexponent =>
    obtain ⟨c, cs, hc⟩ := Numeral.exists_cons_unsigned hmantissa
    have hx := unsignedShape_excludes (hc ▸ m.unsignedShape)
    rw [FloatLiteral.text, Numeral.text, hc] at hl
    obtain ⟨-, hfront⟩ := prefix_behind_sign m.sign_formed hsign hx.2.1 hstop hl
    obtain ⟨rfl, -⟩ := List.cons_prefix_cons.1 hfront
    exact absurd hb (by simp [hx.2.2])
  | word sign' v hsign' hknown =>
    obtain ⟨c, cs, rfl, hc⟩ := exists_cons_of_floatWords hknown
    obtain ⟨rfl, -⟩ := prefix_behind_sign hsign' hsign (startsWord_excludes hc).2.1 hstop hl
    exact ⟨c :: cs, hknown, rfl⟩

/-- a scan takes all letters of a word, also those behind the longest literal -/
theorem scansAs_word {blanks behind v after : Bytes} {sign : Option UInt8} {b : UInt8}
    (hblanks : blanks.all isBlank = true) (hsign : sign.all isSign = true) (hb : startsWord b = true)
    (hknown : v.map lowerCase ∈ floatWords) (hsplit : b :: behind = v ++ after)
    (hlongest : Longest IsLiteral (sign.toList ++ v) after) :
    ScansAs (blanks ++ (sign.toList ++ b :: behind)) (.word sign v hsign hknown) after
      (.word sign (v ++ after.takeWhile isLetter)) := by
  have hrun : (b :: behind).takeWhile isLetter = v ++ after.takeWhile isLetter := by
    rw [hsplit, List.takeWhile_append_of_pos (List.all_eq_true.1 (isLetter_of_floatWords hknown))]
  have hletter : isLetter b = true := by
    simp only [startsWord, Bool.or_eq_true, beq_iff_eq] at hb
    rcases hb with hb | hb <;> simp [isLetter, hb]
  refine ⟨⟨behind.dropWhile isLetter, ?_⟩, ?_, ?_⟩
  · have hfirst := startsWord_excludes hb
    have hcons : (b :: behind).takeWhile isLetter = b :: behind.takeWhile isLetter := by simp [hletter]
    have hread := Scanner.reads_word hblanks hsign ⟨hfirst.1, hfirst.2.1, hb⟩ (hcons ▸ List.all_takeWhile)
      (stops_dropWhile isLetter behind)
    rw [List.cons_append, List.takeWhile_append_dropWhile, ← hcons, hrun] at hread
    exact hread
  · intro hstop
    rw [stops_iff_takeWhile_eq_nil.1 (hstop rfl), List.append_nil]
    rfl
  · intro hcut
    refine ⟨by simp [FloatToken.text, FloatLiteral.text], ?_⟩
    intro k
    apply wordValue?_of_unknown
    intro hlonger
    -- all the letters would be a longer literal
    have hle := hlongest.longest (sign.toList ++ (v ++ after.takeWhile isLetter))
      (by
        rw [List.append_assoc, List.prefix_append_right_inj, List.prefix_append_right_inj]
        exact List.takeWhile_prefix isLetter)
      ⟨.word sign _ hsign hlonger, rfl⟩
    have hnil : after.takeWhile isLetter = [] := by
      apply List.eq_nil_of_length_eq_zero
      simp only [List.length_append] at hle
      omega
    exact hcut fun _ => stops_iff_takeWhile_eq_nil.2 hnil

/-- **The longest literal at the front of the input, and what a scan makes of it.** -/
theorem exists_longest_literal {input : Bytes} {l₀ : FloatLiteral} (h₀ : l₀.text <+: input.dropWhile isBlank) :
    ∃ (l : FloatLiteral) (rest : Bytes) (t : FloatToken), input.dropWhile isBlank = l.text ++ rest ∧
      Longest IsLiteral l.text rest ∧ ScansAs input l rest t := by
  obtain ⟨blanks, n, rest, rfl, hblanks, hends, -⟩ := exists_numeral input
  have hbehind : (blanks ++ (n.text ++ rest)).dropWhile isBlank = n.text ++ rest := by
    rw [List.dropWhile_append_of_pos (List.all_eq_true.1 hblanks)]
    exact dropWhile_eq_self_of_stops hends.blank
  rw [hbehind] at h₀ ⊢
  by_cases hword : Stops startsWord (n.unsigned ++ rest)
  · -- the input is no word, so that the literal that is there is a numeral
    have hm : n.mantissa ≠ [] := by
      have hdecimal := hends.isWord_eq_false hword h₀
      cases l₀ with
      | word sign letters hsign hknown => cases hdecimal
      | decimal m hmantissa hexponent => exact hends.mantissa_ne_nil hmantissa h₀
    obtain ⟨tail, htext, hlongest⟩ := hends.longest_literal hword hm
    refine ⟨.decimal n.kept hm n.kept_digits_ne_nil, tail ++ rest, n.kept.token, ?_, hlongest,
      ⟨rest, hends.reads hblanks hword⟩, fun _ => rfl, fun hcut => absurd (fun h => nomatch h) hcut⟩
    show n.text ++ rest = n.kept.text ++ (tail ++ rest)
    rw [htext, List.append_assoc]
  · -- the numeral has nothing but a sign, and a word follows it
    obtain ⟨b, behind, hrest, hb⟩ : ∃ b behind, n.unsigned ++ rest = b :: behind ∧ startsWord b = true := by
      cases hu : n.unsigned ++ rest with
      | nil => exact absurd (by rw [hu]; simp [Stops]) hword
      | cons b behind => exact ⟨b, behind, rfl, by simpa [hu, Stops] using hword⟩
    rw [Numeral.text, List.append_assoc, hrest] at h₀ ⊢
    obtain ⟨t, after, hsplit, hlongest⟩ := exists_longest (G := IsLiteral) h₀ ⟨l₀, rfl⟩
    obtain ⟨l, rfl⟩ := hlongest.member
    obtain ⟨v, hknown, rfl⟩ := exists_word_of_prefix n.sign_formed hb (l := l) ⟨after, hsplit.symm⟩
    have hparts : b :: behind = v ++ after := by
      rw [FloatLiteral.text, List.append_assoc] at hsplit
      exact List.append_cancel_left hsplit
    exact ⟨_, after, _, hsplit, hlongest, scansAs_word hblanks n.sign_formed hb hknown hparts hlongest⟩

/-! ## Scans of a kind -/

/-- **When the longest literal is found.** On input without failures that holds a literal behind its blanks, a scan of a
float kind gives the value of the longest such literal exactly if it is a numeral, or a word behind which no other letter
stands. Otherwise it gives nothing, and the event shows the word together with all letters behind it. -/
theorem float_scan_finds_longest_literal (k : FloatKind) (input : Bytes)
    (hliteral : ∃ l : FloatLiteral, l.text <+: input.dropWhile isBlank) (r : Reader) (hr : r.Delivers input) :
    ∃ (l : FloatLiteral) (rest : Bytes), input.dropWhile isBlank = l.text ++ rest ∧ Longest IsLiteral l.text rest ∧
      ((Scanner.scalar (.float k) ⟨r, []⟩).1 = some (.float k (l.value k)) ↔
        (l.isWord = true → ∀ b ∈ rest.head?, isLetter b = false)) ∧
      (¬ (l.isWord = true → ∀ b ∈ rest.head?, isLetter b = false) →
        (Scanner.scalar (.float k) ⟨r, []⟩).1 = none ∧
        (Scanner.scalar (.float k) ⟨r, []⟩).2.log = [.noFloat (l.text ++ rest.takeWhile isLetter)]) := by
  obtain ⟨l₀, h₀⟩ := hliteral
  obtain ⟨l, rest, t, hsplit, hlongest, ⟨left, hreads⟩, hfound, hlost⟩ := exists_longest_literal h₀
  obtain ⟨hvalue, -, hlog⟩ := (Scanner.reads_scalar_float k hreads).deliver hr
  have hnone : ¬ (l.isWord = true → Stops isLetter rest) → (Scanner.scalar (.float k) ⟨r, []⟩).1 = none := by
    intro hcut
    rw [hvalue, (hlost hcut).2 k]
    rfl
  refine ⟨l, rest, hsplit, hlongest, ⟨?_, ?_⟩, ?_⟩
  · intro hsome
    by_contra hcut
    rw [hnone hcut] at hsome
    cases hsome
  · intro hstop
    rw [hvalue, hfound hstop, l.value?_token k]
    rfl
  · intro hcut
    refine ⟨hnone hcut, ?_⟩
    rw [hlog, (hlost hcut).2 k, (hlost hcut).1]
    rfl

/-- a word in mixed letters with a digit behind it -/
theorem float_scan_finds_longest_literal_edge :
    let r : Reader := ⟨[.data (asciiBytes " -iNF1")], none⟩
    let l : FloatLiteral := .word (some 45) (asciiBytes "iNF") rfl (by decide)
    (l.text <+: (asciiBytes " -iNF1").dropWhile isBlank ∧ r.Delivers (asciiBytes " -iNF1") ∧
      (Scanner.scalar (.float .f32) ⟨r, []⟩).1 = some (.float .f32 (FloatKind.f32.infinity true))) ∧
    ∃ (l : FloatLiteral) (rest : Bytes), (asciiBytes " -iNF1").dropWhile isBlank = l.text ++ rest ∧
      Longest IsLiteral l.text rest ∧
      ((Scanner.scalar (.float .f32) ⟨r, []⟩).1 = some (.float .f32 (l.value .f32)) ↔
        (l.isWord = true → ∀ b ∈ rest.head?, isLetter b = false)) := by
  intro r l
  have hr : r.Delivers (asciiBytes " -iNF1") := Reader.delivers_data _
  have hl : l.text <+: (asciiBytes " -iNF1").dropWhile isBlank := ⟨[49], by decide⟩
  obtain ⟨l', rest, hsplit, hlongest, hiff, -⟩ := float_scan_finds_longest_literal .f32 _ ⟨l, hl⟩ r hr
  exact ⟨⟨hl, hr, by decide⟩, l', rest, hsplit, hlongest, hiff⟩

/-- **A literal is lost before a letter.** In `infx` the longest literal is `inf`, and a scan gives nothing. -/
theorem longest_literal_lost_before_letter :
    let r : Reader := ⟨[.data (asciiBytes "infx")], none⟩
    let l : FloatLiteral := .word none (asciiBytes "inf") rfl (by decide)
    (r.Delivers (asciiBytes "infx") ∧ (asciiBytes "infx").dropWhile isBlank = l.text ++ asciiBytes "x" ∧
      Longest IsLiteral l.text (asciiBytes "x") ∧ l.value .f64 = FloatKind.f64.infinity false) ∧
    (Scanner.scalar (.float .f64) ⟨r, []⟩).1 = none ∧
      (Scanner.scalar (.float .f64) ⟨r, []⟩).1 ≠ some (.float .f64 (l.value .f64)) := by
  intro r l
  have hnone : (Scanner.scalar (.float .f64) ⟨r, []⟩).1 = none := by decide
  have hinput : l.text ++ asciiBytes "x" = (none : Option UInt8).toList ++ 105 :: asciiBytes "nfx" := by decide
  have hlongest : Longest IsLiteral l.text (asciiBytes "x") := by
    refine ⟨⟨l, rfl⟩, ?_⟩
    rintro _ hfront ⟨m, rfl⟩
    rw [hinput] at hfront
    obtain ⟨v, hknown, rfl⟩ := exists_word_of_prefix rfl (show startsWord 105 = true from rfl) hfront
    by_contra hlonger
    have hlong : 4 ≤ v.length := Nat.lt_of_not_le hlonger
    -- a longer literal would be the whole input, which is no word
    have hall : v = asciiBytes "infx" := hfront.eq_of_length_le hlong
    rw [hall] at hknown
    exact absurd hknown (by decide)
  exact ⟨⟨Reader.delivers_data _, by decide, hlongest, by decide⟩, hnone, by rw [hnone]; simp⟩

end CallSurface
