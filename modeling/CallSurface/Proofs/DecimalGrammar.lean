/-
Scanning a float that is written in digits accepts exactly its grammar.

A numeral has six parts, and each of them may be missing or empty: a sign, digits, a point with digits behind it, an
exponent mark, a sign and digits. `Numeral` holds the parts as they stand in the input. A scan takes all of them and then
forgets an exponent that has no digits (`Numeral.kept`), so that what it has consumed and what it has kept may differ.

`Numeral.Ends` says, part by part, that the input behind a numeral does not go on with it. Every input can be taken apart
into blanks, a numeral and a rest of which this holds (`exists_numeral`). Where it holds, the numeral is the longest
prefix of its grammar (`Numeral.Ends.longest`) and it is what the scan takes (`Numeral.Ends.reads`).

Main result: `decimal_scan_accepts_grammar`.
-/
import CallSurface.Proofs.Conservation
import CallSurface.Proofs.FloatRoundTrip
import CallSurface.Proofs.IntegerGrammar

namespace CallSurface

open Scanner (Stops)

/-! ## Numerals -/

/-- an exponent as it stands in the input; it may have no digits -/
def Exponent.Formed (e : Exponent) : Prop :=
  isExponentMark e.mark = true ∧ e.sign.all isSign = true ∧ e.digits.all isDigit = true

def fractionText (places : Option Bytes) : Bytes :=
  (places.map (asciiBytes "." ++ ·)).getD []

def exponentText (e : Option Exponent) : Bytes :=
  (e.map Exponent.text).getD []

@[simp] theorem fractionText_none : fractionText none = [] :=
  rfl

@[simp] theorem fractionText_some (places : Bytes) : fractionText (some places) = 46 :: places :=
  rfl

@[simp] theorem exponentText_none : exponentText none = [] :=
  rfl

@[simp] theorem exponentText_some (e : Exponent) : exponentText (some e) = e.mark :: (e.sign.toList ++ e.digits) :=
  rfl

/-- the parts of a number as they stand in the input -/
structure Numeral where
  sign : Option UInt8
  whole : Bytes
  places : Option Bytes
  exponent : Option Exponent
  sign_formed : sign.all isSign = true
  whole_formed : whole.all isDigit = true
  places_formed : ∀ digits ∈ places, digits.all isDigit = true
  exponent_formed : ∀ e ∈ exponent, e.Formed

namespace Numeral

/-- all the bytes behind the sign -/
def unsigned (n : Numeral) : Bytes :=
  n.whole ++ (fractionText n.places ++ exponentText n.exponent)

/-- all the bytes -/
def text (n : Numeral) : Bytes :=
  n.sign.toList ++ n.unsigned

/-- the digits before and behind the point -/
def mantissa (n : Numeral) : Bytes :=
  n.whole ++ n.places.getD []

def token (n : Numeral) : FloatToken :=
  .decimal n.sign n.whole n.places n.exponent

/-- without an exponent that has no digits -/
def kept (n : Numeral) : Numeral :=
  { n with
    exponent := n.exponent.filter fun e => !e.digits.isEmpty
    exponent_formed := fun e he => n.exponent_formed e (Option.filter_eq_some_iff.1 he).1 }

theorem text_token (n : Numeral) : n.token.text = n.text := by
  simp [token, FloatToken.text, text, unsigned, fractionText, exponentText]

theorem isSome_value? (k : FloatKind) (n : Numeral) : (n.token.value? k).isSome = true ↔ n.mantissa ≠ [] := by
  unfold token FloatToken.value? mantissa
  by_cases h : n.whole ++ n.places.getD [] = []
  · simp [h]
  · simp [h]

end Numeral

/-! ## What the parts begin with -/

/-- what may follow the digits before the point: an exponent, or a point, digits and an exponent -/
def TailShape (t : Bytes) : Prop :=
  ExponentShape t ∨ ∃ (b : UInt8) (u : Bytes), t = b :: u ∧ isPoint b = true ∧
    ∃ digits e : Bytes, u = digits ++ e ∧ digits.all isDigit = true ∧ ExponentShape e

/-- digits, and what may follow them -/
def UnsignedShape (t : Bytes) : Prop :=
  ∃ digits u : Bytes, t = digits ++ u ∧ digits.all isDigit = true ∧ TailShape u

theorem isExponentMark_of_exponentShape {b : UInt8} {s : Bytes} (h : ExponentShape (b :: s)) :
    isExponentMark b = true := by
  rcases h with h | ⟨mark, u, h, hmark, -⟩
  · cases h
  · obtain ⟨rfl, -⟩ := List.cons.inj h
    exact hmark

theorem begins_tailShape {b : UInt8} {s : Bytes} (h : TailShape (b :: s)) :
    isPoint b = true ∨ isExponentMark b = true := by
  rcases h with h | ⟨c, u, h, hc, -⟩
  · exact Or.inr (isExponentMark_of_exponentShape h)
  · obtain ⟨rfl, -⟩ := List.cons.inj h
    exact Or.inl hc

theorem begins_unsignedShape {b : UInt8} {s : Bytes} (h : UnsignedShape (b :: s)) :
    isDigit b = true ∨ isPoint b = true ∨ isExponentMark b = true := by
  obtain ⟨digits, u, h, hdigits, hu⟩ := h
  cases digits with
  | nil =>
    rw [List.nil_append] at h
    rw [← h] at hu
    exact Or.inr (begins_tailShape hu)
  | cons d ds =>
    obtain ⟨rfl, -⟩ := List.cons.inj h
    simp only [List.all_cons, Bool.and_eq_true] at hdigits
    exact Or.inl hdigits.1

/-- the parts behind the sign begin neither with a blank nor with a sign, and with no letter of a word -/
theorem unsignedShape_excludes {b : UInt8} {s : Bytes} (h : UnsignedShape (b :: s)) :
    isBlank b = false ∧ isSign b = false ∧ startsWord b = false := by
  rcases begins_unsignedShape h with hb | hb | hb
  · have hx := isDigit_excludes hb
    exact ⟨hx.1, hx.2.1, hx.2.2.2.1⟩
  · have hx := isPoint_excludes hb
    exact ⟨hx.1, hx.2.1, hx.2.2.2.2⟩
  · have hx := isExponentMark_excludes hb
    exact ⟨hx.1, hx.2.1, hx.2.2.2.2⟩

theorem tailShape_excludes {b : UInt8} {s : Bytes} (h : TailShape (b :: s)) : isDigit b = false := by
  rcases begins_tailShape h with hb | hb
  · exact (isPoint_excludes hb).2.2.1
  · exact (isExponentMark_excludes hb).2.2.1

/-- the parts of a number in the order in which a scan meets them -/
theorem decimalShape_iff (t : Bytes) :
    DecimalShape t ↔ ∃ (sign : Option UInt8) (u : Bytes), t = sign.toList ++ u ∧ sign.all isSign = true ∧
      UnsignedShape u := by
  constructor
  · rintro ⟨_, fraction, exponent, rfl, ⟨sign, digits, rfl, hsign, hdigits⟩, hfraction, hexponent⟩
    refine ⟨sign, digits ++ (fraction ++ exponent), by simp, hsign, digits, _, rfl, hdigits, ?_⟩
    rcases hfraction with rfl | ⟨places, rfl, hplaces⟩
    · exact Or.inl hexponent
    · exact Or.inr ⟨46, places ++ exponent, rfl, rfl, places, exponent, rfl, hplaces, hexponent⟩
  · rintro ⟨sign, _, rfl, hsign, digits, _, rfl, hdigits, htail⟩
    have hwhole : IntegerShape (sign.toList ++ digits) := ⟨sign, digits, rfl, hsign, hdigits⟩
    rcases htail with hexponent | ⟨b, _, rfl, hb, places, exponent, rfl, hplaces, hexponent⟩
    · exact ⟨_, [], _, by simp, hwhole, Or.inl rfl, hexponent⟩
    · obtain rfl := isPoint_iff.1 hb
      exact ⟨_, 46 :: places, exponent, by simp, hwhole, Or.inr ⟨places, rfl, hplaces⟩, hexponent⟩

theorem isBlank_eq_false_of_decimalShape (b : UInt8) (s : Bytes) (h : DecimalShape (b :: s)) : isBlank b = false := by
  obtain ⟨sign, u, htext, hsign, hu⟩ := (decimalShape_iff _).1 h
  cases sign with
  | none =>
    rw [Option.toList_none, List.nil_append] at htext
    rw [← htext] at hu
    exact (unsignedShape_excludes hu).1
  | some c =>
    obtain ⟨rfl, -⟩ := List.cons.inj htext
    exact (isSign_excludes (by simpa using hsign)).1

namespace Numeral

variable (n : Numeral)

theorem exponentShape : ExponentShape (exponentText n.exponent) := by
  cases h : n.exponent with
  | none => exact Or.inl rfl
  | some e =>
    obtain ⟨hmark, hsign, hdigits⟩ := n.exponent_formed e h
    exact Or.inr ⟨e.mark, _, rfl, hmark, e.sign, e.digits, rfl, hsign, hdigits⟩

theorem tailShape : TailShape (fractionText n.places ++ exponentText n.exponent) := by
  cases h : n.places with
  | none => exact Or.inl n.exponentShape
  | some digits => exact Or.inr ⟨46, _, rfl, rfl, digits, _, rfl, n.places_formed digits h, n.exponentShape⟩

theorem unsignedShape : UnsignedShape n.unsigned :=
  ⟨n.whole, _, rfl, n.whole_formed, n.tailShape⟩

theorem decimalShape : DecimalShape n.text :=
  (decimalShape_iff _).2 ⟨n.sign, n.unsigned, rfl, n.sign_formed, n.unsignedShape⟩

/-! ## Where a numeral ends -/

/-- the input behind the numeral goes on with none of its parts -/
structure Ends (n : Numeral) (rest : Bytes) : Prop where
  blank : Stops isBlank (n.text ++ rest)
  sign : n.sign = none → Stops isSign (n.unsigned ++ rest)
  whole : Stops isDigit (fractionText n.places ++ (exponentText n.exponent ++ rest))
  point : n.places = none → Stops isPoint (exponentText n.exponent ++ rest)
  places : n.places ≠ none → Stops isDigit (exponentText n.exponent ++ rest)
  mark : n.exponent = none → Stops isExponentMark rest
  exponentSign : ∀ e ∈ n.exponent, e.sign = none → Stops isSign (e.digits ++ rest)
  digits : n.exponent ≠ none → Stops isDigit rest

/-- at the end of the input every numeral ends -/
theorem ends_nil : n.Ends [] where
  blank := by
    rw [List.append_nil]
    exact stops_of_begins n.decimalShape isBlank_eq_false_of_decimalShape
  sign _ := by
    rw [List.append_nil]
    exact stops_of_begins n.unsignedShape fun _ _ h => (unsignedShape_excludes h).2.1
  whole := by
    rw [List.append_nil]
    exact stops_of_begins n.tailShape fun _ _ h => tailShape_excludes h
  point _ := by
    rw [List.append_nil]
    exact stops_of_begins n.exponentShape fun _ _ h =>
      (isExponentMark_excludes (isExponentMark_of_exponentShape h)).2.2.2.1
  places _ := by
    rw [List.append_nil]
    exact stops_of_begins n.exponentShape fun _ _ h =>
      (isExponentMark_excludes (isExponentMark_of_exponentShape h)).2.2.1
  mark _ := by simp [Stops]
  exponentSign e he _ := by
    rw [List.append_nil]
    exact stops_of_begins (G := fun s => s.all isDigit = true) (n.exponent_formed e he).2.2 isSign_eq_false_of_digits
  digits _ := by simp [Stops]

theorem stops_startsWord_unsigned : Stops startsWord n.unsigned :=
  stops_of_begins n.unsignedShape fun _ _ h => (unsignedShape_excludes h).2.2

variable {n} {rest : Bytes}

/-! ## The longest prefix -/

theorem Ends.longest_exponent (h : n.Ends rest) : Longest ExponentShape (exponentText n.exponent) rest := by
  cases he : n.exponent with
  | none => exact Longest.absent (h.mark he) (Longest.nil rest)
  | some e =>
    obtain ⟨hmark, hsign, hdigits⟩ := n.exponent_formed e he
    exact Longest.present hmark (fun _ _ h => by simp at h)
      (longest_signedDigits hsign (h.exponentSign e he) hdigits (h.digits (by simp [he])))

theorem Ends.longest_tail (h : n.Ends rest) :
    Longest TailShape (fractionText n.places ++ exponentText n.exponent) rest := by
  have hexponent := h.longest_exponent
  cases hp : n.places with
  | none => exact Longest.absent (h.point hp) hexponent
  | some digits =>
    have hbegins := @isExponentMark_of_exponentShape
    exact Longest.present rfl (fun _ _ h => (isExponentMark_excludes (hbegins h)).2.2.2.1)
      (hexponent.run (n.places_formed digits hp) (h.places (by simp [hp]))
        fun _ _ h => (isExponentMark_excludes (hbegins h)).2.2.1)

theorem Ends.longest_unsigned (h : n.Ends rest) : Longest UnsignedShape n.unsigned rest :=
  h.longest_tail.run n.whole_formed (by rw [List.append_assoc]; exact h.whole) fun _ _ h => tailShape_excludes h

/-- a numeral that ends is the longest prefix of its grammar, also behind blanks -/
theorem Ends.longest (h : n.Ends rest) {blanks : Bytes} (hblanks : blanks.all isBlank = true) :
    Longest DecimalShape n.text rest ∧ Longest (AfterBlanks DecimalShape) (blanks ++ n.text) rest := by
  have hsigned : Longest DecimalShape n.text rest :=
    (h.longest_unsigned.optional n.sign_formed h.sign fun _ _ h => (unsignedShape_excludes h).2.1).congr decimalShape_iff
  exact ⟨hsigned, hsigned.run hblanks h.blank isBlank_eq_false_of_decimalShape⟩

/-! ## Scanning -/

theorem Ends.reads_exponent (h : n.Ends rest) :
    Scanner.Reads Scanner.exponent (exponentText n.exponent ++ rest) n.kept.exponent rest [] := by
  show Scanner.Reads Scanner.exponent _ (n.exponent.filter fun e => !e.digits.isEmpty) rest []
  cases he : n.exponent with
  | none => exact Scanner.reads_exponent_none (h.mark he)
  | some e =>
    obtain ⟨hmark, hsign, hdigits⟩ := n.exponent_formed e he
    have hkept : (some e).filter (fun e => !e.digits.isEmpty) = if e.digits.isEmpty then none else some e := by
      cases hd : e.digits <;> simp [hd]
    rw [hkept, exponentText_some, List.cons_append, List.append_assoc]
    exact (Scanner.reads_nextIf_some hmark _).bind ((Scanner.reads_optional hsign (h.exponentSign e he)).bind
      ((Scanner.reads_takeWhile hdigits (h.digits (by simp [he]))).bind (Scanner.reads_pure _ rest)))

theorem Ends.reads_fraction (h : n.Ends rest) :
    Scanner.Reads Scanner.fraction (fractionText n.places ++ (exponentText n.exponent ++ rest)) n.places
      (exponentText n.exponent ++ rest) [] := by
  cases hp : n.places with
  | none => exact (Scanner.reads_nextIf_none (h.point hp)).bind (Scanner.reads_pure none _)
  | some digits => exact Scanner.reads_fraction (n.places_formed digits hp) (h.places (by simp [hp]))

/-- a scan takes the whole numeral, and keeps it without an exponent that has no digits -/
theorem Ends.reads (h : n.Ends rest) {blanks : Bytes} (hblanks : blanks.all isBlank = true)
    (hword : Stops startsWord (n.unsigned ++ rest)) :
    Scanner.Reads Scanner.floatToken (blanks ++ (n.text ++ rest)) n.kept.token rest [] := by
  have hblank := h.blank
  rw [text, List.append_assoc] at hblank ⊢
  rw [Scanner.floatToken_eq]
  refine Scanner.reads_signed hblanks hblank n.sign_formed h.sign ?_
  refine (Scanner.reads_peek _).bind ?_
  have hnumber : (n.unsigned ++ rest).head?.any startsWord = false := by
    cases hhead : (n.unsigned ++ rest).head? with
    | none => rfl
    | some b => exact hword b hhead
  simp only [hnumber, Bool.false_eq_true, ↓reduceIte]
  rw [unsigned, List.append_assoc, List.append_assoc]
  exact (Scanner.reads_takeWhile n.whole_formed h.whole).bind
    (h.reads_fraction.bind (h.reads_exponent.bind (Scanner.reads_pure _ rest)))

end Numeral

/-! ## Taking input apart -/

theorem exists_exponent (input : Bytes) :
    ∃ (o : Option Exponent) (rest : Bytes), input = exponentText o ++ rest ∧ (∀ e ∈ o, e.Formed) ∧
      (o = none → Stops isExponentMark rest) ∧ (∀ e ∈ o, e.sign = none → Stops isSign (e.digits ++ rest)) ∧
      (o ≠ none → Stops isDigit rest) := by
  obtain ⟨mark, behind, rfl, hmark, hstop⟩ := exists_optional isExponentMark input
  cases mark with
  | none => exact ⟨none, behind, rfl, by simp, fun _ => hstop rfl, by simp, by simp⟩
  | some mark =>
    obtain ⟨sign, tail, rfl, hsign, hnone⟩ := exists_optional isSign behind
    obtain ⟨digits, rest, rfl, hdigits, hrest⟩ := exists_run isDigit tail
    refine ⟨some ⟨mark, sign, digits⟩, rest, by simp, ?_, by simp, ?_, fun _ => hrest⟩
    · rintro e ⟨⟩
      exact ⟨by simpa using hmark, hsign, hdigits⟩
    · rintro e ⟨⟩
      exact hnone

theorem exists_fraction (input : Bytes) :
    ∃ (places : Option Bytes) (rest : Bytes), input = fractionText places ++ rest ∧
      (∀ digits ∈ places, digits.all isDigit = true) ∧ (places = none → Stops isPoint rest) ∧
      (places ≠ none → Stops isDigit rest) := by
  obtain ⟨point, behind, rfl, hpoint, hstop⟩ := exists_optional isPoint input
  cases point with
  | none => exact ⟨none, behind, rfl, by simp, fun _ => hstop rfl, by simp⟩
  | some b =>
    obtain rfl := isPoint_iff.1 (by simpa using hpoint : isPoint b = true)
    obtain ⟨digits, rest, rfl, hdigits, hrest⟩ := exists_run isDigit behind
    refine ⟨some digits, rest, rfl, ?_, by simp, fun _ => hrest⟩
    rintro _ ⟨⟩
    exact hdigits

/-- the input behind blanks and one sign -/
def behindSign (input : Bytes) : Bytes :=
  match input.dropWhile isBlank with
  | b :: bs => if isSign b then bs else b :: bs
  | [] => []

theorem behindSign_eq {blanks behind : Bytes} {sign : Option UInt8} (hblanks : blanks.all isBlank = true)
    (hblank : Stops isBlank (sign.toList ++ behind)) (hsign : sign.all isSign = true)
    (hmid : sign = none → Stops isSign behind) : behindSign (blanks ++ (sign.toList ++ behind)) = behind := by
  have hdrop : (blanks ++ (sign.toList ++ behind)).dropWhile isBlank = sign.toList ++ behind := by
    rw [List.dropWhile_append_of_pos (List.all_eq_true.1 hblanks)]
    exact dropWhile_eq_self_of_stops hblank
  rw [behindSign, hdrop]
  cases sign with
  | some c => simp [show isSign c = true by simpa using hsign]
  | none =>
    cases behind with
    | nil => rfl
    | cons b bs => simp [hmid rfl b rfl]

/-- **Every input is blanks, a numeral that ends, and a rest.** -/
theorem exists_numeral (input : Bytes) :
    ∃ (blanks : Bytes) (n : Numeral) (rest : Bytes), input = blanks ++ (n.text ++ rest) ∧ blanks.all isBlank = true ∧
      n.Ends rest ∧ behindSign input = n.unsigned ++ rest := by
  obtain ⟨blanks, signed, rfl, hblanks, hblank⟩ := exists_run isBlank input
  obtain ⟨sign, behind, rfl, hsign, hmid⟩ := exists_optional isSign signed
  have hbehind := behindSign_eq hblanks hblank hsign hmid
  obtain ⟨whole, tail, rfl, hwhole, hstop⟩ := exists_run isDigit behind
  obtain ⟨places, tail, rfl, hplaces, hpoint, hdigit⟩ := exists_fraction tail
  obtain ⟨exponent, rest, rfl, hexponent, hmark, hexpsign, hdigits⟩ := exists_exponent tail
  let n : Numeral := ⟨sign, whole, places, exponent, hsign, hwhole, hplaces, hexponent⟩
  have hunsigned : whole ++ (fractionText places ++ (exponentText exponent ++ rest)) = n.unsigned ++ rest := by
    simp [n, Numeral.unsigned]
  have htext : sign.toList ++ (whole ++ (fractionText places ++ (exponentText exponent ++ rest))) = n.text ++ rest := by
    rw [hunsigned, Numeral.text, List.append_assoc]
  rw [htext] at hblank hbehind
  rw [hunsigned] at hmid hbehind
  exact ⟨blanks, n, rest, by rw [htext], hblanks,
    ⟨hblank, hmid, hstop, hpoint, hdigit, hmark, hexpsign, hdigits⟩, by rw [htext]; exact hbehind⟩

/-! ## Scans of a kind -/

/-- a scan of a float kind gives the value of its token, or logs the token -/
theorem Scanner.reads_scalar_float (k : FloatKind) {t : FloatToken} {bs rest : Bytes}
    (ht : Reads floatToken bs t rest []) :
    Reads (scalar (.float k)) bs ((t.value? k).map (.float k)) rest
      (if (t.value? k).isSome then [] else [.noFloat t.text]) := by
  have hscan : Reads (float k) bs (t.value? k) rest (if (t.value? k).isSome then [] else [.noFloat t.text]) := by
    refine ht.bind ?_
    cases t.value? k with
    | some x => exact reads_pure _ rest
    | none => exact (reads_report _ rest).bind (reads_pure none rest)
  generalize (if (t.value? k).isSome then [] else [Event.noFloat t.text]) = es at hscan ⊢
  rw [← List.append_nil es]
  exact hscan.bind (reads_pure _ rest)

/-- **Scanning a float in digits accepts exactly its grammar.** On input without failures that is not a word, a scan of a
float kind consumes the longest prefix of blanks, an optional sign, digits, an optional point with digits and an optional
exponent mark with an optional sign and digits, where all digits may be missing. It gives a value exactly if there is a
digit before or behind the point, and the same value as a scan of what it has consumed without an exponent that has no
digits. Otherwise it logs one event, which shows the consumed text without blanks and without such an exponent. -/
theorem decimal_scan_accepts_grammar (k : FloatKind) (input : Bytes)
    (hword : ∀ b ∈ (behindSign input).head?, startsWord b = false) (r : Reader) (hr : r.Delivers input) :
    ∃ (blanks : Bytes) (n : Numeral) (rest : Bytes), (input = blanks ++ n.text ++ rest ∧ blanks.all isBlank) ∧
      Longest (AfterBlanks DecimalShape) (blanks ++ n.text) rest ∧
      (Scanner.scalar (.float k) ⟨r, []⟩).2.reader.unread = rest ∧
      ((Scanner.scalar (.float k) ⟨r, []⟩).1.isSome ↔ n.mantissa ≠ []) ∧
      (∀ r' : Reader, r'.Delivers (blanks ++ n.kept.text) →
        (Scanner.scalar (.float k) ⟨r', []⟩).1 = (Scanner.scalar (.float k) ⟨r, []⟩).1) ∧
      (Scanner.scalar (.float k) ⟨r, []⟩).2.log =
        if (Scanner.scalar (.float k) ⟨r, []⟩).1.isSome then [] else [.noFloat n.kept.text] := by
  obtain ⟨blanks, n, rest, rfl, hblanks, hends, hbehind⟩ := exists_numeral input
  rw [hbehind] at hword
  obtain ⟨hvalue, hafter, hlog⟩ := (Scanner.reads_scalar_float k (hends.reads hblanks hword)).deliver hr
  refine ⟨blanks, n, rest, ⟨by rw [List.append_assoc], hblanks⟩, (hends.longest hblanks).2, hafter.unread, ?_, ?_, ?_⟩
  · rw [hvalue, Option.isSome_map, n.kept.isSome_value? k]
    rfl
  · intro r' hr'
    have hkept := n.kept.ends_nil.reads hblanks (by rw [List.append_nil]; exact n.kept.stops_startsWord_unsigned)
    rw [List.append_nil] at hkept
    obtain ⟨hvalue', -⟩ := (Scanner.reads_scalar_float k hkept).deliver hr'
    -- nothing is left to forget in what was kept
    have htwice : n.kept.kept.token = n.kept.token := by simp [Numeral.kept, Numeral.token]
    rw [hvalue, hvalue', htwice]
  · rw [hlog, hvalue, Option.isSome_map, Numeral.text_token]

/-- a point without digits and an exponent mark with a sign only: all is consumed, the event shows the point -/
theorem decimal_scan_accepts_grammar_bare :
    let input := asciiBytes "\n-.E+x"
    let r : Reader := ⟨[.data (asciiBytes "\n-."), .data (asciiBytes "E+x")], none⟩
    ((∀ b ∈ (behindSign input).head?, startsWord b = false) ∧ r.Delivers input ∧
      Scanner.scalar (.float .f32) ⟨r, []⟩ = (none, ⟨⟨[.data [120]], none⟩, [.noFloat [45, 46]]⟩)) ∧
    ∃ (blanks : Bytes) (n : Numeral) (rest : Bytes), (input = blanks ++ n.text ++ rest ∧ blanks.all isBlank) ∧
      Longest (AfterBlanks DecimalShape) (blanks ++ n.text) rest ∧
      (Scanner.scalar (.float .f32) ⟨r, []⟩).2.reader.unread = rest := by
  intro input r
  have hword : ∀ b ∈ (behindSign input).head?, startsWord b = false := by
    have hhead : (behindSign input).head? = some 46 := by decide
    rw [hhead]
    rintro _ ⟨⟩
    rfl
  have hr : r.Delivers input := ⟨by decide, rfl⟩
  obtain ⟨blanks, n, rest, hparts, hlongest, hunread, -⟩ := decimal_scan_accepts_grammar .f32 input hword r hr
  exact ⟨⟨hword, hr, by decide⟩, blanks, n, rest, hparts, hlongest, hunread⟩

end CallSurface
