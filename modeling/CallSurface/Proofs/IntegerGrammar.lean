/-
Scanning an integer accepts exactly its grammar.

A scan takes blanks, a sign if there is one, and all digits that follow (`longest_integer`): this is the longest prefix
of that form, whether or not it holds a digit. The number written may be of any size. It is enough to keep its residue
modulo `2 ^ 64` while the digits come in (`accumulate_eq`), since no integer kind is wider; negation and the cut to the
width of the kind come at the end and lose nothing that the kind could hold (`toInt_wrap_of_le`).

Main result: `integer_scan_accepts_grammar`.
-/
import CallSurface.Proofs.Conservation
import CallSurface.Proofs.IntegerRoundTrip
import CallSurface.Proofs.LongestPrefix

namespace CallSurface

open Scanner (Stops)

/-! ## What is taken -/

theorem longest_digits {digits rest : Bytes} (hdigits : digits.all isDigit = true) (hrest : Stops isDigit rest) :
    Longest (fun s => s.all isDigit = true) digits rest := by
  have h := Longest.run hdigits (show Stops isDigit ([] ++ rest) from hrest) (fun _ _ h => by simp at h)
    (Longest.nil rest)
  rw [List.append_nil] at h
  exact h.congr fun s => by simp

theorem isSign_eq_false_of_digits (b : UInt8) (s : Bytes) (h : (b :: s).all isDigit = true) : isSign b = false := by
  simp only [List.all_cons, Bool.and_eq_true] at h
  exact (isDigit_excludes h.1).2.1

/-- an optional sign and digits: nothing longer of this shape stands at the front -/
theorem longest_signedDigits {sign : Option UInt8} {digits rest : Bytes} (hsign : sign.all isSign = true)
    (hmid : sign = none → Stops isSign (digits ++ rest)) (hdigits : digits.all isDigit = true)
    (hrest : Stops isDigit rest) : Longest IntegerShape (sign.toList ++ digits) rest :=
  (longest_digits hdigits hrest).optional hsign hmid isSign_eq_false_of_digits

theorem isBlank_eq_false_of_integerShape (b : UInt8) (s : Bytes) (h : IntegerShape (b :: s)) : isBlank b = false := by
  obtain ⟨sign, digits, htext, hsign, hdigits⟩ := h
  cases sign with
  | none =>
    rw [Option.toList_none, List.nil_append] at htext
    rw [← htext, List.all_cons, Bool.and_eq_true] at hdigits
    exact (isDigit_excludes hdigits.1).1
  | some c =>
    obtain ⟨rfl, -⟩ := List.cons.inj htext
    exact (isSign_excludes (by simpa using hsign)).1

/-- the same behind blanks -/
theorem longest_integer {blanks : Bytes} {t : IntToken} {rest : Bytes} (hblanks : blanks.all isBlank = true)
    (hblank : Stops isBlank (t.text ++ rest)) (hsign : t.sign.all isSign = true)
    (hmid : t.sign = none → Stops isSign (t.digits ++ rest)) (hdigits : t.digits.all isDigit = true)
    (hrest : Stops isDigit rest) : Longest (AfterBlanks IntegerShape) (blanks ++ t.text) rest :=
  (longest_signedDigits hsign hmid hdigits hrest).run hblanks hblank isBlank_eq_false_of_integerShape

/-! ## What it denotes -/

namespace Decimal

/-- the digits in a 64-bit register that wraps around at every step -/
def accumulate (ds : Bytes) : BitVec IntKind.ui64.bits :=
  ds.foldl (fun v b => v * 10 + BitVec.ofNat 64 (digitValue b)) 0

/-- **The register holds the residue of the whole number**, however many digits have gone through it. -/
theorem accumulate_eq (ds : Bytes) : accumulate ds = IntKind.ui64.wrap (ofDigits ds) := by
  have hwrap : ∀ n : ℕ, IntKind.ui64.wrap n = BitVec.ofNat 64 n := fun n => BitVec.ofInt_natCast 64 n
  rw [hwrap]
  induction ds using List.reverseRecOn with
  | nil => rfl
  | append_singleton ds b ih =>
    have hstep : accumulate (ds ++ [b]) = accumulate ds * 10 + BitVec.ofNat 64 (digitValue b) := by simp [accumulate]
    rw [hstep, ih, ofDigits_append_singleton, BitVec.ofNat_add, BitVec.ofNat_mul, BitVec.mul_comm]
    rfl

end Decimal

namespace IntKind

theorem bits_le (k : IntKind) : k.bits ≤ ui64.bits := by
  cases k <;> decide

/-- a cut to a smaller width sees only the residue at the greater one -/
theorem toInt_wrap_of_le {a b : IntKind} (h : b.bits ≤ a.bits) (n : ℤ) : a.toInt b (a.wrap n) = b.wrap n := by
  rw [toInt, wrap_eq_wrap_iff]
  exact (a.value_wrap_modEq n).of_dvd (pow_dvd_pow 2 h)

theorem wrap_neg (k : IntKind) (n : ℤ) : k.wrap (-n) = -k.wrap n :=
  BitVec.ofInt_neg

end IntKind

namespace IntToken

/-- the integer that sign and digits write, if there are digits -/
def written (t : IntToken) : ℤ :=
  if t.sign = some 45 then -(Decimal.ofDigits t.digits : ℤ) else Decimal.ofDigits t.digits

theorem any_isMinus (t : IntToken) : t.sign.any isMinus = true ↔ t.sign = some 45 := by
  cases h : t.sign <;> simp [isMinus]

theorem value?_eq_some {t : IntToken} (hdigits : t.digits ≠ []) : t.value? = some t.written := by
  have hne : t.digits.isEmpty = false := by simpa using hdigits
  unfold value? written
  simp only [hne, Bool.false_eq_true, ↓reduceIte, any_isMinus]
  split_ifs <;> rfl

theorem value?_eq_none {t : IntToken} (hdigits : t.digits = []) : t.value? = none := by
  simp [value?, hdigits]

/-- the value of a token by way of the register -/
theorem wrap_written (k : IntKind) (t : IntToken) :
    k.wrap t.written =
      IntKind.ui64.toInt k (if t.sign = some 45 then -Decimal.accumulate t.digits else Decimal.accumulate t.digits) := by
  have hwide : (if t.sign = some 45 then -Decimal.accumulate t.digits else Decimal.accumulate t.digits) =
      IntKind.ui64.wrap t.written := by
    unfold written
    split_ifs
    · rw [Decimal.accumulate_eq, IntKind.wrap_neg]
    · rw [Decimal.accumulate_eq]
  rw [hwide, IntKind.toInt_wrap_of_le k.bits_le]

end IntToken

/-! ## Scans and calls -/

namespace Scanner

theorem scalar_int {k : IntKind} (hk : k ≠ .char) : scalar (.int k) = do return (← integer k).map (.int k) := by
  cases k with
  | char => exact absurd rfl hk
  | _ => rfl

/-- a token with digits gives its value, reduced to the width of the kind -/
theorem Reads.integer_some {k : IntKind} (hk : k ≠ .char) {t : IntToken} {bs rest : Bytes}
    (ht : Reads intToken bs t rest []) (hdigits : t.digits ≠ []) :
    Reads (scalar (.int k)) bs (some (.int k (k.wrap t.written))) rest [] := by
  have hscan : Reads (integer k) bs (some (k.wrap t.written)) rest [] := by
    refine ht.bind ?_
    rw [IntToken.value?_eq_some hdigits]
    exact reads_pure _ rest
  rw [scalar_int hk]
  exact hscan.bind (reads_pure _ rest)

/-- a token without digits gives nothing and is logged -/
theorem Reads.integer_none {k : IntKind} (hk : k ≠ .char) {t : IntToken} {bs rest : Bytes}
    (ht : Reads intToken bs t rest []) (hdigits : t.digits = []) :
    Reads (scalar (.int k)) bs none rest [.noInteger t.sign.toList] := by
  have htext : t.text = t.sign.toList := by rw [IntToken.text, hdigits, List.append_nil]
  have hscan : Reads (integer k) bs none rest [.noInteger t.sign.toList] := by
    refine ht.bind ?_
    rw [IntToken.value?_eq_none hdigits, ← htext]
    exact (reads_report _ rest).bind (reads_pure none rest)
  rw [scalar_int hk]
  exact hscan.bind (reads_pure _ rest)

end Scanner

/-- a call that reads a scalar gives what the scan gives, or zero -/
theorem perform_input {k : Kind} (hk : k.hasInput = true) (m : Machine) (results : List Value) :
    (Step.call (Symbol.input k).name []).perform m results =
      .returned ⟨.scalar ((Scanner.scalar k ⟨m.stdin, []⟩).1.getD (.zero k)), [],
        m.stdout.flush ++ (Scanner.scalar k ⟨m.stdin, []⟩).2.log⟩
        { m with stdin := (Scanner.scalar k ⟨m.stdin, []⟩).2.reader } := by
  have hlisted : Symbol.input k ∈ catalogue := by
    simp [catalogue, castSymbols, ioSymbols, memorySymbols, Kind.mem_all, hk]
  rw [perform_call hlisted rfl]
  rfl

/-- **Scanning an integer accepts exactly its grammar.** On input without failures, a scan of an integer kind consumes
the longest prefix that consists of blanks, at most one sign and digits, of any length. With a digit it gives the value
of the kind that is congruent to the number written, and this is what a 64-bit register that wraps around at every digit
gives when it is negated and cut to the width of the kind. Without a digit it gives nothing and logs one event that
shows the sign, if there is one, and the input call of the kind gives zero. -/
theorem integer_scan_accepts_grammar (k : IntKind) (hk : k ≠ .char) (input : Bytes) (r : Reader)
    (hr : r.Delivers input) :
    ∃ (blanks : Bytes) (sign : Option UInt8) (digits rest : Bytes),
      (input = blanks ++ (sign.toList ++ digits) ++ rest ∧ blanks.all isBlank ∧ sign.all isSign ∧ digits.all isDigit) ∧
      Longest (AfterBlanks IntegerShape) (blanks ++ (sign.toList ++ digits)) rest ∧
      (Scanner.scalar (.int k) ⟨r, []⟩).2.reader.unread = rest ∧
      (digits ≠ [] → ∃ x : BitVec k.bits,
        (Scanner.scalar (.int k) ⟨r, []⟩).1 = some (.int k x) ∧ (Scanner.scalar (.int k) ⟨r, []⟩).2.log = [] ∧
        k.value x ≡ (if sign = some 45 then -(Decimal.ofDigits digits : ℤ) else Decimal.ofDigits digits)
          [ZMOD 2 ^ k.bits] ∧
        x = IntKind.ui64.toInt k (if sign = some 45 then -Decimal.accumulate digits else Decimal.accumulate digits)) ∧
      (digits = [] →
        (Scanner.scalar (.int k) ⟨r, []⟩).1 = none ∧
        (Scanner.scalar (.int k) ⟨r, []⟩).2.log = [.noInteger sign.toList] ∧
        ∀ (m : Machine) (results : List Value), m.stdin = r →
          (Step.call (Symbol.input (.int k)).name []).perform m results =
            .returned ⟨.scalar (.int k 0), [], m.stdout.flush ++ [.noInteger sign.toList]⟩
              { m with stdin := (Scanner.scalar (.int k) ⟨r, []⟩).2.reader }) := by
  obtain ⟨blanks, behind, rfl, hblanks, hblank⟩ := exists_run isBlank input
  obtain ⟨sign, tail, rfl, hsign, hmid⟩ := exists_optional isSign behind
  obtain ⟨digits, rest, rfl, hdigits, hrest⟩ := exists_run isDigit tail
  rw [← List.append_assoc sign.toList] at hr hblank
  have htoken : Scanner.Reads Scanner.intToken (blanks ++ ((sign.toList ++ digits) ++ rest)) ⟨sign, digits⟩ rest [] :=
    Scanner.reads_intToken (t := ⟨sign, digits⟩) hblanks hblank hsign hmid hdigits hrest
  refine ⟨blanks, sign, digits, rest, ⟨by simp, hblanks, hsign, hdigits⟩, ?_, ?_, ?_, ?_⟩
  · exact longest_integer (t := ⟨sign, digits⟩) hblanks hblank hsign hmid hdigits hrest
  · by_cases hne : digits = []
    · exact ((htoken.integer_none hk hne).deliver hr).2.1.unread
    · exact ((htoken.integer_some hk hne).deliver hr).2.1.unread
  · intro hne
    obtain ⟨hvalue, -, hlog⟩ := (htoken.integer_some hk hne).deliver hr
    exact ⟨_, hvalue, hlog, k.value_wrap_modEq _, IntToken.wrap_written k ⟨sign, digits⟩⟩
  · intro hnil
    obtain ⟨hvalue, -, hlog⟩ := (htoken.integer_none hk hnil).deliver hr
    refine ⟨hvalue, hlog, ?_⟩
    rintro m results rfl
    rw [perform_input rfl, hvalue, hlog]
    rfl

/-- a number of more than 64 bits, cut in pieces and read into 32 -/
theorem integer_scan_accepts_grammar_wide :
    let input := asciiBytes " \t-42949672950000000001x"
    let r : Reader := ⟨[.data (asciiBytes " \t-4294967"), .interrupted, .data (asciiBytes "2950000000001x")], none⟩
    (IntKind.ui32 ≠ .char ∧ r.Delivers input ∧
      (Scanner.scalar (.int .ui32) ⟨r, []⟩).1 = some (.int .ui32 1410065407)) ∧
      ∃ (blanks : Bytes) (sign : Option UInt8) (digits rest : Bytes),
        (input = blanks ++ (sign.toList ++ digits) ++ rest ∧ blanks.all isBlank ∧ sign.all isSign ∧
          digits.all isDigit) ∧
        Longest (AfterBlanks IntegerShape) (blanks ++ (sign.toList ++ digits)) rest ∧
        (Scanner.scalar (.int .ui32) ⟨r, []⟩).2.reader.unread = rest := by
  intro input r
  have hr : r.Delivers input := ⟨by decide, rfl⟩
  obtain ⟨blanks, sign, digits, rest, hparts, hlongest, hunread, -⟩ :=
    integer_scan_accepts_grammar .ui32 (by decide) input r hr
  exact ⟨⟨by decide, hr, by decide⟩, blanks, sign, digits, rest, hparts, hlongest, hunread⟩

end CallSurface
