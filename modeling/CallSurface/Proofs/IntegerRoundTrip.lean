/-
Printing in one integer kind and scanning in another is the cast.

The text of an integer denotes its exact value, a scan keeps the exact number modulo the width of its own kind, and so
does a cast. `reads_integer` says so for one number with anything around it, `output_println` says what a program of
`println` calls writes, and `scan_text_eq_cast` puts the three together, for one value and for whole lists.
-/
import CallSurface.Proofs.CleanInput
import CallSurface.Proofs.DecimalNotation
import CallSurface.Proofs.TypedSurface

namespace CallSurface

/-! ## The token of an integer -/

namespace IntToken

/-- how an integer is written -/
def ofInt (n : ℤ) : IntToken :=
  ⟨if n < 0 then some 45 else none, Decimal.digits n.natAbs⟩

theorem text_ofInt (n : ℤ) : (ofInt n).text = Decimal.integer n := by
  unfold text ofInt Decimal.integer
  split_ifs <;> rfl

theorem all_isSign_ofInt (n : ℤ) : (ofInt n).sign.all isSign = true := by
  unfold ofInt
  split_ifs <;> rfl

theorem value?_ofInt (n : ℤ) : (ofInt n).value? = some n := by
  have hne : (Decimal.digits n.natAbs).isEmpty = false := by simpa using Decimal.digits_ne_nil n.natAbs
  unfold value? ofInt
  rw [hne, Decimal.ofDigits_digits]
  by_cases hn : n < 0
  · have habs : (n.natAbs : ℤ) = -n := by omega
    simp [hn, isMinus, habs]
  · have habs : (n.natAbs : ℤ) = n := by omega
    simp [hn, habs]

end IntToken

namespace Scanner

theorem reads_intToken {t : IntToken} {blanks rest : Bytes} (hblanks : blanks.all isBlank = true)
    (hblank : Stops isBlank (t.text ++ rest)) (hsign : t.sign.all isSign = true)
    (hmid : t.sign = none → Stops isSign (t.digits ++ rest)) (hdigits : t.digits.all isDigit = true)
    (hrest : Stops isDigit rest) : Reads intToken (blanks ++ (t.text ++ rest)) t rest [] := by
  rw [IntToken.text, List.append_assoc] at hblank ⊢
  exact reads_signed hblanks hblank hsign hmid ((reads_takeWhile hdigits hrest).bind (reads_pure t rest))

/-- the text of an integer, behind any blanks and before anything but a digit, is scanned as that integer -/
theorem reads_integer (k : IntKind) (n : ℤ) {blanks rest : Bytes} (hblanks : blanks.all isBlank = true)
    (hrest : Stops isDigit rest) :
    Reads (integer k) (blanks ++ (Decimal.integer n ++ rest)) (some (k.wrap n)) rest [] := by
  have hdigits : (IntToken.ofInt n).digits.all isDigit = true := Decimal.all_isDigit_digits n.natAbs
  have hne : (IntToken.ofInt n).digits ≠ [] := Decimal.digits_ne_nil n.natAbs
  have hblank : Stops isBlank ((IntToken.ofInt n).text ++ rest) := by
    rw [IntToken.text, List.append_assoc]
    exact stops_blank_signed (IntToken.all_isSign_ofInt n)
      (stops_digits hdigits hne (fun b hb => (isDigit_excludes hb).1) rest)
  rw [← IntToken.text_ofInt]
  refine (reads_intToken hblanks hblank (IntToken.all_isSign_ofInt n)
    (fun _ => stops_digits hdigits hne (fun b hb => (isDigit_excludes hb).2.1) rest) hdigits hrest).bind ?_
  rw [IntToken.value?_ofInt]
  exact reads_pure _ rest

/-- a scan of any integer kind gives the cast of the value that was written -/
theorem reads_scalar_of_text {v : Scalar} {k : Kind} (hv : v.kind.isInteger = true) (hk : k.isInteger = true)
    {blanks rest : Bytes} (hblanks : blanks.all isBlank = true) (hrest : Stops isDigit rest) :
    Reads (scalar k) (blanks ++ (v.text ++ rest)) (some (v.cast k)) rest [] := by
  obtain ⟨a, x, rfl, htext⟩ : ∃ (a : IntKind) (x : BitVec a.bits),
      v = .int a x ∧ v.text = Decimal.integer (a.value x) := by
    cases v with
    | int a x =>
      cases a with
      | char => exact absurd hv (by simp [Scalar.kind, Kind.isInteger])
      | _ => exact ⟨_, x, rfl, rfl⟩
    | float a x => exact absurd hv (by simp [Scalar.kind, Kind.isInteger])
    | bool x => exact absurd hv (by simp [Scalar.kind, Kind.isInteger])
  rw [htext]
  cases k with
  | int b =>
    cases b with
    | char => exact absurd hk (by decide)
    | _ => exact (reads_integer _ (a.value x) hblanks hrest).bind (reads_pure _ rest)
  | float b => exact absurd hk (by simp [Kind.isInteger])
  | bool => exact absurd hk (by simp [Kind.isInteger])

end Scanner

/-! ## Casts -/

/-- a cast into its own kind gives an integer back -/
theorem Scalar.cast_kind {v : Scalar} (hv : v.kind.isInteger = true) : v.cast v.kind = v := by
  cases v with
  | int k x => exact congrArg (Scalar.int k) (k.wrap_value x)
  | float k x => exact absurd hv (by simp [kind, Kind.isInteger])
  | bool x => exact absurd hv (by simp [kind, Kind.isInteger])

/-! ## Printing -/

/-- the call that prints a scalar on a line of its own -/
def Step.println (v : Scalar) : Step :=
  .call (Symbol.println v.kind).name [.value (.scalar v)]

theorem perform_println {m : Machine} (hm : m.stdout.full = false) (results : List Value) (v : Scalar) :
    (Step.println v).perform m results = .returned ⟨.void, v.text ++ [10], []⟩ m := by
  have hlisted : Symbol.println v.kind ∈ catalogue := by
    simp [catalogue, castSymbols, ioSymbols, memorySymbols, Kind.mem_all]
  have hargs : [Arg.value (.scalar v)].mapM (Arg.resolve results) = some [.scalar v] := rfl
  rw [Step.println, perform_call hlisted hargs]
  simp [Machine.call, Machine.print, Stdout.print, hm]

/-- every line reaches the device, and the machine stays as it is -/
theorem runFrom_println {m : Machine} (hm : m.stdout.full = false) (results : List Value) (vs : List Scalar) :
    Program.runFrom m results (vs.map Step.println) =
      ⟨vs.map fun v => ⟨.void, v.text ++ [10], []⟩, .finished, m⟩ := by
  induction vs generalizing results with
  | nil => rfl
  | cons v vs ih => simp [Program.runFrom, perform_println hm, Heap.view, ih]

/-- scalars in their texts, one a line -/
def lines (vs : List Scalar) : Bytes :=
  vs.flatMap fun v => v.text ++ [10]

theorem output_println {m : Machine} (hm : m.stdout.full = false) (vs : List Scalar) :
    (Program.run m (vs.map Step.println)).reports.flatMap Report.output = lines vs := by
  rw [Program.run, runFrom_println hm, lines, List.flatMap_map]

/-! ## There and back -/

/-- lines that are scanned in order give the casts in order; the blanks are what the scan before has left -/
theorem scanAll_lines {vs : List Scalar} {ks : List Kind} (hvs : ∀ v ∈ vs, v.kind.isInteger = true)
    (hks : ∀ k ∈ ks, k.isInteger = true) (hlen : vs.length = ks.length) {r : Reader} {blanks : Bytes}
    (hblanks : blanks.all isBlank = true) (hr : r.Delivers (blanks ++ lines vs)) :
    (r.scanAll ks).1.map ScanReport.value = List.zipWith (fun v k => some (v.cast k)) vs ks := by
  induction vs generalizing ks r blanks with
  | nil =>
    obtain rfl := List.length_eq_zero_iff.1 hlen.symm
    rfl
  | cons v vs ih =>
    cases ks with
    | nil => exact absurd hlen (by simp)
    | cons k ks =>
      rw [lines, List.flatMap_cons, List.append_assoc] at hr
      have hread := Scanner.reads_scalar_of_text (hvs v List.mem_cons_self) (hks k List.mem_cons_self) hblanks
        (Scanner.stops_cons (lines vs) (show isDigit 10 = false from rfl))
      obtain ⟨hvalue, hafter, -⟩ := hread.deliver hr
      have hrest := ih (fun u hu => hvs u (List.mem_cons_of_mem v hu)) (fun l hl => hks l (List.mem_cons_of_mem k hl))
        (Nat.succ.inj hlen) (show [10].all isBlank = true from rfl) hafter
      rw [List.zipWith_cons_cons, ← hrest, ← hvalue]
      rfl

/-- **Printing in one integer kind and scanning in another is the cast.** A scan of integer kind `k` on input that holds
any blanks, the text of `v` and anything that does not begin with a digit gives `v` cast to `k`, which is `v` itself if
`k` is its own kind, and leaves what stands behind the text. So a list of integers that is printed line by line and
scanned back in any integer kinds comes back as the casts, one by one. -/
theorem scan_text_eq_cast :
    (∀ (v : Scalar) (k : Kind), v.kind.isInteger = true → k.isInteger = true →
      ∀ blanks rest : Bytes, blanks.all isBlank = true → (∀ b ∈ rest.head?, isDigit b = false) →
      ∀ r : Reader, r.Delivers (blanks ++ v.text ++ rest) →
        (Scanner.scalar k ⟨r, []⟩).1 = some (v.cast k) ∧ (v.kind = k → v.cast k = v) ∧
          (Scanner.scalar k ⟨r, []⟩).2.reader.unread = rest) ∧
    (∀ (vs : List Scalar) (ks : List Kind), (∀ v ∈ vs, v.kind.isInteger = true) → (∀ k ∈ ks, k.isInteger = true) →
      vs.length = ks.length → ∀ m : Machine, m.stdout.full = false →
        (Program.run m (vs.map Step.println)).ending = .finished ∧
        ∀ r : Reader, r.Delivers ((Program.run m (vs.map Step.println)).reports.flatMap Report.output) →
          (r.scanAll ks).1.map ScanReport.value = List.zipWith (fun v k => some (v.cast k)) vs ks) := by
  refine ⟨?_, ?_⟩
  · intro v k hv hk blanks rest hblanks hrest r hr
    rw [List.append_assoc] at hr
    obtain ⟨hvalue, hafter, -⟩ := (Scanner.reads_scalar_of_text hv hk hblanks hrest).deliver hr
    refine ⟨hvalue, ?_, hafter.unread⟩
    rintro rfl
    exact Scalar.cast_kind hv
  · intro vs ks hvs hks hlen m hm
    refine ⟨by rw [Program.run, runFrom_println hm], ?_⟩
    intro r hr
    rw [output_println hm] at hr
    exact scanAll_lines hvs hks hlen (show ([] : Bytes).all isBlank = true from rfl) hr

/-- the least 32-bit integer, read without a sign, and a line too wide for the kind that reads it -/
theorem scan_text_eq_cast_least :
    let v : Scalar := .int .i32 (BitVec.intMin 32)
    let u : Scalar := .int .ui64 (BitVec.allOnes 64)
    let m := Machine.start .ascending [] .endOfFile false
    let out := (Program.run m ([v, u].map Step.println)).reports.flatMap Report.output
    ((Scanner.scalar (.int .ui64) ⟨⟨[.data ([9, 32] ++ v.text ++ [101])], none⟩, []⟩).1 = some (v.cast (.int .ui64)) ∧
      v.cast (.int .ui64) = .int .ui64 18446744071562067968) ∧
    ((⟨[.data out], none⟩ : Reader).scanAll [.int .usize, .int .i32]).1.map ScanReport.value =
      [some (v.cast (.int .usize)), some (u.cast (.int .i32))] ∧ u.cast (.int .i32) = .int .i32 (-1) := by
  intro v u m out
  have hpair : ∀ x ∈ [v, u], x.kind.isInteger = true := by simp [v, u, Scalar.kind, Kind.isInteger]
  refine ⟨⟨?_, by decide⟩, ?_, by decide⟩
  · exact (scan_text_eq_cast.1 v (.int .ui64) rfl rfl [9, 32] [101] rfl (Scanner.stops_cons [] rfl) _
      (Reader.delivers_data _)).1
  · exact (scan_text_eq_cast.2 [v, u] [.int .usize, .int .i32] hpair (by decide) rfl m rfl).2 _ (Reader.delivers_data out)

end CallSurface
