/-
The catalogue and the functions behind it describe the same typed surface.

That the functions are linked under the names that the catalogue spells, and for its symbols and no others, is the
business of `Proofs.LinkAgreement`. What a function gives is the business of its body: on arguments of the kinds that
the signature names, it gives a value of the kind that the signature names, or traps where an integer is divided
(`Operator.apply_answers_pair`, `Operator.apply_answers_single`, `Symbol.apply_answers`). A call by name reaches the
function of the symbol that has the name (`perform_call`).

Main result: `catalogue_describes_functions`.
-/
import CallSurface.Program
import CallSurface.Proofs.LinkAgreement
import CallSurface.Proofs.Residue

namespace CallSurface

/-! ## Values of a kind -/

/-- a value inside the range of a kind: an integer between its bounds, any bit pattern of a float, a truth value -/
def Kind.Holds (k : Kind) : Scalar → Prop
  | .int l x => k = .int l ∧ l.minValue ≤ l.value x ∧ l.value x ≤ l.maxValue
  | .float l _ => k = .float l
  | .bool _ => k = .bool

theorem Kind.holds_kind (v : Scalar) : v.kind.Holds v := by
  cases v with
  | int l x => exact ⟨rfl, l.value_bounds x⟩
  | float l x => rfl
  | bool b => rfl

/-- what a function may give: a value of kind `k`, or a trap if `mayTrap` holds -/
def Answers (k : Kind) (mayTrap : Prop) (r : Option (Except Trap Scalar)) : Prop :=
  (∃ v, r = some (.ok v) ∧ k.Holds v) ∨ mayTrap ∧ ∃ t, r = some (.error t)

theorem answers_ok {k : Kind} {mayTrap : Prop} {v : Scalar} (h : v.kind = k) : Answers k mayTrap (some (.ok v)) :=
  Or.inl ⟨v, rfl, h ▸ Kind.holds_kind v⟩

/-- only a division can trap -/
theorem answers_division {k : IntKind} {mayTrap : Prop} (htrap : mayTrap) (e : Except Trap (BitVec k.bits)) :
    Answers (.int k) mayTrap (some (e.map (Scalar.int k))) := by
  cases e with
  | ok q => exact answers_ok rfl
  | error t => exact Or.inr ⟨htrap, t, rfl⟩

theorem Answers.imp {k : Kind} {mayTrap mayTrap' : Prop} {r : Option (Except Trap Scalar)} (h : Answers k mayTrap r)
    (himp : mayTrap → mayTrap') : Answers k mayTrap' r := by
  rcases h with hvalue | ⟨htrap, ht⟩
  · exact Or.inl hvalue
  · exact Or.inr ⟨himp htrap, ht⟩

/-! ## Operators and casts -/

theorem Scalar.eq_int_of_kind {v : Scalar} {k : IntKind} (h : v.kind = .int k) : ∃ x, v = .int k x := by
  cases v with
  | int l x =>
    cases h
    exact ⟨x, rfl⟩
  | float l x => cases h
  | bool b => cases h

theorem Scalar.eq_float_of_kind {v : Scalar} {k : FloatKind} (h : v.kind = .float k) : ∃ x, v = .float k x := by
  cases v with
  | int l x => cases h
  | float l x =>
    cases h
    exact ⟨x, rfl⟩
  | bool b => cases h

theorem Scalar.eq_bool_of_kind {v : Scalar} (h : v.kind = .bool) : ∃ b, v = .bool b := by
  cases v with
  | int l x => cases h
  | float l x => cases h
  | bool b => exact ⟨b, rfl⟩

theorem Scalar.kind_cast (target : Kind) (v : Scalar) : (v.cast target).kind = target := by
  cases target <;> cases v <;> rfl

namespace Operator

theorem onInts_answers {op : Operator} {k : IntKind} (x y : BitVec k.bits) (harity : op.arity = 2) :
    Answers (op.resultKind (.int k)) (op = div ∨ op = mod) (op.onInts k x y) := by
  cases op with
  | div => exact answers_division (Or.inl rfl) (k.div x y)
  | mod => exact answers_division (Or.inr rfl) (k.mod x y)
  | not => exact absurd harity (by decide)
  | unaryMinus => exact absurd harity (by decide)
  | _ => exact answers_ok rfl

theorem onFloats_answers {op : Operator} {k : FloatKind} {mayTrap : Prop} (x y : BitVec k.bits)
    (hlinked : op.isLinked (.float k) = true) (harity : op.arity = 2) :
    Answers (op.resultKind (.float k)) mayTrap (op.onFloats k x y) := by
  rw [isLinked_eq_supports] at hlinked
  cases op with
  | and | or | xor | lshift | rshift => exact absurd hlinked Bool.false_ne_true
  | not | unaryMinus => exact absurd harity (by decide)
  | _ => exact answers_ok rfl

theorem onBools_answers {op : Operator} {mayTrap : Prop} (x y : Bool) (hlinked : op.isLinked .bool = true)
    (harity : op.arity = 2) : Answers (op.resultKind .bool) mayTrap (op.onBools x y) := by
  rw [isLinked_eq_supports] at hlinked
  cases op with
  | and | or | eq | notEq => exact answers_ok rfl
  | not | unaryMinus => exact absurd harity (by decide)
  | _ => exact absurd hlinked Bool.false_ne_true

/-- division is linked on kinds with integer arithmetic and on floats only -/
theorem isInteger_of_division {op : Operator} {k : IntKind} (hlinked : op.isLinked (.int k) = true)
    (hdiv : op = div ∨ op = mod) : (Kind.int k).isInteger = true := by
  cases k with
  | char =>
    rcases hdiv with rfl | rfl
    · exact absurd hlinked (by decide)
    · exact absurd hlinked (by decide)
  | _ => rfl

theorem apply_ints {op : Operator} {k : IntKind} (hlinked : op.isLinked (.int k) = true) (x y : BitVec k.bits) :
    op.apply (.int k) [.int k x, .int k y] = op.onInts k x y := by
  simp [apply, hlinked]

theorem apply_floats {op : Operator} {k : FloatKind} (hlinked : op.isLinked (.float k) = true) (x y : BitVec k.bits) :
    op.apply (.float k) [.float k x, .float k y] = op.onFloats k x y := by
  simp [apply, hlinked]

theorem apply_unaryMinus_int {k : IntKind} (hlinked : unaryMinus.isLinked (.int k) = true) (x : BitVec k.bits) :
    apply unaryMinus (.int k) [.int k x] = some (.ok (.int k (-x))) := by
  simp [apply, hlinked]

theorem apply_unaryMinus_float {k : FloatKind} (x : BitVec k.bits) :
    apply unaryMinus (.float k) [.float k x] = some (.ok (.float k (k.neg x))) := by
  have hlinked : unaryMinus.isLinked (.float k) = true := by cases k <;> decide
  simp [apply, hlinked]

/-- two operands of the kind -/
theorem apply_answers_pair {op : Operator} {k : Kind} {a b : Scalar} (hlinked : op.isLinked k = true)
    (harity : op.arity = 2) (ha : a.kind = k) (hb : b.kind = k) :
    Answers (op.resultKind k) (k.isInteger = true ∧ (op = div ∨ op = mod)) (op.apply k [a, b]) := by
  cases k with
  | int k =>
    obtain ⟨x, rfl⟩ := Scalar.eq_int_of_kind ha
    obtain ⟨y, rfl⟩ := Scalar.eq_int_of_kind hb
    rw [apply_ints hlinked]
    exact (onInts_answers x y harity).imp fun hdiv => ⟨isInteger_of_division hlinked hdiv, hdiv⟩
  | float k =>
    obtain ⟨x, rfl⟩ := Scalar.eq_float_of_kind ha
    obtain ⟨y, rfl⟩ := Scalar.eq_float_of_kind hb
    rw [apply_floats hlinked]
    exact onFloats_answers x y hlinked harity
  | bool =>
    obtain ⟨x, rfl⟩ := Scalar.eq_bool_of_kind ha
    obtain ⟨y, rfl⟩ := Scalar.eq_bool_of_kind hb
    have heq : op.apply .bool [.bool x, .bool y] = op.onBools x y := by simp [apply, hlinked]
    rw [heq]
    exact onBools_answers x y hlinked harity

/-- one operand of the kind -/
theorem apply_answers_single {op : Operator} {k : Kind} {a : Scalar} {mayTrap : Prop} (hlinked : op.isLinked k = true)
    (harity : op.arity = 1) (ha : a.kind = k) : Answers (op.resultKind k) mayTrap (op.apply k [a]) := by
  have hop : op = not ∨ op = unaryMinus := by
    cases op with
    | not => exact Or.inl rfl
    | unaryMinus => exact Or.inr rfl
    | _ => exact absurd harity (by decide)
  cases k with
  | int k =>
    obtain ⟨x, rfl⟩ := Scalar.eq_int_of_kind ha
    rcases hop with rfl | rfl
    · rw [isLinked_eq_supports] at hlinked
      cases k <;> exact absurd hlinked Bool.false_ne_true
    · rw [apply_unaryMinus_int hlinked]
      exact answers_ok rfl
  | float k =>
    obtain ⟨x, rfl⟩ := Scalar.eq_float_of_kind ha
    rcases hop with rfl | rfl
    · exact absurd hlinked (by cases k <;> decide)
    · rw [apply_unaryMinus_float]
      exact answers_ok rfl
  | bool =>
    obtain ⟨x, rfl⟩ := Scalar.eq_bool_of_kind ha
    rcases hop with rfl | rfl
    · have heq : apply not .bool [.bool x] = some (.ok (.bool !x)) := by simp [apply, hlinked]
      rw [heq]
      exact answers_ok rfl
    · exact absurd hlinked (by decide)

end Operator

namespace Symbol

/-- an integer division -/
def Divides (y : Symbol) : Prop :=
  ∃ (op : Operator) (k : Kind), y = operator op k ∧ k.isInteger = true ∧ (op = .div ∨ op = .mod)

/-- **A function gives what its signature says**, on arguments of the kinds that the signature says. -/
theorem apply_answers {y : Symbol} {args : List Scalar} (hy : y ∈ catalogue)
    (hfamily : y.family = .operator ∨ y.family = .cast)
    (hargs : args.map (fun v => CType.scalar v.kind) = y.signature.params.map Param.type) :
    ∃ k, y.signature.ret = .scalar k ∧ Answers k y.Divides (y.apply args) := by
  cases y with
  | operator op k =>
    refine ⟨op.resultKind k, rfl, ?_⟩
    have hlinked : op.isLinked k = true := by
      rw [Operator.isLinked_eq_supports]
      simpa [catalogue, castSymbols, ioSymbols, memorySymbols, operatorsOf, Kind.mem_all, Operator.mem_all] using hy
    show Answers _ _ (op.apply k args)
    by_cases harity : op.arity = 1
    · simp only [signature, harity, if_true, List.map_cons, List.map_nil, List.map_eq_singleton_iff] at hargs
      obtain ⟨a, rfl, ha⟩ := hargs
      exact Operator.apply_answers_single hlinked harity (CType.scalar.inj ha)
    · simp only [signature, harity, if_false, List.map_cons, List.map_nil, List.map_eq_cons_iff,
        List.map_eq_nil_iff] at hargs
      obtain ⟨a, _, rfl, ha, b, _, rfl, hb, rfl⟩ := hargs
      have hpair : op.arity = 2 := by
        cases op with
        | not | unaryMinus => exact absurd rfl harity
        | _ => rfl
      exact (Operator.apply_answers_pair hlinked hpair (CType.scalar.inj ha) (CType.scalar.inj hb)).imp
        fun hdiv => ⟨op, k, rfl, hdiv⟩
  | cast a b =>
    simp only [signature, List.map_cons, List.map_nil, List.map_eq_singleton_iff] at hargs
    obtain ⟨v, rfl, hv⟩ := hargs
    have heq : (cast a b).apply [v] = some (.ok (v.cast b)) := by simp [apply, CType.scalar.inj hv]
    rw [heq]
    exact ⟨b, rfl, answers_ok (v.kind_cast b)⟩
  | _ => simp [family] at hfamily

end Symbol

/-! ## Calls by name -/

theorem mapM_scalar? (vs : List Scalar) : (vs.map Value.scalar).mapM Value.scalar? = some vs := by
  induction vs with
  | nil => rfl
  | cons v vs ih => simp [List.mapM_cons, ih, Value.scalar?]

/-- a call by a catalogued name reaches the function of the symbol -/
theorem perform_call {y : Symbol} (hy : y ∈ catalogue) {results : List Value} {args : List Arg} {values : List Value}
    (hargs : args.mapM (Arg.resolve results) = some values) (m : Machine) :
    (Step.call y.name args).perform m results = m.call results.length y values := by
  simp only [Step.perform, LinkedFunction.find?_name hy, hargs]

/-- a call of an operator or a cast by its name is what its function computes; nothing else happens -/
theorem perform_compute {y : Symbol} (hy : y ∈ catalogue) (hfamily : y.family = .operator ∨ y.family = .cast)
    {results : List Value} {args : List Arg} {vs : List Scalar}
    (hargs : args.mapM (Arg.resolve results) = some (vs.map Value.scalar)) (m : Machine) :
    (Step.call y.name args).perform m results =
      match y.apply vs with
      | some (.ok v) => .returned ⟨.scalar v, [], []⟩ m
      | some (.error t) => .ended (.trapped t)
      | none => .ended .invalid := by
  have hcall : m.call results.length y (vs.map Value.scalar) = m.compute y (vs.map Value.scalar) := by
    cases y with
    | operator op k => rfl
    | cast a b => rfl
    | _ => simp [Symbol.family] at hfamily
  rw [perform_call hy hargs, hcall, Machine.compute, mapM_scalar?]
  rfl

/-- **The catalogue and the functions behind it describe the same typed surface.** A name is linked exactly if it can be
looked up, and the look-up gives the symbol that the function linked there stands for. A look-up gives the one catalogued
symbol of that name, or keeps the unknown name. And what is linked under the name of a catalogued operator or cast, when
it is called on arguments of the kinds that the signature takes, returns a value inside the range of the kind that the
signature gives back, or traps, which only an integer division can do. -/
theorem catalogue_describes_functions :
    (∀ s : String, s ∈ linkTable.map LinkedFunction.name ↔ ∃ y, Symbol.lookup s = .ok y) ∧
    (∀ f ∈ linkTable, Symbol.lookup f.name = .ok f.call) ∧
    (∀ (s : String) (y : Symbol), Symbol.lookup s = .ok y ↔ y ∈ catalogue ∧ y.name = s) ∧
    (∀ s : String, (∀ y ∈ catalogue, y.name ≠ s) → Symbol.lookup s = .error (.unknownSymbol s)) ∧
    (∀ y ∈ catalogue, y.family = .operator ∨ y.family = .cast →
      ∀ (results : List Value) (args : List Arg) (vs : List Scalar),
        args.mapM (Arg.resolve results) = some (vs.map Value.scalar) →
        vs.map (fun v => CType.scalar v.kind) = y.signature.params.map Param.type → ∀ m : Machine,
          (∃ v k, (Step.call y.name args).perform m results = .returned ⟨.scalar v, [], []⟩ m ∧
            y.signature.ret = .scalar k ∧ k.Holds v) ∨
          (∃ t, (Step.call y.name args).perform m results = .ended (.trapped t) ∧
            ∃ op k, y = .operator op k ∧ k.isInteger = true ∧ (op = .div ∨ op = .mod))) := by
  refine ⟨?_, fun _ => LinkedFunction.lookup_eq_ok, Symbol.lookup_eq_ok_iff, ?_, ?_⟩
  · intro s
    constructor
    · intro hs
      obtain ⟨f, hf, rfl⟩ := List.mem_map.1 hs
      exact ⟨f.call, LinkedFunction.lookup_eq_ok hf⟩
    · rintro ⟨y, hlookup⟩
      obtain ⟨hy, rfl⟩ := (Symbol.lookup_eq_ok_iff s y).1 hlookup
      obtain ⟨hlinked, -⟩ := (LinkedFunction.find?_eq_some_iff _ _).1 (LinkedFunction.find?_name hy)
      exact List.mem_map_of_mem hlinked
  · intro s hs
    cases hlookup : Symbol.lookup s with
    | ok y =>
      obtain ⟨hy, hname⟩ := (Symbol.lookup_eq_ok_iff s y).1 hlookup
      exact absurd hname (hs y hy)
    | error e => rw [Symbol.lookup_eq_error hlookup]
  · intro y hy hfamily results args vs hargs hkinds m
    rw [perform_compute hy hfamily hargs]
    obtain ⟨k, hret, ⟨v, happly, hv⟩ | ⟨hdiv, t, happly⟩⟩ := Symbol.apply_answers hy hfamily hkinds
    · rw [happly]
      exact Or.inl ⟨v, k, rfl, hret, hv⟩
    · rw [happly]
      exact Or.inr ⟨t, rfl, hdiv⟩

/-- a name that only looks like a link name, and a division of an earlier result -/
theorem catalogue_describes_functions_quotient :
    let y : Symbol := .operator .div (.int .i32)
    let results : List Value := [.scalar (.int .i32 (-7))]
    let args : List Arg := [.result 0, .value (.scalar (.int .i32 2))]
    let vs : List Scalar := [.int .i32 (-7), .int .i32 2]
    let m := Machine.start .ascending [] .endOfFile false
    ((∀ y ∈ catalogue, y.name ≠ "__ext_input_bool") ∧
      Symbol.lookup "__ext_input_bool" = .error (.unknownSymbol "__ext_input_bool")) ∧
    ((y ∈ catalogue ∧ args.mapM (Arg.resolve results) = some (vs.map Value.scalar) ∧
        vs.map (fun v => CType.scalar v.kind) = y.signature.params.map Param.type) ∧
      ((∃ v k, (Step.call y.name args).perform m results = .returned ⟨.scalar v, [], []⟩ m ∧
          y.signature.ret = .scalar k ∧ k.Holds v) ∨
        (∃ t, (Step.call y.name args).perform m results = .ended (.trapped t) ∧
          ∃ op k, y = .operator op k ∧ k.isInteger = true ∧ (op = .div ∨ op = .mod)))) := by
  intro y results args vs m
  have hnames : ∀ y ∈ catalogue, y.name ≠ "__ext_input_bool" := by decide +kernel
  have hy : y ∈ catalogue := by decide +kernel
  exact ⟨⟨hnames, catalogue_describes_functions.2.2.2.1 _ hnames⟩, ⟨hy, rfl, rfl⟩,
    catalogue_describes_functions.2.2.2.2 y hy (Or.inl rfl) results args vs rfl rfl m⟩

end CallSurface
