/-
The link table and the catalogue agree, name by name.

The catalogue spells the link name of a symbol from the names of its operator and its kinds (`Symbol.name`) and lists
what `supports` and `hasInput` say. The link table spells its names group by group, with tags for the kinds, and lists
its functions row by row. Here the two are compared:
- `LinkedFunction.name_eq`: a function is linked under the name of the symbol that it stands for;
- `mem_map_call_linkTable`: a symbol has a linked function exactly if it is catalogued;
- `Symbol.lookup_eq_ok_iff`, `LinkedFunction.find?_eq_some_iff`: by a name, each side finds the one entry that has it.

From these `LinkedFunction.find?_name`: under the name of a catalogued symbol its own function is linked.
-/
import CallSurface.Catalogue
import CallSurface.LinkTable
import CallSurface.Proofs.LinkName

namespace CallSurface

/-! ## Tags of kinds -/

/-- a row of the cast matrix goes to every other kind, and its tags are the names of the kinds -/
theorem Kind.castFunctions_eq (k : Kind) :
    k.castFunctions = castRow k.name k ((all.filter (· != k)).map fun l => (l.name, l)) := by
  cases k with
  | int k => cases k <;> rfl
  | float k => cases k <;> rfl
  | bool => rfl

theorem printFunctions_eq : printFunctions = Kind.all.flatMap (fun k => printPair k.name k) ++
    [⟨"__ext_print_char_arr", .printChars⟩, ⟨"__ext_println_char_arr", .printlnChars⟩] :=
  rfl

theorem inputFunctions_eq : inputFunctions = (Kind.all.filter Kind.hasInput).map (fun k => inputFunction k.name k) ++
    [⟨"__ext_input_string", .inputLine⟩] :=
  rfl

/-! ## Names -/

namespace LinkedFunction

/-- the function is linked under the name of its symbol -/
def WellNamed (f : LinkedFunction) : Prop :=
  f.name = f.call.name

/-- the groups in which a tag stands for the kind: the tag has to be the name of the kind -/
theorem wellNamed_tagged (k : Kind) :
    (∀ f ∈ integerFunctions k.name k, f.WellNamed) ∧ (∀ f ∈ floatFunctions k.name k, f.WellNamed) ∧
      (∀ f ∈ printPair k.name k, f.WellNamed) ∧ (inputFunction k.name k).WellNamed := by
  simp [integerFunctions, floatFunctions, printPair, inputFunction, WellNamed, Symbol.name, Symbol.stem, Operator.name,
    ← String.append_assoc]

/-- the groups that are written down without tags -/
theorem wellNamed_untagged :
    (∀ f ∈ charFunctions ++ boolFunctions ++ negations, f.WellNamed) ∧
      (∀ f ∈ memoryFunctions ++ processFunctions, f.WellNamed) := by
  simp [charFunctions, boolFunctions, negations, memoryFunctions, processFunctions, WellNamed, Symbol.name,
    Symbol.stem, Operator.name, Kind.name, IntKind.name, FloatKind.name]

theorem wellNamed_operatorFunctions (k : Kind) : ∀ f ∈ k.operatorFunctions, f.WellNamed := by
  have huntagged := wellNamed_untagged.1
  simp only [List.forall_mem_append] at huntagged
  obtain ⟨⟨hchar, hbool⟩, -⟩ := huntagged
  obtain ⟨hinteger, hfloat, -⟩ := wellNamed_tagged k
  cases k with
  | int k =>
    cases k with
    | char => exact hchar
    | _ => exact hinteger
  | float k => cases k <;> exact hfloat
  | bool => exact hbool

theorem wellNamed_castFunctions (k : Kind) : ∀ f ∈ k.castFunctions, f.WellNamed := by
  simp only [k.castFunctions_eq, castRow, List.map_map, List.forall_mem_map]
  intro l _
  simp [WellNamed, Symbol.name, Symbol.stem, ← String.append_assoc]

theorem wellNamed_ioFunctions : ∀ f ∈ printFunctions ++ inputFunctions, f.WellNamed := by
  simp only [printFunctions_eq, inputFunctions_eq, List.forall_mem_append, List.forall_mem_flatMap,
    List.forall_mem_map]
  exact ⟨⟨fun k _ => (wellNamed_tagged k).2.2.1, by simp [WellNamed, Symbol.name, Symbol.stem]⟩,
    fun k _ => (wellNamed_tagged k).2.2.2, by simp [WellNamed, Symbol.name, Symbol.stem]⟩

/-- **A function is linked under the name of the symbol that it stands for.** -/
theorem name_eq {f : LinkedFunction} (hf : f ∈ linkTable) : f.name = f.call.name := by
  simp only [linkTable, List.append_assoc, List.mem_append, List.mem_flatMap] at hf
  rcases hf with ⟨k, -, hf⟩ | hf | ⟨k, -, hf⟩ | hf | hf | hf | hf
  · exact wellNamed_operatorFunctions k f hf
  · exact wellNamed_untagged.1 f (List.mem_append_right _ hf)
  · exact wellNamed_castFunctions k f hf
  · exact wellNamed_ioFunctions f (List.mem_append_left _ hf)
  · exact wellNamed_ioFunctions f (List.mem_append_right _ hf)
  · exact wellNamed_untagged.2 f (List.mem_append_left _ hf)
  · exact wellNamed_untagged.2 f (List.mem_append_right _ hf)

end LinkedFunction

/-! ## Symbols -/

/-- a group holds the operators that its kind has, in the order of the catalogue -/
theorem Kind.map_call_operatorFunctions (k : Kind) :
    k.operatorFunctions.map LinkedFunction.call =
      ((operatorsOf k).filter (· != .unaryMinus)).map (Symbol.operator · k) := by
  cases k with
  | int k => cases k <;> rfl
  | float k => cases k <;> rfl
  | bool => rfl

/-- negation is linked for the kinds that have it -/
theorem mem_map_call_negations (y : Symbol) : y ∈ negations.map LinkedFunction.call ↔
    ∃ k, Operator.unaryMinus.supports k = true ∧ Symbol.operator .unaryMinus k = y := by
  have hcalls : negations.map LinkedFunction.call =
      [Kind.int .i32, .int .i64, .float .f32, .float .f64].map (Symbol.operator .unaryMinus) := rfl
  have htable : ∀ k ∈ Kind.all, k ∈ [Kind.int .i32, .int .i64, .float .f32, .float .f64] ↔
      Operator.unaryMinus.supports k = true := by decide
  rw [hcalls, List.mem_map]
  exact exists_congr fun k => and_congr_left' (htable k k.mem_all)

theorem mem_map_call_operators (op : Operator) (k : Kind) :
    Symbol.operator op k ∈ (k.operatorFunctions ++ negations).map LinkedFunction.call ↔ op.supports k = true := by
  rw [List.map_append, List.mem_append, k.map_call_operatorFunctions, mem_map_call_negations]
  by_cases hop : op = .unaryMinus
  · simp [hop]
  · simp [hop, Ne.symm hop, operatorsOf, op.mem_all]

/-- for each operator that a kind has there is a function, and for no other -/
theorem Operator.isLinked_eq_supports (op : Operator) (k : Kind) : op.isLinked k = op.supports k := by
  rw [Bool.eq_iff_iff, ← mem_map_call_operators]
  simp [isLinked]

/-- the operator groups and the negations hold the operators of the catalogue -/
theorem mem_map_call_operatorPart (y : Symbol) :
    y ∈ (Kind.all.flatMap Kind.operatorFunctions ++ negations).map LinkedFunction.call ↔
      y ∈ Kind.all.flatMap fun k => (operatorsOf k).map (Symbol.operator · k) := by
  constructor
  · intro h
    rw [List.map_append, List.mem_append] at h
    rcases h with h | h
    · simp only [List.map_flatMap, Kind.map_call_operatorFunctions, List.mem_flatMap, List.mem_map, List.mem_filter] at h
      obtain ⟨k, hk, op, hop, rfl⟩ := h
      exact List.mem_flatMap.2 ⟨k, hk, List.mem_map_of_mem hop.1⟩
    · obtain ⟨k, hk, rfl⟩ := (mem_map_call_negations y).1 h
      exact List.mem_flatMap.2 ⟨k, k.mem_all, List.mem_map_of_mem (List.mem_filter.2 ⟨Operator.mem_all _, hk⟩)⟩
  · intro h
    obtain ⟨k, hk, hy⟩ := List.mem_flatMap.1 h
    obtain ⟨op, hop, rfl⟩ := List.mem_map.1 hy
    have hmem := (mem_map_call_operators op k).2 (List.mem_filter.1 hop).2
    rw [List.map_append, List.mem_append] at hmem ⊢
    refine hmem.imp_left ?_
    rw [List.map_flatMap]
    exact fun hrow => List.mem_flatMap.2 ⟨k, hk, hrow⟩

/-- behind the operators, the two tables list the same symbols in the same order -/
theorem map_call_linkTable : linkTable.map LinkedFunction.call =
    (Kind.all.flatMap Kind.operatorFunctions ++ negations).map LinkedFunction.call ++ castSymbols ++ ioSymbols ++
      memorySymbols ++ [.exit] := by
  have hcasts : (Kind.all.flatMap Kind.castFunctions).map LinkedFunction.call = castSymbols := by
    simp [castSymbols, List.map_flatMap, Kind.castFunctions_eq, castRow, Function.comp_def]
  rw [← hcasts]
  simp only [linkTable, List.map_append, List.append_assoc]
  rfl

/-- **A function is linked exactly if its symbol is catalogued.** -/
theorem mem_map_call_linkTable (y : Symbol) : y ∈ linkTable.map LinkedFunction.call ↔ y ∈ catalogue := by
  rw [map_call_linkTable]
  simp only [catalogue, List.mem_append, mem_map_call_operatorPart]

/-! ## Finding an entry by its name -/

/-- a search by a name that no two entries share -/
theorem find?_eq_some_iff_of_inj {α : Type} {name : α → String} {l : List α}
    (hinj : ∀ a ∈ l, ∀ b ∈ l, name a = name b → a = b) {s : String} {a : α} :
    l.find? (name · == s) = some a ↔ a ∈ l ∧ name a = s := by
  constructor
  · intro h
    exact ⟨List.mem_of_find?_eq_some h, by simpa using List.find?_some h⟩
  · rintro ⟨ha, rfl⟩
    have hsome : (l.find? (name · == name a)).isSome = true := List.find?_isSome.2 ⟨a, ha, by simp⟩
    obtain ⟨b, hb⟩ := Option.isSome_iff_exists.1 hsome
    have hname : name b = name a := by simpa using List.find?_some hb
    rw [hb, hinj b (List.mem_of_find?_eq_some hb) a ha hname]

namespace Symbol

/-- **A look-up finds the one catalogued symbol of a name.** -/
theorem lookup_eq_ok_iff (s : String) (y : Symbol) : lookup s = .ok y ↔ y ∈ catalogue ∧ y.name = s := by
  have hinj : ∀ y ∈ catalogue, ∀ z ∈ catalogue, y.name = z.name → y = z := fun y _ z _ h => name_injective h
  rw [← find?_eq_some_iff_of_inj hinj, lookup]
  cases catalogue.find? (name · == s) <;> simp

/-- a look-up that fails keeps the name unchanged -/
theorem lookup_eq_error {s : String} {e : LookupError} (h : lookup s = .error e) : e = .unknownSymbol s := by
  unfold lookup at h
  split at h
  · cases h
  · cases h
    rfl

theorem lookup_name {y : Symbol} (hy : y ∈ catalogue) : lookup y.name = .ok y :=
  (lookup_eq_ok_iff y.name y).2 ⟨hy, rfl⟩

end Symbol

namespace LinkedFunction

/-- no two functions are linked under one name -/
theorem eq_of_name_eq {f g : LinkedFunction} (hf : f ∈ linkTable) (hg : g ∈ linkTable) (h : f.name = g.name) : f = g := by
  have hcall : f.call = g.call := by
    apply Symbol.name_injective
    rw [← name_eq hf, ← name_eq hg, h]
  cases f with
  | mk name call =>
    obtain rfl : name = g.name := h
    obtain rfl : call = g.call := hcall
    rfl

theorem find?_eq_some_iff (s : String) (f : LinkedFunction) : find? s = some f ↔ f ∈ linkTable ∧ f.name = s :=
  find?_eq_some_iff_of_inj fun _ hf _ hg => eq_of_name_eq hf hg

/-- **Under the name of a catalogued symbol its own function is linked.** -/
theorem find?_name {y : Symbol} (hy : y ∈ catalogue) : find? y.name = some ⟨y.name, y⟩ := by
  obtain ⟨f, hf, rfl⟩ := List.mem_map.1 ((mem_map_call_linkTable y).2 hy)
  have heq : (⟨f.call.name, f.call⟩ : LinkedFunction) = f := by rw [← name_eq hf]
  rw [heq]
  exact (find?_eq_some_iff _ f).2 ⟨hf, name_eq hf⟩

/-- what is linked can be looked up, and the look-up gives the symbol of the function -/
theorem lookup_eq_ok {f : LinkedFunction} (hf : f ∈ linkTable) : Symbol.lookup f.name = .ok f.call := by
  rw [name_eq hf]
  exact Symbol.lookup_name ((mem_map_call_linkTable f.call).1 (List.mem_map_of_mem hf))

end LinkedFunction

end CallSurface
