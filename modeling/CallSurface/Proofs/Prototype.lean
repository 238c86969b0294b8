/-
Prototypes of the catalogue: no two are alike, each is one line, and the kinds in them are those a symbol mentions.

The bracket that opens the parameters is the first one of a prototype, and the word before it is the link name
(`Symbol.exists_prototype_eq`). So a prototype tells its symbol (`Symbol.prototype_injective`), as a link name does. A
listing takes from the catalogue, where no symbol stands twice (`catalogue_nodup`).
-/
import CallSurface.Proofs.LinkName

namespace CallSurface

/-! ## The catalogue has no symbol twice -/

theorem Kind.all_nodup : Kind.all.Nodup := by decide

theorem Operator.all_nodup : Operator.all.Nodup := by decide

/-- lists of symbols in a row, where a symbol tells which list it is in -/
theorem nodup_flatMap_of_index {ι : Type} {l : List ι} {f : ι → List Symbol} (hl : l.Nodup) (hf : ∀ i, (f i).Nodup)
    (hindex : ∀ i j, ∀ s ∈ f i, s ∈ f j → i = j) : (l.flatMap f).Nodup := by
  rw [List.nodup_flatMap]
  refine ⟨fun i _ => hf i, hl.imp ?_⟩
  intro i j hne s hi hj
  exact hne (hindex i j s hi hj)

theorem operators_nodup : (Kind.all.flatMap fun k => (operatorsOf k).map (Symbol.operator · k)).Nodup := by
  apply nodup_flatMap_of_index Kind.all_nodup
  · intro k
    apply (Operator.all_nodup.filter _).map
    rintro op p ⟨⟩
    rfl
  · intro j k s hj hk
    obtain ⟨op, -, rfl⟩ := List.mem_map.1 hj
    obtain ⟨p, -, ⟨⟩⟩ := List.mem_map.1 hk
    rfl

theorem castSymbols_nodup : castSymbols.Nodup := by
  apply nodup_flatMap_of_index Kind.all_nodup
  · intro a
    apply (Kind.all_nodup.filter _).map
    rintro b c ⟨⟩
    rfl
  · intro j k s hj hk
    obtain ⟨b, -, rfl⟩ := List.mem_map.1 hj
    obtain ⟨c, -, ⟨⟩⟩ := List.mem_map.1 hk
    rfl

namespace Family

/-- the catalogued symbols of a family, in listing order -/
def symbols : Family → List Symbol
  | operator => Kind.all.flatMap fun k => (operatorsOf k).map (Symbol.operator · k)
  | cast => castSymbols
  | io => ioSymbols
  | memory => memorySymbols
  | process => [.exit]

theorem symbols_nodup (f : Family) : f.symbols.Nodup := by
  cases f with
  | operator => exact operators_nodup
  | cast => exact castSymbols_nodup
  | io => decide
  | memory => decide
  | process => decide

theorem family_of_mem_symbols {f : Family} {s : Symbol} (h : s ∈ f.symbols) : s.family = f := by
  cases f with
  | operator =>
    obtain ⟨k, -, hk⟩ := List.mem_flatMap.1 h
    obtain ⟨op, -, rfl⟩ := List.mem_map.1 hk
    rfl
  | cast =>
    obtain ⟨a, -, ha⟩ := List.mem_flatMap.1 h
    obtain ⟨b, -, rfl⟩ := List.mem_map.1 ha
    rfl
  | io =>
    have hall : ∀ s ∈ ioSymbols, s.family = .io := by decide
    exact hall s h
  | memory =>
    have hall : ∀ s ∈ memorySymbols, s.family = .memory := by decide
    exact hall s h
  | process =>
    rw [List.mem_singleton.1 h]
    rfl

end Family

theorem catalogue_eq_flatMap : catalogue = Family.all.flatMap Family.symbols := by
  simp [catalogue, Family.all, Family.symbols]

/-- **No symbol stands twice in the catalogue.** -/
theorem catalogue_nodup : catalogue.Nodup := by
  rw [catalogue_eq_flatMap]
  apply nodup_flatMap_of_index (by decide) Family.symbols_nodup
  intro f g s hf hg
  rw [← Family.family_of_mem_symbols hf, Family.family_of_mem_symbols hg]

/-! ## Kinds of a symbol -/

/-- **The kinds that a symbol mentions are those of its signature.** -/
theorem Symbol.mentions_iff_mem_kinds (s : Symbol) (k : Kind) : s.mentions k = true ↔ k ∈ s.signature.kinds := by
  have hpair : ∀ a b : Kind, (a == k || b == k) = true ↔ k ∈ [a, b] := by
    intro a b
    rw [Bool.or_eq_true, beq_iff_eq, beq_iff_eq, List.mem_pair, @eq_comm _ k a, @eq_comm _ k b]
  have hone : ∀ a : Kind, (a == k) = true ↔ k ∈ [a] := by
    intro a
    rw [beq_iff_eq, List.mem_singleton, eq_comm]
  cases s with
  | operator op l =>
    by_cases harity : op.arity = 1
    · have hkinds : (operator op l).signature.kinds = [l, op.resultKind l] := by
        simp [signature, Signature.kinds, harity]
      rw [hkinds]
      exact hpair l (op.resultKind l)
    · have hkinds : (operator op l).signature.kinds = [l, l, op.resultKind l] := by
        simp [signature, Signature.kinds, harity]
      rw [hkinds, List.mem_cons, ← hpair l (op.resultKind l)]
      simp only [mentions, Bool.or_eq_true, beq_iff_eq]
      tauto
  | cast a b => exact hpair a b
  | print l => exact hone l
  | println l => exact hone l
  | input l => exact hone l
  | malloc => exact beq_iff_eq.trans List.mem_singleton.symm
  | addressToUsize => exact beq_iff_eq.trans List.mem_singleton.symm
  | usizeToAddress => exact beq_iff_eq.trans List.mem_singleton.symm
  | exit => exact beq_iff_eq.trans List.mem_singleton.symm
  | printChars => exact ⟨nofun, nofun⟩
  | printlnChars => exact ⟨nofun, nofun⟩
  | inputLine => exact ⟨nofun, nofun⟩
  | free => exact ⟨nofun, nofun⟩

/-! ## Texts of prototypes -/

/-- a character of the names of C: letter, digit or underscore -/
def isNameChar (c : Char) : Bool :=
  c.isAlphanum || c == '_'

/-- neither the bracket that opens the parameters nor the end of a line -/
def isPlainChar (c : Char) : Bool :=
  c != '(' && c != '\n'

theorem notMem_of_all {p : Char → Bool} {c : Char} {cs : List Char} (h : cs.all p = true) (hc : p c = false) : c ∉ cs := by
  intro hmem
  rw [List.all_eq_true.1 h c hmem] at hc
  cases hc

theorem notMem_of_all_isPlainChar {cs : List Char} (h : cs.all isPlainChar = true) : '(' ∉ cs ∧ '\n' ∉ cs :=
  ⟨notMem_of_all h (by decide), notMem_of_all h (by decide)⟩

theorem Kind.all_isNameChar_name (k : Kind) : k.name.toList.all isNameChar = true := by
  cases k with
  | int k => cases k <;> decide
  | float k => cases k <;> decide
  | bool => decide

theorem Operator.all_isNameChar_name (op : Operator) : op.name.toList.all isNameChar = true := by
  cases op <;> decide

theorem CType.all_isPlainChar_spelling (t : CType) : t.spelling.toList.all isPlainChar = true := by
  cases t with
  | scalar k =>
    cases k with
    | int k => cases k <;> decide
    | float k => cases k <;> decide
    | bool => decide
  | _ => decide

theorem all_intercalate {p : Char → Bool} {sep : String} {l : List String} (hsep : sep.toList.all p = true)
    (hl : ∀ t ∈ l, t.toList.all p = true) : (sep.intercalate l).toList.all p = true := by
  induction l with
  | nil => simp
  | cons t l ih =>
    have ht : t.toList.all p = true := hl t List.mem_cons_self
    have htail : (sep.intercalate l).toList.all p = true := ih fun u hu => hl u (List.mem_cons_of_mem t hu)
    cases l with
    | nil => simpa using ht
    | cons u l =>
      rw [String.intercalate_cons_cons, String.toList_append, String.toList_append, List.all_append, List.all_append, ht,
        hsep, htail]
      rfl

theorem Signature.all_isPlainChar_parameterText (s : Signature)
    (h : ∀ p ∈ s.params, p.name.toList.all isPlainChar = true) : s.parameterText.toList.all isPlainChar = true := by
  unfold parameterText
  split
  · decide
  · apply all_intercalate (by decide)
    intro t ht
    obtain ⟨p, hp, rfl⟩ := List.mem_map.1 ht
    rw [Param.declaration, String.toList_append, String.toList_append, List.all_append, List.all_append,
      p.type.all_isPlainChar_spelling, h p hp]
    decide

namespace Symbol

theorem all_isNameChar_name (s : Symbol) : s.name.toList.all isNameChar = true := by
  have hstem : s.stem.toList.all isNameChar = true := by
    cases s <;> simp [stem, Kind.all_isNameChar_name, Operator.all_isNameChar_name] <;> decide
  rw [name, String.toList_append, List.all_append, hstem]
  decide

theorem all_isPlainChar_param (s : Symbol) : ∀ p ∈ s.signature.params, p.name.toList.all isPlainChar = true := by
  cases s with
  | operator op k =>
    intro p hp
    have hname : p.name = "x" ∨ p.name = "y" := by
      by_cases harity : op.arity = 1
      · simp only [signature, harity, ↓reduceIte, List.mem_singleton] at hp
        simp [hp]
      · simp only [signature, harity, ↓reduceIte, List.mem_pair] at hp
        rcases hp with rfl | rfl <;> simp
    rcases hname with h | h <;> rw [h] <;> decide
  | _ => simp [signature] <;> decide

/-- a prototype has the link name as the last word before its only opening bracket -/
theorem exists_prototype_eq (s : Symbol) : ∃ head params : List Char,
    head.all isPlainChar = true ∧ params.all isPlainChar = true ∧
      s.prototype.toList = (head ++ ' ' :: s.name.toList) ++ '(' :: (params ++ [')']) := by
  have hret := s.signature.ret.all_isPlainChar_spelling
  have hparams := s.signature.all_isPlainChar_parameterText s.all_isPlainChar_param
  by_cases hexit : s = .exit
  · subst hexit
    refine ⟨"_Noreturn ".toList ++ exit.signature.ret.spelling.toList, _, ?_, hparams, ?_⟩
    · rw [List.all_append, hret]
      decide
    · simp [prototype, Signature.prototype]
  · refine ⟨s.signature.ret.spelling.toList, _, hret, hparams, ?_⟩
    have hplain : s.prototype = s.signature.prototype s.name := by
      cases s <;> first | rfl | exact absurd rfl hexit
    simp [hplain, Signature.prototype]

theorem notMem_name (s : Symbol) : ' ' ∉ s.name.toList ∧ '(' ∉ s.name.toList ∧ '\n' ∉ s.name.toList := by
  have hname := s.all_isNameChar_name
  exact ⟨notMem_of_all hname (by decide), notMem_of_all hname (by decide), notMem_of_all hname (by decide)⟩

/-- **No two symbols share a prototype.** -/
theorem prototype_injective : Function.Injective prototype := by
  intro s t h
  obtain ⟨head, params, hhead, hparams, hs⟩ := s.exists_prototype_eq
  obtain ⟨head', params', hhead', hparams', ht⟩ := t.exists_prototype_eq
  have hfront : '(' ∉ head ++ ' ' :: s.name.toList := by
    simp [(notMem_of_all_isPlainChar hhead).1, s.notMem_name.2.1]
  have hback : '(' ∉ params ++ [')'] := by
    simp [(notMem_of_all_isPlainChar hparams).1]
  have htexts : (head ++ ' ' :: s.name.toList) ++ '(' :: (params ++ [')']) =
      (head' ++ ' ' :: t.name.toList) ++ '(' :: (params' ++ [')']) := by
    rw [← hs, ← ht, h]
  obtain ⟨hwords, -⟩ := (List.append_cons_inj_of_notMem hfront hback).1 htexts
  obtain ⟨-, hname⟩ := append_cons_inj_of_last s.notMem_name.1 t.notMem_name.1 hwords
  exact name_injective (String.toList_inj.1 hname)

theorem newline_notMem_prototype (s : Symbol) : '\n' ∉ s.prototype.toList := by
  obtain ⟨head, params, hhead, hparams, hs⟩ := s.exists_prototype_eq
  rw [hs]
  simp [(notMem_of_all_isPlainChar hhead).2, (notMem_of_all_isPlainChar hparams).2, s.notMem_name.2.2]

end Symbol

end CallSurface
